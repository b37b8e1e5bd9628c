/-
What can go wrong, one constructor for each cause.

* `Error`: the causes, with the values that the explanation names;
* `Error.kind`: whether the fault lies with a formula, an argument, or a query;
* `Error.message`: the explanation as text.
-/
import BoundedTemporal.Basic

namespace BoundedTemporal

/-- The causes of failure. -/
inductive Error where
  /-- A node was given an operand that is not stored. -/
  | missingOperand (id : NodeId)
  /-- An interval ends before it starts. -/
  | reversedBounds (lower upper : Nat)
  /-- An interval bound lies before tick zero. -/
  | negativeBound (value : Int)
  /-- An interval bound lies past the largest tick. -/
  | oversizedBound (value : Int)
  /-- A horizon lies before tick zero. -/
  | negativeHorizon (value : Int)
  /-- A horizon lies past the largest tick. -/
  | oversizedHorizon (value : Int)
  /-- The formula to unroll is not stored. -/
  | missingFormula (id : NodeId)
  /-- The scope of the fresh symbols is the empty text. -/
  | emptyScope
  /-- An atom is named like a fresh symbol of the scope. -/
  | scopeClash (atom : Atom) (scope : String)
  /-- A trace and an unrolling end at different ticks. -/
  | horizonMismatch (trace unrolling : Nat)
  /-- The constraints have not been generated yet. -/
  | notReady
  /-- The node is not below the root of the unrolling. -/
  | unknownFormula (id : NodeId)
  /-- The tick lies past the horizon. -/
  | tickOutOfRange (tick last : Nat)
deriving DecidableEq, Repr

/-- The classes that callers tell apart. -/
inductive Error.Kind where
  | invalidFormula
  | invalidArgument
  | notReady
  | unknownFormula
  | tickOutOfRange
deriving DecidableEq, Repr

namespace Error

/-- Operands and interval bounds belong to the formula; horizons, roots,
scopes and traces are arguments. -/
def kind : Error → Kind
  | missingOperand _ => .invalidFormula
  | reversedBounds _ _ => .invalidFormula
  | negativeBound _ => .invalidFormula
  | oversizedBound _ => .invalidFormula
  | negativeHorizon _ => .invalidArgument
  | oversizedHorizon _ => .invalidArgument
  | missingFormula _ => .invalidArgument
  | emptyScope => .invalidArgument
  | scopeClash _ _ => .invalidArgument
  | horizonMismatch _ _ => .invalidArgument
  | notReady => .notReady
  | unknownFormula _ => .unknownFormula
  | tickOutOfRange _ _ => .tickOutOfRange

/-- What is wrong, in words, without the class. -/
def reason : Error → String
  | missingOperand id => s!"operand {id.text} does not exist"
  | reversedBounds lower upper => s!"interval lower bound {lower} exceeds upper bound {upper}"
  | negativeBound value => s!"interval bound must be non-negative, got {value}"
  | oversizedBound value => s!"interval bound {value} is too large"
  | negativeHorizon value => s!"horizon must be non-negative, got {value}"
  | oversizedHorizon value => s!"horizon {value} is too large"
  | missingFormula id => s!"formula {id.text} does not exist"
  | emptyScope => "theta namespace must not be empty"
  | scopeClash atom scope => "atom '" ++ atom ++ "' clashes with theta namespace '" ++ scope ++ "'"
  | horizonMismatch trace unrolling =>
    s!"trace horizon {trace} does not match converter horizon {unrolling}"
  | notReady => "Converter is not ready: call apply() first"
  | unknownFormula id => s!"Formula {id.text} is not part of the converted tree"
  | tickOutOfRange tick last => s!"Tick {tick} is out of range for horizon {last}"

/-- The explanation; faults of formulas and arguments are announced as such. -/
def message (e : Error) : String :=
  match e.kind with
  | .invalidFormula => "Invalid formula: " ++ e.reason
  | .invalidArgument => "Invalid argument: " ++ e.reason
  | _ => e.reason

end Error

/-- A computation succeeds when its first step does and what follows does. -/
theorem bind_eq_ok_iff {ε α β : Type} {x : Except ε α} {f : α → Except ε β} {b : β} :
    x >>= f = .ok b ↔ ∃ a, x = .ok a ∧ f a = .ok b := by
  constructor
  · intro h
    cases x with
    | error e => cases h
    | ok a => exact ⟨a, rfl, h⟩
  · intro ⟨a, hx, h⟩
    rw [hx]
    exact h

/-- A computation fails when its first step does, or when what follows does. -/
theorem bind_eq_error_iff {ε α β : Type} {x : Except ε α} {f : α → Except ε β} {e : ε} :
    x >>= f = .error e ↔ x = .error e ∨ ∃ a, x = .ok a ∧ f a = .error e := by
  cases x <;> simp [bind, Except.bind]

/-- A computation over a list in which every step succeeds. -/
theorem mapM_eq_pure_map {m : Type → Type} [Monad m] [LawfulMonad m] {α β : Type} {as : List α}
    {f : α → m β} {g : α → β} (h : ∀ a ∈ as, f a = pure (g a)) : as.mapM f = pure (as.map g) := by
  induction as with
  | nil => rfl
  | cons a as ih =>
      rw [List.mapM_cons, h a List.mem_cons_self, pure_bind,
        ih fun b hb => h b (List.mem_cons_of_mem a hb), pure_bind, List.map_cons]

end BoundedTemporal
