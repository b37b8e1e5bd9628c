/-
One node of a formula, over operands of any kind.

* `Node`: the nine connectives; `Node NodeId` refers to stored operands, and
  `Node Formula` holds whole subformulas;
* `Node.operands`: the operands, left to right;
* `Node.interval?`: the timing of the timed connectives;
* `Node.mapM`: replaces the operands, left to right.
-/
import BoundedTemporal.Time.Interval

namespace BoundedTemporal

/-- A connective applied to its operands. -/
inductive Node (α : Type) where
  /-- A proposition. -/
  | atom (name : Atom)
  /-- Negation. -/
  | not (operand : α)
  /-- Conjunction. -/
  | and (left right : α)
  /-- Disjunction. -/
  | or (left right : α)
  /-- The operand holds at the next tick. -/
  | next (operand : α)
  /-- The operand holds throughout the future window. -/
  | globally (interval : Interval) (operand : α)
  /-- The operand holds somewhere in the future window. -/
  | eventually (interval : Interval) (operand : α)
  /-- The right operand holds somewhere in the future window, and the left one
  from now until then. -/
  | until (interval : Interval) (left right : α)
  /-- The right operand held somewhere in the past window, and the left one
  has held since then. -/
  | since (interval : Interval) (left right : α)
deriving DecidableEq

namespace Node

variable {α β : Type}

/-- The operands, left to right. -/
def operands : Node α → List α
  | atom _ => []
  | not p => [p]
  | and p q => [p, q]
  | or p q => [p, q]
  | next p => [p]
  | globally _ p => [p]
  | eventually _ p => [p]
  | .until _ p q => [p, q]
  | since _ p q => [p, q]

/-- The operand of a connective that has just one. -/
def operand? (n : Node α) : Option α :=
  match n.operands with
  | [p] => some p
  | _ => none

/-- The interval of a timed connective. -/
def interval? : Node α → Option Interval
  | globally I _ => some I
  | eventually I _ => some I
  | .until I _ _ => some I
  | since I _ _ => some I
  | _ => none

/-- Whether the node is a proposition. -/
def isAtom : Node α → Bool
  | atom _ => true
  | _ => false

/-- Whether the node looks at ticks before the present one. -/
def isPast : Node α → Bool
  | since _ _ _ => true
  | _ => false

/-- Whether the node looks at ticks after the present one. -/
def isFuture : Node α → Bool
  | next _ => true
  | globally _ _ => true
  | eventually _ _ => true
  | .until _ _ _ => true
  | _ => false

/-- The name of a proposition, or the sign of the connective with its
interval. -/
def symbol : Node α → String
  | atom name => name
  | not _ => "!"
  | and _ _ => "&"
  | or _ _ => "|"
  | next _ => "X"
  | globally I _ => "G" ++ I.text
  | eventually I _ => "F" ++ I.text
  | .until I _ _ => "U" ++ I.text
  | since I _ _ => "S" ++ I.text

/-- Replaces each operand by what `f` finds for it, left to right. -/
def mapM {m : Type → Type} [Monad m] (f : α → m β) : Node α → m (Node β)
  | atom name => pure (atom name)
  | not p => do return not (← f p)
  | and p q => do return and (← f p) (← f q)
  | or p q => do return or (← f p) (← f q)
  | next p => do return next (← f p)
  | globally I p => do return globally I (← f p)
  | eventually I p => do return eventually I (← f p)
  | .until I p q => do return .until I (← f p) (← f q)
  | since I p q => do return since I (← f p) (← f q)

/-- Replaces each operand. -/
def map (f : α → β) : Node α → Node β
  | atom name => atom name
  | not p => not (f p)
  | and p q => and (f p) (f q)
  | or p q => or (f p) (f q)
  | next p => next (f p)
  | globally I p => globally I (f p)
  | eventually I p => eventually I (f p)
  | .until I p q => .until I (f p) (f q)
  | since I p q => since I (f p) (f q)

theorem operands_map (f : α → β) (n : Node α) : (n.map f).operands = n.operands.map f := by
  cases n <;> rfl

theorem operands_eq_nil_iff (n : Node α) : n.operands = [] ↔ n.isAtom = true := by
  cases n <;> simp [operands, isAtom]

end Node

end BoundedTemporal
