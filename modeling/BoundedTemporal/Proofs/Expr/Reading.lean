/-
What an evaluation asks for.

An expression is evaluated from left to right, and an operand is looked at only while it can still
change the value. So which literals are asked for depends on the values of those before them; but
nothing else does, and the value is the one that all literals together would give.

* `Expr.evalWith`: evaluation with literals whose values are found by a computation, which may keep
  a record (`Expr.record`), and `Expr.evalWith_record`: the record is `Expr.ask`;
* `Expr.untilValue`: conjunction and disjunction in one, over operands that have been asked;
* `Expr.ask_fst`, `Expr.ask_sublist_lits`, `Expr.ask_congr`: the value, the order of the literals,
  and what the evaluation depends on;
* `Expr.rebuild`: an expression built once more, without constants under a negation and without
  short conjunctions and disjunctions, and `Expr.ask_rebuild`: this is not noticed;
* `Expr.Reads`, `Expr.reads_and_rebuild`: all of it for the expressions over literals.
-/
import BoundedTemporal.Encoding.Literal
import BoundedTemporal.Expr.Reading
import BoundedTemporal.Proofs.Expr.Literals
import Mathlib.Data.List.Flatten

namespace BoundedTemporal

namespace Expr

variable {α : Type} {m : Type → Type} {v w : α → Bool} {e : Expr α} {es : List (Expr α)}
  {stop : Bool}

/-! ### One operand after the other -/

/-- The value of operands that are asked one after the other until one of them has the value
`stop`, and all that has been asked for by then. -/
def untilValue (stop : Bool) : List (Bool × List α) → Bool × List α
  | [] => (!stop, [])
  | (value, asked) :: rest =>
    if value = stop then (value, asked)
    else ((untilValue stop rest).1, asked ++ (untilValue stop rest).2)

@[simp] lemma untilValue_singleton (r : Bool × List α) : untilValue stop [r] = r := by
  obtain ⟨value, asked⟩ := r
  cases value <;> cases stop <;> simp [untilValue]

lemma askAll_eq (v : α → Bool) (es : List (Expr α)) :
    askAll v es = untilValue false (es.map (ask v)) := by
  induction es with
  | nil => rfl
  | cons e es ih =>
      rw [askAll, List.map_cons]
      obtain ⟨value, asked⟩ := e.ask v
      cases value <;> simp [untilValue, ih]

lemma askAny_eq (v : α → Bool) (es : List (Expr α)) :
    askAny v es = untilValue true (es.map (ask v)) := by
  induction es with
  | nil => rfl
  | cons e es ih =>
      rw [askAny, List.map_cons]
      obtain ⟨value, asked⟩ := e.ask v
      cases value <;> simp [untilValue, ih]

/-! ### The value -/

lemma untilValue_false_fst (rs : List (Bool × List α)) :
    (untilValue false rs).1 = (rs.map Prod.fst).all id := by
  induction rs with
  | nil => rfl
  | cons r rs ih =>
      obtain ⟨value, asked⟩ := r
      cases value <;> simp [untilValue, ih]

lemma untilValue_true_fst (rs : List (Bool × List α)) :
    (untilValue true rs).1 = (rs.map Prod.fst).any id := by
  induction rs with
  | nil => rfl
  | cons r rs ih =>
      obtain ⟨value, asked⟩ := r
      cases value <;> simp [untilValue, ih]

/-- **Asking finds the value** that the expression has under the assignment. -/
lemma ask_fst (v : α → Bool) (e : Expr α) : (e.ask v).1 = e.eval v := by
  have operands {es : List (Expr α)} (ih : ∀ e ∈ es, (e.ask v).1 = e.eval v) :
      (es.map (ask v)).map Prod.fst = es.map (eval v) := by
    rw [List.map_map]
    exact List.map_congr_left ih
  induction e using ind with
  | top | bot | lit x => rfl
  | not e ih => rw [ask, eval, ← ih]
  | and es ih =>
      rw [ask, eval, askAll_eq, untilValue_false_fst, operands ih, evalAll_eq_all, List.all_map]
      rfl
  | or es ih =>
      rw [ask, eval, askAny_eq, untilValue_true_fst, operands ih, evalAny_eq_any, List.any_map]
      rfl

/-! ### The order of the literals -/

lemma untilValue_sublist (stop : Bool) (rs : List (Bool × List α)) :
    (untilValue stop rs).2.Sublist (rs.flatMap Prod.snd) := by
  induction rs with
  | nil => exact List.Sublist.slnil
  | cons r rs ih =>
      obtain ⟨value, asked⟩ := r
      rw [untilValue, List.flatMap_cons]
      split
      · exact List.sublist_append_left _ _
      · exact (List.Sublist.refl _).append ih

/-- **The literals are asked for in their order**, with none of them asked more often than it
occurs. -/
lemma ask_sublist_lits (v : α → Bool) (e : Expr α) : (e.ask v).2.Sublist e.lits := by
  have operands (stop : Bool) (es : List (Expr α))
      (ih : ∀ e ∈ es, (e.ask v).2.Sublist e.lits) :
      (untilValue stop (es.map (ask v))).2.Sublist (litsOf es) := by
    refine (untilValue_sublist stop _).trans ?_
    rw [litsOf_eq_flatMap, List.flatMap_map]
    exact List.Sublist.flatMap_right es ih
  induction e using ind with
  | top | bot | lit x => exact List.Sublist.refl _
  | not e ih => exact ih
  | and es ih =>
      rw [ask, lits, askAll_eq]
      exact operands false es ih
  | or es ih =>
      rw [ask, lits, askAny_eq]
      exact operands true es ih

/-! ### What the evaluation depends on -/

/-- **Nothing else is looked at**: an assignment that gives the same values to the literals that
have been asked for leads to the same questions and the same value. -/
lemma ask_congr (e : Expr α) (agree : ∀ x ∈ (e.ask v).2, w x = v x) : e.ask w = e.ask v := by
  have operands (stop : Bool) (es : List (Expr α))
      (ih : ∀ e ∈ es, (∀ x ∈ (e.ask v).2, w x = v x) → e.ask w = e.ask v)
      (agree : ∀ x ∈ (untilValue stop (es.map (ask v))).2, w x = v x) :
      untilValue stop (es.map (ask w)) = untilValue stop (es.map (ask v)) := by
    induction es with
    | nil => rfl
    | cons e es ihes =>
        rw [List.map_cons, untilValue] at agree
        have rest := fun e he => ih e (List.mem_cons_of_mem _ he)
        by_cases found : (e.ask v).1 = stop
        · rw [if_pos found] at agree
          rw [List.map_cons, List.map_cons, ih e List.mem_cons_self agree, untilValue, untilValue,
            if_pos found, if_pos found]
        · rw [if_neg found, List.forall_mem_append] at agree
          rw [List.map_cons, List.map_cons, ih e List.mem_cons_self agree.1, untilValue, untilValue,
            ihes rest agree.2]
  induction e using ind with
  | top | bot => rfl
  | lit x => rw [ask, ask, agree x (List.mem_singleton_self x)]
  | not e ih => rw [ask, ask, ih agree]
  | and es ih =>
      rw [ask, askAll_eq] at agree
      rw [ask, ask, askAll_eq, askAll_eq, operands false es ih agree]
  | or es ih =>
      rw [ask, askAny_eq] at agree
      rw [ask, ask, askAny_eq, askAny_eq, operands true es ih agree]

/-! ### Evaluation with a record -/

section

variable [Monad m]

mutual

/-- The value of an expression, when the values of literals are found by a computation. -/
def evalWith (f : α → m Bool) : Expr α → m Bool
  | top => return true
  | bot => return false
  | lit x => f x
  | not e => return !(← e.evalWith f)
  | and es => evalUntil f false es
  | or es => evalUntil f true es

/-- The value of expressions that are evaluated until one of them has the value `stop`. -/
def evalUntil (f : α → m Bool) (stop : Bool) : List (Expr α) → m Bool
  | [] => return !stop
  | e :: es => do
    let value ← e.evalWith f
    if value = stop then return value else evalUntil f stop es

end

end

/-- Looks up a literal and writes it down. -/
def record (v : α → Bool) (x : α) : StateM (List α) Bool := do
  modify (· ++ [x])
  return v x

lemma evalWith_record (v : α → Bool) (e : Expr α) (log : List α) :
    (e.evalWith (record v)).run log = pure ((e.ask v).1, log ++ (e.ask v).2) := by
  have operands (stop : Bool) (es : List (Expr α)) (log : List α)
      (ih : ∀ e ∈ es, ∀ log,
        (e.evalWith (record v)).run log = pure ((e.ask v).1, log ++ (e.ask v).2)) :
      (evalUntil (record v) stop es).run log
        = pure ((untilValue stop (es.map (ask v))).1,
          log ++ (untilValue stop (es.map (ask v))).2) := by
    induction es generalizing log with
    | nil => rw [evalUntil, StateT.run_pure, List.map_nil, untilValue, List.append_nil]
    | cons e es ihes =>
        have rest := fun e he => ih e (List.mem_cons_of_mem _ he)
        rw [evalUntil, StateT.run_bind, ih e List.mem_cons_self, pure_bind, List.map_cons,
          untilValue]
        by_cases found : (e.ask v).1 = stop
        · rw [if_pos found, if_pos found, StateT.run_pure]
        · rw [if_neg found, if_neg found, ihes _ rest, List.append_assoc]
  induction e using ind generalizing log with
  | top => rw [evalWith, ask, StateT.run_pure, List.append_nil]
  | bot => rw [evalWith, ask, StateT.run_pure, List.append_nil]
  | lit x => rfl
  | not e ih => rw [evalWith, ask, StateT.run_bind, ih]; rfl
  | and es ih => rw [evalWith, ask, askAll_eq, operands false es log ih]
  | or es ih => rw [evalWith, ask, askAny_eq, operands true es log ih]

/-! ### Building once more -/

mutual

/-- The expression built once more from its literals, with constants and short lists put away. -/
def rebuild : Expr α → Expr α
  | top => top
  | bot => bot
  | lit x => lit x
  | not e => negate e.rebuild
  | and es => all (rebuildAll es)
  | or es => any (rebuildAll es)

/-- Several expressions built once more. -/
def rebuildAll : List (Expr α) → List (Expr α)
  | [] => []
  | e :: es => e.rebuild :: rebuildAll es

end

lemma rebuildAll_eq_map (es : List (Expr α)) : rebuildAll es = es.map rebuild := by
  induction es with
  | nil => rfl
  | cons e es ih => rw [rebuildAll, ih, List.map_cons]

@[simp] lemma ask_negate (v : α → Bool) (e : Expr α) :
    e.negate.ask v = (!(e.ask v).1, (e.ask v).2) := by
  cases e <;> rfl

@[simp] lemma ask_all (v : α → Bool) (es : List (Expr α)) :
    (all es).ask v = untilValue false (es.map (ask v)) := by
  match es with
  | [] => rfl
  | [e] => exact (untilValue_singleton (e.ask v)).symm
  | e :: e' :: es => exact askAll_eq v _

@[simp] lemma ask_any (v : α → Bool) (es : List (Expr α)) :
    (any es).ask v = untilValue true (es.map (ask v)) := by
  match es with
  | [] => rfl
  | [e] => exact (untilValue_singleton (e.ask v)).symm
  | e :: e' :: es => exact askAny_eq v _

/-- **Building once more is not noticed**: the same literals are asked for, with the same value. -/
lemma ask_rebuild (v : α → Bool) (e : Expr α) : e.rebuild.ask v = e.ask v := by
  have operands {es : List (Expr α)} (ih : ∀ e ∈ es, e.rebuild.ask v = e.ask v) :
      (rebuildAll es).map (ask v) = es.map (ask v) := by
    rw [rebuildAll_eq_map, List.map_map]
    exact List.map_congr_left ih
  induction e using ind with
  | top | bot | lit x => rfl
  | not e ih => rw [rebuild, ask_negate, ih, ask]
  | and es ih => rw [rebuild, ask_all, operands ih, ask, askAll_eq]
  | or es ih => rw [rebuild, ask_any, operands ih, ask, askAny_eq]

lemma lits_rebuild (e : Expr α) : e.rebuild.lits = e.lits := by
  have operands {es : List (Expr α)} (ih : ∀ e ∈ es, e.rebuild.lits = e.lits) :
      (rebuildAll es).flatMap lits = litsOf es := by
    rw [rebuildAll_eq_map, List.flatMap_map, litsOf_eq_flatMap]
    exact List.flatMap_congr ih
  induction e using ind with
  | top | bot | lit x => rfl
  | not e ih => rw [rebuild, lits_negate, ih, lits]
  | and es ih => rw [rebuild, lits_all, operands ih, lits]
  | or es ih => rw [rebuild, lits_any, operands ih, lits]

/-! ### Expressions over literals -/

/-- What an evaluation from left to right comes to. -/
structure Reads (v : Literal → Bool) (e : Expr Literal) : Prop where
  /-- A callback that writes down each literal is told the literals asked for, and the value is
  that of the expression. -/
  recorded : ∀ log, (e.evalWith (record v)).run log = pure (e.eval v, log ++ (e.ask v).2)
  /-- The literals are asked for in the order in which they occur. -/
  in_order : (e.ask v).2.Sublist e.lits
  /-- Nothing else is looked at. -/
  decided : ∀ w, (∀ x ∈ (e.ask v).2, w x = v x) → e.eval w = e.eval v ∧ (e.ask w).2 = (e.ask v).2
  /-- An expression that is built once more has the same value for the same literals. -/
  rebuilt : e.rebuild.eval v = e.eval v ∧ (e.rebuild.ask v).2 = (e.ask v).2

/-- **Evaluation from left to right** finds the value of every expression under every assignment,
asks for literals in the order in which they occur, and looks at nothing that it does not ask for.
An expression that is built once more, without constants under a negation and without short
conjunctions and disjunctions, behaves alike, and mentions the same literals and ticks. -/
theorem reads_and_rebuild (e : Expr Literal) :
    (∀ v, e.Reads v) ∧ e.rebuild.lits = e.lits ∧ e.rebuild.ticks = e.ticks := by
  refine ⟨fun v => ?_, lits_rebuild e, by rw [ticks, ticks, lits_rebuild]⟩
  exact
    { recorded := fun log => by rw [evalWith_record, ask_fst]
      in_order := ask_sublist_lits v e
      decided := fun w agree => by rw [← ask_fst, ← ask_fst, ask_congr e agree]; exact ⟨rfl, rfl⟩
      rebuilt := by rw [← ask_fst, ← ask_fst, ask_rebuild]; exact ⟨rfl, rfl⟩ }

/-- The first operand fails at its first literal, and the second one holds without any. -/
theorem reads_and_rebuild_short :
    let a : Literal := ⟨.atom "a", 3⟩
    let b : Literal := ⟨.atom "b", 3⟩
    let e : Expr Literal := .or [.and [.lit a, .lit b], .not (.or []), .lit b]
    (∀ w : Literal → Bool, w a = false → e.eval w = true ∧ (e.ask w).2 = [a])
      ∧ e.rebuild = .or [.and [.lit a, .lit b], .top, .lit b] := by
  intro a b e
  have decided := ((reads_and_rebuild e).1 fun _ => false).decided
  exact ⟨fun w hw => decided w (List.forall_mem_singleton.mpr hw), rfl⟩

end Expr

end BoundedTemporal
