/-
One layer of a formula: how it is written and what it means.

* `Node.text`, `Formula.text_ofNode`: the written form of a node over those of its
  operands, and of a formula as that of its outermost node;
* `Node.holds`: whether a node holds at a tick, when the values of its operands
  are known at all ticks;
* `Formula.layerInd`, `Formula.holds_ofNode`: induction over the layers of a formula,
  and the meaning of a formula as that of its outermost node over the meanings of the
  subformulas;
* `Node.eval_condition?`: the condition of a node is true exactly when the node
  holds, and `Node.mem_lits_condition?` lists what it mentions: operands, at
  ticks up to the last one;
* `Node.holds_congr`: therefore a node looks at nothing else.
-/
import BoundedTemporal.Formula.Semantics
import BoundedTemporal.Encoding.Condition
import BoundedTemporal.Proofs.Expr.Literals
import Mathlib.Tactic.Choose

namespace BoundedTemporal

lemma Window.mem_mk {a b t : Nat} : t ∈ Window.mk a b ↔ a ≤ t ∧ t < b :=
  Iff.rfl

namespace Node

variable {α β γ : Type}

/-! ### Replacement of operands -/

/-- Partial replacement finds something for every operand. -/
lemma exists_of_mapM_eq_some {f : α → Option β} {n : Node α} {layer : Node β}
    (h : n.mapM f = some layer) {p : α} (hp : p ∈ n.operands) : ∃ q, f p = some q := by
  cases n <;> simp only [mapM, Option.bind_eq_bind, Option.bind_eq_some_iff] at h <;>
    grind [operands]

/-- Partial replacement makes up no operand. -/
lemma exists_operand_of_mapM {f : α → Option β} {n : Node α} {layer : Node β}
    (h : n.mapM f = some layer) {q : β} (hq : q ∈ layer.operands) :
    ∃ p ∈ n.operands, f p = some q := by
  cases n <;> simp only [mapM, Option.bind_eq_bind, Option.bind_eq_some_iff] at h <;>
    grind [operands]

/-- Partial replacement keeps the connective; in particular, atoms stay. -/
lemma eq_atom_of_mapM {f : α → Option β} {n : Node α} {name : Atom}
    (h : n.mapM f = some (.atom name)) : n = .atom name := by
  cases n <;> simp only [mapM, Option.bind_eq_bind, Option.bind_eq_some_iff] at h <;> grind

/-- Partial replacement is replacement by a function that says the same. -/
lemma map_eq_of_mapM {f : α → Option β} {n : Node α} {layer : Node β}
    (h : n.mapM f = some layer) {x : α → γ} {y : β → γ} (hxy : ∀ p q, f p = some q → x p = y q) :
    n.map x = layer.map y := by
  cases n <;> simp only [mapM, Option.bind_eq_bind, Option.bind_eq_some_iff, Option.pure_def,
    Option.some.injEq] at h <;> grind [map]

/-- What partial replacement finds, it also finds with more replacements. -/
lemma mapM_mono {f g : α → Option β} (hfg : ∀ p q, f p = some q → g p = some q) {n : Node α}
    {layer : Node β} (h : n.mapM f = some layer) : n.mapM g = some layer := by
  cases n <;> simp only [mapM, Option.bind_eq_bind, Option.bind_eq_some_iff] at h ⊢ <;> grind

/-- A node that is replaced by a given one is found operand by operand. -/
lemma exists_mapM_eq_some [Nonempty α] {f : α → Option β} {layer : Node β}
    (found : ∀ q ∈ layer.operands, ∃ p, f p = some q) : ∃ n : Node α, n.mapM f = some layer := by
  choose! g hg using found
  refine ⟨layer.map g, ?_⟩
  cases layer <;> simp_all [operands, map, mapM]

/-- Replacement fails at the first operand for which nothing is found. -/
lemma mapM_eq_error_iff {ε : Type} {f : α → Except ε β} {n : Node α} {e : ε} :
    n.mapM f = .error e ↔
      ∃ p, n.operands.find? (fun p => !(f p).isOk) = some p ∧ f p = .error e := by
  have unary (p : α) :
      f p = .error e ↔ ∃ q, [p].find? (fun p => !(f p).isOk) = some q ∧ f q = .error e := by
    cases h : f p <;> simp [h, Except.isOk, Except.toBool]
  have binary (p q : α) : (f p = .error e ∨ ∃ a, f p = .ok a ∧ f q = .error e)
      ↔ ∃ r, [p, q].find? (fun p => !(f p).isOk) = some r ∧ f r = .error e := by
    cases h : f p <;> cases h' : f q <;> simp [h, h', Except.isOk, Except.toBool]
  cases n with
  | atom name => simp [mapM, operands, pure, Except.pure]
  | not p | next p | globally I p | eventually I p =>
      rw [operands, ← unary]
      simp [mapM, bind_eq_error_iff, pure, Except.pure]
  | and p q | or p q | «until» I p q | since I p q =>
      rw [operands, ← binary]
      simp [mapM, bind_eq_error_iff, pure, Except.pure]

/-! ### A node over its operands -/

/-- The written form of a node whose operands are written as given. -/
def text : Node String → String
  | atom name => name
  | not a => "!" ++ a
  | and a b => "(" ++ a ++ " & " ++ b ++ ")"
  | or a b => "(" ++ a ++ " | " ++ b ++ ")"
  | next a => "X " ++ a
  | globally I a => "G" ++ I.text ++ " " ++ a
  | eventually I a => "F" ++ I.text ++ " " ++ a
  | .until I a b => "(" ++ a ++ " U" ++ I.text ++ " " ++ b ++ ")"
  | since I a b => "(" ++ a ++ " S" ++ I.text ++ " " ++ b ++ ")"

/-- Whether a node holds at a tick of a trace when its operands have the given
values. -/
def holds (tr : Trace) : Node (Nat → Bool) → Nat → Bool
  | atom name, t => tr.holds name t
  | not p, t => !p t
  | and p q, t => p t && q t
  | or p q, t => p t || q t
  | next p, t => t < tr.horizon.last && p (t + 1)
  | globally I p, t => (I.future t tr.horizon.last).all p
  | eventually I p, t => (I.future t tr.horizon.last).any p
  | .until I p q, t => (I.future t tr.horizon.last).any fun s => q s && (Window.mk t s).all p
  | since I p q, t => (I.past t).any fun s => q s && (Window.mk (s + 1) (t + 1)).all p

/-! ### What a condition mentions -/

/-- Only atoms have no condition. -/
lemma exists_atom_of_condition? {n : Node α} {last t : Nat} (h : n.condition? last t = none) :
    ∃ name, n = .atom name := by
  cases n with
  | atom name => exact ⟨name, rfl⟩
  | _ => cases h

lemma lits_operandOver (p : α) (w : Window) :
    (operandOver p w).flatMap Expr.lits = w.ticks.map (p, ·) := by
  rw [operandOver, List.flatMap_map]
  exact List.map_eq_flatMap.symm

lemma lits_untilCase (p q : α) (t s : Nat) :
    (untilCase p q t s).lits = (Window.mk t s).ticks.map (p, ·) ++ [(q, s)] := by
  rw [untilCase, Expr.lits_all, List.flatMap_append, lits_operandOver]
  rfl

lemma lits_sinceCase (p q : α) (t s : Nat) :
    (sinceCase p q t s).lits = (Window.mk (s + 1) (t + 1)).ticks.map (p, ·) ++ [(q, s)] := by
  rw [sinceCase, Expr.lits_all, List.flatMap_append, lits_operandOver]
  rfl

lemma mem_map_ticks {p : α} {w : Window} {l : α × Nat} :
    l ∈ w.ticks.map (p, ·) ↔ l.1 = p ∧ l.2 ∈ w := by
  rw [List.mem_map]
  constructor
  · rintro ⟨s, hs, rfl⟩
    exact ⟨rfl, Window.mem_ticks.mp hs⟩
  · rintro ⟨rfl, hl⟩
    exact ⟨l.2, Window.mem_ticks.mpr hl, rfl⟩

/-- **The reach of a condition**: it mentions operands only, at ticks that are not
past the last one. -/
lemma mem_lits_condition? {n : Node α} {last t : Nat} {e : Expr (α × Nat)}
    (h : n.condition? last t = some e) (ht : t ≤ last) {l : α × Nat} (hl : l ∈ e.lits) :
    l.1 ∈ n.operands ∧ l.2 ≤ last := by
  cases n with
  | atom name => cases h
  | not p =>
      cases h
      rw [Expr.lits_negate, Expr.lits, List.mem_singleton] at hl
      rw [hl]
      exact ⟨List.mem_singleton_self p, ht⟩
  | and p q =>
      cases h
      rw [Expr.lits_all] at hl
      rcases List.mem_pair.mp hl with rfl | rfl <;> simp [operands, ht]
  | or p q =>
      cases h
      rw [Expr.lits_any] at hl
      rcases List.mem_pair.mp hl with rfl | rfl <;> simp [operands, ht]
  | next p =>
      cases h
      split at hl
      · rw [Expr.lits, List.mem_singleton] at hl
        rw [hl]
        exact ⟨List.mem_singleton_self p, by omega⟩
      · cases hl
  | globally I p =>
      cases h
      rw [Expr.lits_all, lits_operandOver, mem_map_ticks] at hl
      exact ⟨by simp [operands, hl.1], Interval.le_last_of_mem_future hl.2⟩
  | eventually I p =>
      cases h
      rw [Expr.lits_any, lits_operandOver, mem_map_ticks] at hl
      exact ⟨by simp [operands, hl.1], Interval.le_last_of_mem_future hl.2⟩
  | «until» I p q =>
      cases h
      rw [Expr.lits_any, List.flatMap_map, List.mem_flatMap] at hl
      obtain ⟨s, hs, hl⟩ := hl
      have hs := Interval.le_last_of_mem_future (Window.mem_ticks.mp hs)
      rw [lits_untilCase, List.mem_append, mem_map_ticks, Window.mem_mk, List.mem_singleton] at hl
      rcases hl with ⟨hl, -, hr⟩ | rfl
      · exact ⟨by simp [operands, hl], by omega⟩
      · exact ⟨by simp [operands], hs⟩
  | since I p q =>
      cases h
      rw [Expr.lits_any, List.flatMap_map, List.mem_flatMap] at hl
      obtain ⟨s, hs, hl⟩ := hl
      have hs := Interval.le_of_mem_past (Window.mem_ticks.mp (List.mem_reverse.mp hs))
      rw [lits_sinceCase, List.mem_append, mem_map_ticks, Window.mem_mk, List.mem_singleton] at hl
      rcases hl with ⟨hl, -, hr⟩ | rfl
      · exact ⟨by simp [operands, hl], by omega⟩
      · exact ⟨by simp [operands], by omega⟩

/-! ### When a condition is true -/

section

variable (x : α → Nat → Bool)

lemma all_eval_operandOver (p : α) (w : Window) :
    (operandOver p w).all (Expr.eval fun q => x q.1 q.2) = w.all (x p) := by
  rw [operandOver, List.all_map, Window.all_eq_ticks]
  rfl

lemma any_eval_operandOver (p : α) (w : Window) :
    (operandOver p w).any (Expr.eval fun q => x q.1 q.2) = w.any (x p) := by
  rw [operandOver, List.any_map, Window.any_eq_ticks]
  rfl

lemma eval_untilCase (p q : α) (t s : Nat) :
    (untilCase p q t s).eval (fun q => x q.1 q.2) = (x q s && (Window.mk t s).all (x p)) := by
  rw [untilCase, Expr.eval_all, List.all_append, all_eval_operandOver, Bool.and_comm]
  simp [Expr.eval]

lemma eval_sinceCase (p q : α) (t s : Nat) :
    (sinceCase p q t s).eval (fun q => x q.1 q.2)
      = (x q s && (Window.mk (s + 1) (t + 1)).all (x p)) := by
  rw [sinceCase, Expr.eval_all, List.all_append, all_eval_operandOver, Bool.and_comm]
  simp [Expr.eval]

/-- **Conditions are exact**: the condition of a node has the value that the node
has. -/
lemma eval_condition? {n : Node α} (tr : Trace) {t : Nat} {e : Expr (α × Nat)}
    (h : n.condition? tr.horizon.last t = some e) :
    e.eval (fun q => x q.1 q.2) = (n.map x).holds tr t := by
  cases n with
  | atom name => cases h
  | not p | and p q | or p q => cases h; simp [Expr.eval, map, holds]
  | next p =>
      cases h
      by_cases ht : t < tr.horizon.last <;> simp [Expr.eval, map, holds, ht]
  | globally I p => cases h; rw [Expr.eval_all, all_eval_operandOver, map, holds]
  | eventually I p => cases h; rw [Expr.eval_any, any_eval_operandOver, map, holds]
  | «until» I p q =>
      cases h
      rw [Expr.eval_any, List.any_map, map, holds, Window.any_eq_ticks]
      exact congrArg _ (funext (eval_untilCase x p q t))
  | since I p q =>
      cases h
      rw [Expr.eval_any, List.any_map, List.any_reverse, map, holds, Window.any_eq_ticks]
      exact congrArg _ (funext (eval_sinceCase x p q t))

end

/-- A node looks at its operands only, and not past the last tick. -/
lemma holds_congr {n : Node α} {tr : Trace} {x y : α → Nat → Bool} {t : Nat}
    (ht : t ≤ tr.horizon.last) (hxy : ∀ p ∈ n.operands, ∀ s ≤ tr.horizon.last, x p s = y p s) :
    (n.map x).holds tr t = (n.map y).holds tr t := by
  cases h : n.condition? tr.horizon.last t with
  | none =>
      obtain ⟨name, rfl⟩ := exists_atom_of_condition? h
      rfl
  | some e =>
      rw [← eval_condition? x tr h, ← eval_condition? y tr h]
      refine Expr.eval_congr e fun q hq => ?_
      have reach := mem_lits_condition? h ht hq
      exact hxy q.1 reach.1 q.2 reach.2

end Node

/-- Induction over the layers of a formula: what the operands of the outermost node have
in common passes on to the formula. -/
@[elab_as_elim]
lemma Formula.layerInd {P : Formula → Prop}
    (layer : ∀ n : Node Formula, (∀ f ∈ n.operands, P f) → P (.ofNode n)) (f : Formula) : P f := by
  have unary : ∀ {f}, P f → ∀ g ∈ [f], P g := List.forall_mem_singleton.mpr
  have binary : ∀ {f g}, P f → P g → ∀ h ∈ [f, g], P h :=
    fun hf hg => List.forall_mem_cons.mpr ⟨hf, unary hg⟩
  induction f with
  | atom name => exact layer (.atom name) (List.forall_mem_nil P)
  | not f ih => exact layer (.not f) (unary ih)
  | and f g ihf ihg => exact layer (.and f g) (binary ihf ihg)
  | or f g ihf ihg => exact layer (.or f g) (binary ihf ihg)
  | next f ih => exact layer (.next f) (unary ih)
  | globally I f ih => exact layer (.globally I f) (unary ih)
  | eventually I f ih => exact layer (.eventually I f) (unary ih)
  | «until» I f g ihf ihg => exact layer (.until I f g) (binary ihf ihg)
  | since I f g ihf ihg => exact layer (.since I f g) (binary ihf ihg)

/-- A formula is written as its outermost node is over the texts of the subformulas. -/
lemma Formula.text_ofNode (n : Node Formula) :
    (Formula.ofNode n).text = (n.map Formula.text).text := by
  cases n <;> rfl

/-- The meaning of a formula is that of its outermost node over the meanings of
the subformulas. -/
lemma Formula.holds_ofNode (tr : Trace) (n : Node Formula) (t : Nat) :
    (Formula.ofNode n).holds tr t = (n.map (Formula.holds tr)).holds tr t := by
  cases n <;> rfl

end BoundedTemporal
