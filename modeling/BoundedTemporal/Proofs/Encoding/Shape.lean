/-
What conditions look like.

A condition is a constant only where no operand can matter. In all other cases it is made of
literals, and these stand in it in a fixed order.

* `Interval.ticksAhead`, `Interval.ticksBehind`: the ticks of a window, picked from all ticks
  one after the other; `Interval.ticks_future`, `Interval.ticks_past`: they are what the ends
  of the window enclose;
* `Expr.Reduced`: expressions without constants, whose conjunctions and disjunctions have at
  least two operands;
* `Node.Granted`, `Node.Denied`: nodes that hold, or fail, at a tick whatever their operands
  do. `Node.condition?_cases`: their conditions are the constants, and all others are reduced;
* `Node.reads`: the operands in the order in which a node looks at them.
  `Node.lits_condition?`: the literals of a condition are these.
-/
import BoundedTemporal.Proofs.Formula.Layer
import Mathlib.Data.List.Intervals
import Mathlib.Data.List.Sort

namespace BoundedTemporal

/-! ### Windows -/

/-- A bound that admits a distance admits the shorter ones. -/
lemma Bound.Admits.of_le {b : Bound} {d d' : Nat} (h : b.Admits d) (le : d' ≤ d) :
    b.Admits d' := by
  cases b with
  | finite u => exact Nat.le_trans le h
  | infinite => exact trivial

/-- The ticks of a window are the ticks that lie in it, in order. -/
lemma Window.ticks_eq_filter (w : Window) {n : Nat} (h : w.stop ≤ n) :
    w.ticks = (List.range n).filter (· ∈ w) := by
  have sorted : w.ticks.Pairwise (· < ·) := List.pairwise_lt_range'
  refine sorted.eq_of_mem_iff (List.pairwise_lt_range.filter _) fun t => ?_
  rw [mem_ticks, List.mem_filter, List.mem_range, decide_eq_true_eq]
  exact ⟨fun ht => ⟨Nat.lt_of_lt_of_le ht.2 h, ht⟩, fun ht => ht.2⟩

namespace Interval

variable {I : Interval} {t last s : Nat}

/-- The ticks `s` up to the last one with `t + lower ≤ s ≤ t + upper`, in ascending order. -/
def ticksAhead (I : Interval) (t last : Nat) : List Nat :=
  (List.range (last + 1)).filter fun s => t + I.lower ≤ s ∧ I.upper.Admits (s - t)

/-- The ticks `s` with `t - upper ≤ s ≤ t - lower`, in descending order. -/
def ticksBehind (I : Interval) (t : Nat) : List Nat :=
  ((List.range (t + 1)).filter fun s => s + I.lower ≤ t ∧ I.upper.Admits (t - s)).reverse

lemma stop_future_le (I : Interval) (t last : Nat) : (I.future t last).stop ≤ last + 1 := by
  rcases I with ⟨l, u | _, h⟩ <;> simp only [future] <;> omega

lemma stop_past_le (I : Interval) (t : Nat) : (I.past t).stop ≤ t + 1 :=
  Nat.sub_le (t + 1) I.lower

lemma ticks_future (I : Interval) (t last : Nat) :
    (I.future t last).ticks = I.ticksAhead t last := by
  rw [Window.ticks_eq_filter _ (I.stop_future_le t last), ticksAhead]
  refine List.filter_congr fun s hs => decide_eq_decide.mpr ?_
  rw [mem_future, ← and_assoc]
  exact and_iff_left (Nat.lt_succ_iff.mp (List.mem_range.mp hs))

lemma ticks_past (I : Interval) (t : Nat) : (I.past t).ticks.reverse = I.ticksBehind t := by
  rw [Window.ticks_eq_filter _ (I.stop_past_le t), ticksBehind]
  exact congrArg _ (List.filter_congr fun s _ => decide_eq_decide.mpr mem_past)

lemma ticksAhead_eq_nil_iff :
    I.ticksAhead t last = [] ↔ ∀ s ≤ last, ¬ (t + I.lower ≤ s ∧ I.upper.Admits (s - t)) := by
  simp only [ticksAhead, List.filter_eq_nil_iff, List.mem_range, Nat.lt_succ_iff, decide_eq_true_eq]

lemma mem_ticksBehind :
    s ∈ I.ticksBehind t ↔ s + I.lower ≤ t ∧ I.upper.Admits (t - s) := by
  rw [← ticks_past, List.mem_reverse, Window.mem_ticks, mem_past]

/-- A past window is only empty if it lies before tick zero as a whole. -/
lemma ticksBehind_eq_nil_iff : I.ticksBehind t = [] ↔ t < I.lower := by
  rw [List.eq_nil_iff_forall_not_mem]
  constructor
  · intro empty
    by_contra reached
    have le : I.lower ≤ t := Nat.not_lt.mp reached
    -- the latest tick of the window
    refine empty (t - I.lower) (mem_ticksBehind.mpr ⟨by omega, ?_⟩)
    rw [Nat.sub_sub_self le]
    exact I.admits_lower
  · intro short s hs
    have := (mem_ticksBehind.mp hs).1
    omega

end Interval

/-! ### Reduced expressions -/

namespace Expr

variable {α β : Type} {e : Expr α} {es : List (Expr α)}

/-- Made of literals, without constants; conjunctions and disjunctions have at least two
operands. -/
inductive Reduced : Expr α → Prop
  | lit (x : α) : Reduced (lit x)
  | not (e : Expr α) (operand : Reduced e) : Reduced (not e)
  | and (es : List (Expr α)) (two : 2 ≤ es.length) (operands : ∀ e ∈ es, Reduced e) :
      Reduced (and es)
  | or (es : List (Expr α)) (two : 2 ≤ es.length) (operands : ∀ e ∈ es, Reduced e) :
      Reduced (or es)

lemma reduced_all (some : es ≠ []) (h : ∀ e ∈ es, Reduced e) : Reduced (all es) := by
  match es, h with
  | [e], h => exact h e (List.mem_singleton_self e)
  | e :: e' :: es, h => exact .and _ (by simp) h

lemma reduced_any (some : es ≠ []) (h : ∀ e ∈ es, Reduced e) : Reduced (any es) := by
  match es, h with
  | [e], h => exact h e (List.mem_singleton_self e)
  | e :: e' :: es, h => exact .or _ (by simp) h

/-- A conjunction of reduced expressions is reduced, unless there are none. -/
lemma all_cases {Empty : Prop} (empty : es = [] ↔ Empty) (h : ∀ e ∈ es, Reduced e) :
    (Empty ∧ all es = top) ∨ (¬ Empty ∧ Reduced (all es)) := by
  by_cases none : es = []
  · exact .inl ⟨empty.mp none, by rw [none]; rfl⟩
  · exact .inr ⟨mt empty.mpr none, reduced_all none h⟩

/-- A disjunction of reduced expressions is reduced, unless there are none. -/
lemma any_cases {Empty : Prop} (empty : es = [] ↔ Empty) (h : ∀ e ∈ es, Reduced e) :
    (Empty ∧ any es = bot) ∨ (¬ Empty ∧ Reduced (any es)) := by
  by_cases none : es = []
  · exact .inl ⟨empty.mp none, by rw [none]; rfl⟩
  · exact .inr ⟨mt empty.mpr none, reduced_any none h⟩

lemma Reduced.map (h : Reduced e) (f : α → β) : Reduced (e.map f) := by
  have operands : ∀ es : List (Expr α), (∀ e ∈ es, Reduced (e.map f)) →
      ∀ e ∈ mapAll f es, Reduced e := by
    intro es ih
    rw [mapAll_eq_map]
    exact List.forall_mem_map.mpr ih
  have length (es : List (Expr α)) : (mapAll f es).length = es.length := by
    rw [mapAll_eq_map, List.length_map]
  induction h with
  | lit x => exact .lit (f x)
  | not e _ ih => exact .not _ ih
  | and es two _ ih => exact .and _ (by rwa [length es]) (operands es ih)
  | or es two _ ih => exact .or _ (by rwa [length es]) (operands es ih)

end Expr

/-! ### Conditions -/

namespace Node

open BoundedTemporal.Expr (Reduced reduced_all reduced_any all_cases any_cases)

variable {α : Type} {n : Node α} {t last : Nat} {condition : Expr (α × Nat)}

/-- The node holds at tick `t` whatever its operand does: no tick lies in its window. -/
def Granted (last t : Nat) : Node α → Prop
  | .globally I _ => ∀ s ≤ last, ¬ (t + I.lower ≤ s ∧ I.upper.Admits (s - t))
  | _ => False

/-- The node fails at tick `t` whatever its operands do: there is no next tick, no tick lies
in its window, or its window lies before tick zero. -/
def Denied (last t : Nat) : Node α → Prop
  | .next _ => t = last
  | .eventually I _ | .until I _ _ => ∀ s ≤ last, ¬ (t + I.lower ≤ s ∧ I.upper.Admits (s - t))
  | .since I _ _ => t < I.lower
  | _ => False

/-- The operands and ticks that a node looks at, in order. For each tick of the window that
they look at, `until` and `since` look at the left operand from the one end to the other, and
then at the right operand. -/
def reads (last t : Nat) : Node α → List (α × Nat)
  | .atom _ => []
  | .not p => [(p, t)]
  | .and p q | .or p q => [(p, t), (q, t)]
  | .next p => if t < last then [(p, t + 1)] else []
  | .globally I p | .eventually I p => (I.ticksAhead t last).map (p, ·)
  | .until I p q =>
    (I.ticksAhead t last).flatMap fun s => (List.Ico t s).map (p, ·) ++ [(q, s)]
  | .since I p q =>
    (I.ticksBehind t).flatMap fun s => (List.Ico (s + 1) (t + 1)).map (p, ·) ++ [(q, s)]

lemma operandOver_future_eq_nil_iff {I : Interval} {p : α} :
    operandOver p (I.future t last) = []
      ↔ ∀ s ≤ last, ¬ (t + I.lower ≤ s ∧ I.upper.Admits (s - t)) := by
  rw [operandOver, List.map_eq_nil_iff, Interval.ticks_future, Interval.ticksAhead_eq_nil_iff]

lemma reduced_operandOver (p : α) (w : Window) : ∀ e ∈ operandOver p w, Reduced e :=
  List.forall_mem_map.mpr fun _ _ => .lit _

/-- The operand at the ticks of a window, and another one at a tick. -/
lemma reduced_case (p q : α) (w : Window) (s : Nat) :
    Reduced (.all (operandOver p w ++ [.lit (q, s)])) :=
  reduced_all (List.append_ne_nil_of_right_ne_nil _ (List.cons_ne_nil _ _))
    (List.forall_mem_append.mpr
      ⟨reduced_operandOver p w, List.forall_mem_singleton.mpr (.lit _)⟩)

lemma reduced_pair (p q : α) : ∀ e ∈ [Expr.lit (p, t), Expr.lit (q, t)], Reduced e :=
  List.forall_mem_cons.mpr ⟨.lit _, List.forall_mem_singleton.mpr (.lit _)⟩

/-- **Conditions are constants only where they have to be**, and contain no constants
otherwise. -/
lemma condition?_cases (h : n.condition? last t = some condition) (ht : t ≤ last) :
    (n.Granted last t ∧ ¬ n.Denied last t ∧ condition = .top)
      ∨ (¬ n.Granted last t ∧ n.Denied last t ∧ condition = .bot)
      ∨ (¬ n.Granted last t ∧ ¬ n.Denied last t ∧ condition.Reduced) := by
  cases n with
  | atom name => cases h
  | not p =>
      cases h
      exact .inr (.inr ⟨not_false, not_false, .not _ (.lit _)⟩)
  | and p q =>
      cases h
      exact .inr (.inr ⟨not_false, not_false, reduced_all (List.cons_ne_nil _ _) (reduced_pair p q)⟩)
  | or p q =>
      cases h
      exact .inr (.inr ⟨not_false, not_false, reduced_any (List.cons_ne_nil _ _) (reduced_pair p q)⟩)
  | next p =>
      cases h
      by_cases more : t < last
      · rw [if_pos more]
        exact .inr (.inr ⟨not_false, Nat.ne_of_lt more, .lit _⟩)
      · rw [if_neg more]
        exact .inr (.inl ⟨not_false, Nat.le_antisymm ht (Nat.not_lt.mp more), rfl⟩)
  | globally I p =>
      cases h
      exact (all_cases operandOver_future_eq_nil_iff (reduced_operandOver p _)).imp
        (fun h => ⟨h.1, not_false, h.2⟩) fun h => .inr ⟨h.1, not_false, h.2⟩
  | eventually I p =>
      cases h
      exact .inr ((any_cases operandOver_future_eq_nil_iff (reduced_operandOver p _)).imp
        (And.intro not_false) (And.intro not_false))
  | «until» I p q =>
      cases h
      have empty : (I.future t last).ticks.map (untilCase p q t) = []
          ↔ (Node.until I p q).Denied last t := by
        rw [List.map_eq_nil_iff, Interval.ticks_future, Interval.ticksAhead_eq_nil_iff, Denied]
      exact .inr ((any_cases empty (List.forall_mem_map.mpr fun s _ => reduced_case p q _ s)).imp
        (And.intro not_false) (And.intro not_false))
  | since I p q =>
      cases h
      have empty : (I.past t).ticks.reverse.map (sinceCase p q t) = []
          ↔ (Node.since I p q).Denied last t := by
        rw [List.map_eq_nil_iff, Interval.ticks_past, Interval.ticksBehind_eq_nil_iff, Denied]
      exact .inr ((any_cases empty (List.forall_mem_map.mpr fun s _ => reduced_case p q _ s)).imp
        (And.intro not_false) (And.intro not_false))

/-- **The literals of a condition**, left to right. -/
lemma lits_condition? (h : n.condition? last t = some condition) :
    condition.lits = n.reads last t := by
  cases n with
  | atom name => cases h
  | not p | and p q | or p q =>
      cases h
      simp [Expr.lits, reads]
  | next p =>
      cases h
      rw [reads]
      split <;> rfl
  | globally I p =>
      cases h
      rw [Expr.lits_all, lits_operandOver, Interval.ticks_future, reads]
  | eventually I p =>
      cases h
      rw [Expr.lits_any, lits_operandOver, Interval.ticks_future, reads]
  | «until» I p q =>
      cases h
      rw [Expr.lits_any, List.flatMap_map, Interval.ticks_future, reads]
      exact List.flatMap_congr fun s _ => lits_untilCase p q t s
  | since I p q =>
      cases h
      rw [Expr.lits_any, List.flatMap_map, Interval.ticks_past, reads]
      exact List.flatMap_congr fun s _ => lits_sinceCase p q t s

/-- A node looks at its operands only, at ticks that are not past the last one. -/
lemma of_mem_reads (ht : t ≤ last) {l : α × Nat} (h : l ∈ n.reads last t) :
    l.1 ∈ n.operands ∧ l.2 ≤ last := by
  cases hc : n.condition? last t with
  | none =>
      obtain ⟨name, rfl⟩ := exists_atom_of_condition? hc
      cases h
  | some condition =>
      rw [← lits_condition? hc] at h
      exact mem_lits_condition? hc ht h

/-- What `since` looks at lies in its window, or between the window and now. -/
lemma of_mem_reads_since {I : Interval} {p q : α} {l : α × Nat}
    (h : l ∈ (Node.since I p q).reads last t) : l.2 ≤ t ∧ I.upper.Admits (t - l.2) := by
  obtain ⟨s, hs, hl⟩ := List.mem_flatMap.mp h
  obtain ⟨le, admits⟩ := Interval.mem_ticksBehind.mp hs
  rcases List.mem_append.mp hl with hl | hl
  · obtain ⟨r, hr, rfl⟩ := List.mem_map.mp hl
    obtain ⟨after, before⟩ := List.Ico.mem.mp hr
    exact ⟨Nat.lt_succ_iff.mp before, admits.of_le (by omega)⟩
  · obtain rfl := List.mem_singleton.mp hl
    exact ⟨by omega, admits⟩

end Node

end BoundedTemporal
