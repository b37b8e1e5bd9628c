/-
Temporal operators one tick at a time.

Whether an operator holds at a tick depends on its operands now, and on the same operator at the
neighbouring tick with an interval whose bounds are one less. The windows of the operators are
cut at the ends of the trace, and so are these steps: there is no tick after the last one, and
none before tick zero.

* `Interval.pred`: the interval as it is seen from the neighbouring tick.
  `Interval.mem_future_step`, `Interval.mem_past_step`: the window now and the window there;
* `Interval.orLater`, `Interval.andLater`: what is known now and what is left for later, as the
  interval weighs them;
* `Node.holds_globally_step` and its likes: one equation for each temporal operator;
* `Formula.holdsStepwise`: the meaning of formulas by these equations alone, and
  `Formula.holdsStepwise_eq`: it is the meaning by windows;
* `Arena.Unfolds`, `Arena.holds?_unfold`: the same for stored formulas.
-/
import BoundedTemporal.Proofs.Arena.History

namespace BoundedTemporal

/-! ### The interval at the neighbouring tick -/

/-- The bound less one; infinity stays. -/
def Bound.pred : Bound → Bound
  | finite u => finite (u - 1)
  | infinite => infinite

lemma Bound.Admits.pred {b : Bound} {d : Nat} (h : b.Admits d) : b.pred.Admits (d - 1) := by
  cases b with
  | finite u => exact Nat.sub_le_sub_right h 1
  | infinite => exact trivial

namespace Interval

variable {I : Interval} {t last s : Nat} {now later : Bool} {p : Nat → Bool}

/-- The distances in the interval as they are from the neighbouring tick: the bounds are one
less, but not less than zero. -/
def pred (I : Interval) : Interval :=
  ⟨I.lower - 1, I.upper.pred, I.admits_lower.pred⟩

/-- A tick of the future window is the present one, or lies in the window of the next tick. -/
lemma mem_future_step (ht : t ≤ last) : s ∈ I.future t last ↔
    (I.lower = 0 ∧ s = t) ∨ (I.upper.Admits 1 ∧ t < last ∧ s ∈ I.pred.future (t + 1) last) := by
  rcases I with ⟨l, u | _, h⟩ <;>
    simp only [mem_future, pred, Bound.pred, Bound.admits_finite, Bound.admits_infinite,
      true_and] at h ⊢ <;>
    omega

/-- A tick of the past window is the present one, or lies in the window of the tick before. -/
lemma mem_past_step : s ∈ I.past t ↔
    (I.lower = 0 ∧ s = t) ∨ (I.upper.Admits 1 ∧ 0 < t ∧ s ∈ I.pred.past (t - 1)) := by
  rcases I with ⟨l, u | _, h⟩ <;>
    simp only [mem_past, pred, Bound.pred, Bound.admits_finite, Bound.admits_infinite, and_true,
      true_and] at h ⊢ <;>
    omega

/-! ### Now and later -/

/-- Whether there is a witness now or later: an interval that starts later leaves it to later
ticks, and an interval that ends now leaves nothing to them. -/
def orLater (I : Interval) (now later : Bool) : Bool :=
  if 0 < I.lower then later else if I.upper.Admits 1 then now || later else now

/-- Whether a demand is met now and later: an interval that starts later demands nothing now,
and an interval that ends now demands nothing later. -/
def andLater (I : Interval) (now later : Bool) : Bool :=
  if 0 < I.lower then later else if I.upper.Admits 1 then now && later else now

lemma orLater_eq_true_iff : I.orLater now later = true ↔
    (I.lower = 0 ∧ now = true) ∨ (I.upper.Admits 1 ∧ later = true) := by
  unfold orLater
  by_cases start : 0 < I.lower
  · have admits : I.upper.Admits 1 := by
      rcases I with ⟨l, u | _, h⟩
      · exact Nat.le_trans start h
      · exact trivial
    simp [start, admits, Nat.ne_of_gt start]
  · by_cases admits : I.upper.Admits 1 <;> simp [admits, Nat.eq_zero_of_not_pos start]

lemma andLater_eq : I.andLater now later = !I.orLater (!now) (!later) := by
  unfold andLater orLater
  split_ifs <;> simp

/-- **A future window one tick at a time.** -/
lemma any_future_step (ht : t ≤ last) :
    (I.future t last).any p
      = I.orLater (p t) (decide (t < last) && (I.pred.future (t + 1) last).any p) := by
  rw [Bool.eq_iff_iff, orLater_eq_true_iff, Bool.and_eq_true, decide_eq_true_eq, Window.any_iff,
    Window.any_iff]
  simp only [mem_future_step ht, or_and_right, exists_or, and_assoc, exists_and_left,
    exists_eq_left]

/-- **A past window one tick at a time.** -/
lemma any_past_step :
    (I.past t).any p = I.orLater (p t) (decide (0 < t) && (I.pred.past (t - 1)).any p) := by
  rw [Bool.eq_iff_iff, orLater_eq_true_iff, Bool.and_eq_true, decide_eq_true_eq, Window.any_iff,
    Window.any_iff]
  -- the step applies to its own result, so it is taken once
  have step (s : Nat) : s ∈ I.past t ↔ _ := mem_past_step
  generalize I.past t = w at step ⊢
  simp only [step, or_and_right, exists_or, and_assoc, exists_and_left, exists_eq_left]

end Interval

/-! ### One node -/

namespace Window

variable {w : Window} {p q : Nat → Bool} {a b : Nat}

lemma all_eq_not_any : w.all p = !w.any fun s => !p s := by
  rw [all_eq_ticks, any_eq_ticks, List.not_any_eq_all_not]
  simp

/-- What is demanded now may be asked first. -/
lemma any_eq_and_any {now : Bool} (h : ∀ s ∈ w, p s = (now && q s)) :
    w.any p = (now && w.any q) := by
  rw [Bool.eq_iff_iff, Bool.and_eq_true, any_iff, any_iff]
  constructor
  · rintro ⟨s, hs, hp⟩
    rw [h s hs, Bool.and_eq_true] at hp
    exact ⟨hp.1, s, hs, hp.2⟩
  · rintro ⟨hnow, s, hs, hq⟩
    exact ⟨s, hs, by rw [h s hs, hnow, hq]; rfl⟩

lemma all_of_le (h : b ≤ a) : (Window.mk a b).all p = true :=
  all_iff.mpr fun _ hs => absurd hs.2 (Nat.not_lt.mpr (Nat.le_trans h hs.1))

/-- The first tick of a window, and the rest. -/
lemma all_first (h : a < b) : (Window.mk a b).all p = (p a && (Window.mk (a + 1) b).all p) := by
  rw [Bool.eq_iff_iff, Bool.and_eq_true, all_iff, all_iff]
  constructor
  · intro all
    exact ⟨all a ⟨Nat.le_refl a, h⟩, fun s hs => all s ⟨Nat.le_of_succ_le hs.1, hs.2⟩⟩
  · rintro ⟨first, rest⟩ s hs
    obtain rfl | later := Nat.eq_or_lt_of_le hs.1
    · exact first
    · exact rest s ⟨later, hs.2⟩

/-- The last tick of a window, and the rest. -/
lemma all_last (h : a ≤ b) : (Window.mk a (b + 1)).all p = (p b && (Window.mk a b).all p) := by
  rw [Bool.eq_iff_iff, Bool.and_eq_true, all_iff, all_iff]
  constructor
  · intro all
    exact ⟨all b ⟨h, Nat.lt_succ_self b⟩, fun s hs => all s ⟨hs.1, Nat.lt_succ_of_lt hs.2⟩⟩
  · rintro ⟨last, rest⟩ s hs
    obtain rfl | before := Nat.eq_or_lt_of_le (Nat.le_of_lt_succ hs.2)
    · exact last
    · exact rest s ⟨hs.1, before⟩

end Window

namespace Node

variable {tr : Trace} {I : Interval} {p q : Nat → Bool} {t : Nat}

lemma holds_eventually_step (ht : t ≤ tr.horizon.last) :
    (Node.eventually I p).holds tr t = I.orLater (p t)
      (decide (t < tr.horizon.last) && (Node.eventually I.pred p).holds tr (t + 1)) :=
  Interval.any_future_step ht

/-- `globally` is the dual of `eventually`, and takes its step from there. -/
lemma holds_globally_step (ht : t ≤ tr.horizon.last) :
    (Node.globally I p).holds tr t = I.andLater (p t)
      (decide (t = tr.horizon.last) || (Node.globally I.pred p).holds tr (t + 1)) := by
  have last : decide (t = tr.horizon.last) = !decide (t < tr.horizon.last) := by
    rw [← decide_not, decide_eq_decide]
    omega
  rw [holds, holds, Window.all_eq_not_any, Window.all_eq_not_any, Interval.any_future_step ht,
    Interval.andLater_eq, last, ← Bool.not_and, Bool.not_not]

lemma holds_until_step (ht : t ≤ tr.horizon.last) :
    (Node.until I p q).holds tr t = I.orLater (q t)
      (p t && (decide (t < tr.horizon.last) && (Node.until I.pred p q).holds tr (t + 1))) := by
  -- at a later tick, what is demanded in between starts now
  have later : (I.pred.future (t + 1) tr.horizon.last).any
        (fun s => q s && (Window.mk t s).all p)
      = (p t && (Node.until I.pred p q).holds tr (t + 1)) := by
    refine Window.any_eq_and_any fun s hs => ?_
    have after : t < s := Nat.le_trans (Nat.le_add_right _ _) (Interval.mem_future.mp hs).1
    rw [Window.all_first after, Bool.and_left_comm]
  rw [holds, Interval.any_future_step ht, later, Window.all_of_le (Nat.le_refl t), Bool.and_true,
    Bool.and_left_comm]

lemma holds_since_step (tr : Trace) :
    (Node.since I p q).holds tr t = I.orLater (q t)
      (p t && (decide (0 < t) && (Node.since I.pred p q).holds tr (t - 1))) := by
  -- at an earlier tick, what is demanded since then ends now
  have earlier : (decide (0 < t) && (I.pred.past (t - 1)).any
        fun s => q s && (Window.mk (s + 1) (t + 1)).all p)
      = (p t && (decide (0 < t) && (Node.since I.pred p q).holds tr (t - 1))) := by
    cases t with
    | zero => simp
    | succ t =>
        have before : (I.pred.past t).any (fun s => q s && (Window.mk (s + 1) (t + 1 + 1)).all p)
            = (p (t + 1) && (Node.since I.pred p q).holds tr t) := by
          refine Window.any_eq_and_any fun s hs => ?_
          rw [Window.all_last (Nat.succ_le_succ (Interval.le_of_mem_past hs)), Bool.and_left_comm]
        simp only [Nat.add_sub_cancel, before, Bool.and_left_comm]
  rw [holds, Interval.any_past_step, earlier, Window.all_of_le (Nat.le_refl _), Bool.and_true]

end Node

/-! ### Whole formulas -/

/-- What is asked of a neighbouring tick if there is one. -/
lemma ite_false_eq_and {c : Prop} [Decidable c] {x y : Bool} (h : c → x = y) :
    (if c then x else false) = (decide c && y) := by
  by_cases hc : c <;> simp [hc, h]

namespace Formula

variable {tr : Trace} {f : Formula} {t : Nat}

/-- The number of connectives and propositions. -/
def size : Formula → Nat
  | atom _ => 1
  | not f | next f | globally _ f | eventually _ f => f.size + 1
  | and f g | or f g | .until _ f g | since _ f g => f.size + g.size + 1

/-- The number of ticks that the outermost operator still has in front of it. -/
def remaining (last : Nat) : Formula → Nat → Nat
  | since _ _ _, t => t
  | _, t => last - t

/-- The meaning of formulas by recursion over the ticks: every temporal operator asks its
operands now, and itself at the neighbouring tick if there is one. -/
def holdsStepwise (tr : Trace) : Formula → Nat → Bool
  | atom name, t => tr.holds name t
  | not f, t => !f.holdsStepwise tr t
  | and f g, t => f.holdsStepwise tr t && g.holdsStepwise tr t
  | or f g, t => f.holdsStepwise tr t || g.holdsStepwise tr t
  | next f, t => if t < tr.horizon.last then f.holdsStepwise tr (t + 1) else false
  | globally I f, t => I.andLater (f.holdsStepwise tr t)
      (if t < tr.horizon.last then (globally I.pred f).holdsStepwise tr (t + 1) else true)
  | eventually I f, t => I.orLater (f.holdsStepwise tr t)
      (if t < tr.horizon.last then (eventually I.pred f).holdsStepwise tr (t + 1) else false)
  | .until I f g, t => I.orLater (g.holdsStepwise tr t) (f.holdsStepwise tr t &&
      (if t < tr.horizon.last then (Formula.until I.pred f g).holdsStepwise tr (t + 1) else false))
  | since I f g, t => I.orLater (g.holdsStepwise tr t) (f.holdsStepwise tr t &&
      (if 0 < t then (since I.pred f g).holdsStepwise tr (t - 1) else false))
termination_by f t => (f.size, f.remaining tr.horizon.last t)
decreasing_by
  all_goals simp only [Prod.lex_def, size, remaining, true_and]
  all_goals omega

/-- **The meaning by windows is the meaning by recursion over the ticks.** -/
lemma holdsStepwise_eq (ht : t ≤ tr.horizon.last) : f.holdsStepwise tr t = f.holds tr t := by
  fun_induction holdsStepwise tr f t with
  | case1 name t => rfl
  | case2 f t ih => rw [holds, ih ht]
  | case3 f g t ihf ihg | case4 f g t ihf ihg => rw [holds, ihf ht, ihg ht]
  | case5 f t more ih => rw [holds, ih more, decide_eq_true more, Bool.true_and]
  | case6 f t more => rw [holds, decide_eq_false more, Bool.false_and]
  | case7 I f t ihf ih =>
      have later : (if t < tr.horizon.last then (globally I.pred f).holdsStepwise tr (t + 1)
          else true) = (decide (t = tr.horizon.last) || (globally I.pred f).holds tr (t + 1)) := by
        by_cases more : t < tr.horizon.last
        · simp [more, ih more more, Nat.ne_of_lt more]
        · simp [Nat.le_antisymm ht (Nat.not_lt.mp more)]
      rw [ihf ht, later]
      exact (Node.holds_globally_step ht).symm
  | case8 I f t ihf ih =>
      rw [ihf ht, ite_false_eq_and fun more => ih more more]
      exact (Node.holds_eventually_step ht).symm
  | case9 I f g t ihg ihf ih =>
      rw [ihf ht, ihg ht, ite_false_eq_and fun more => ih more more]
      exact (Node.holds_until_step ht).symm
  | case10 I f g t ihg ihf ih =>
      rw [ihf ht, ihg ht, ite_false_eq_and fun more => ih more (Nat.le_trans (Nat.sub_le t 1) ht)]
      exact (Node.holds_since_step tr).symm

end Formula

/-! ### Stored formulas -/

namespace Arena

/-- The equations of the stored temporal operators at a tick of a trace. Each one relates a node
to the node with the interval of the neighbouring tick, over the same operands. -/
structure Unfolds (A : Arena) (s : Trace) (t : Nat) : Prop where
  /-- The values below are those of the nodes. -/
  stored : ∀ {i n}, A.node? i = some n → ∀ p ∈ i :: n.operands, ∀ r,
    A.holds? p s r = some (A.value s p r)
  «until» : ∀ {I p q i j}, A.node? i = some (.until I p q) → A.node? j = some (.until I.pred p q) →
    A.value s i t = I.orLater (A.value s q t)
      (A.value s p t && (decide (t < s.horizon.last) && A.value s j (t + 1)))
  since : ∀ {I p q i j}, A.node? i = some (.since I p q) → A.node? j = some (.since I.pred p q) →
    A.value s i t = I.orLater (A.value s q t)
      (A.value s p t && (decide (0 < t) && A.value s j (t - 1)))
  eventually : ∀ {I p i j},
    A.node? i = some (.eventually I p) → A.node? j = some (.eventually I.pred p) →
    A.value s i t = I.orLater (A.value s p t)
      (decide (t < s.horizon.last) && A.value s j (t + 1))
  globally : ∀ {I p i j},
    A.node? i = some (.globally I p) → A.node? j = some (.globally I.pred p) →
    A.value s i t = I.andLater (A.value s p t)
      (decide (t = s.horizon.last) || A.value s j (t + 1))

variable {A : Arena} {s : Trace} {t : Nat}

lemma WellFormed.unfolds (wf : A.WellFormed) (ht : t ≤ s.horizon.last) : A.Unfolds s t where
  stored {i n} hi p hp r := by
    have lt : p < A.size := by
      rcases List.mem_cons.mp hp with rfl | operand
      · exact lt_size_of_node? hi
      · exact Nat.lt_trans (wf.operand_lt hi p operand) (lt_size_of_node? hi)
    exact wf.holds?_eq_value lt s r
  «until» hi hj := by
    rw [wf.value_eq hi, wf.value_eq hj]
    exact Node.holds_until_step ht
  since hi hj := by
    rw [wf.value_eq hi, wf.value_eq hj]
    exact Node.holds_since_step s
  eventually hi hj := by
    rw [wf.value_eq hi, wf.value_eq hj]
    exact Node.holds_eventually_step ht
  globally hi hj := by
    rw [wf.value_eq hi, wf.value_eq hj]
    exact Node.holds_globally_step ht

/-- **Temporal operators unfold one tick at a time**: in every arena that was built, the value of
a temporal operator at a tick of a trace is made of its operands now and of the operator with the
interval of the neighbouring tick there; and a formula holds by its windows exactly when it holds
by recursion with these equations. -/
theorem holds?_unfold (built : A.Built) (ht : t ≤ s.horizon.last) :
    A.Unfolds s t
      ∧ ∀ {id f}, A.formula? id = some f → A.holds? id s t = some (f.holdsStepwise s t) := by
  refine ⟨built.wellFormed.unfolds ht, fun {id f} hf => ?_⟩
  rw [holds?_of_formula? hf, Formula.holdsStepwise_eq ht]

/-- The window of the first `until` is cut: only the step to tick 1 is left of it there. -/
theorem holds?_unfold_until :
    let A := build ∅ [.add (.atom "a"), .add (.atom "b"),
      .add (.until ⟨1, .finite 3, by decide⟩ 0 1), .add (.until ⟨0, .finite 2, by decide⟩ 0 1)]
    let s := Trace.ofBits ⟨1⟩ ["a", "b"] 9
    A.holds? 2 s 0 = some (A.value s 0 0 && A.value s 3 1)
      ∧ A.value s 0 0 = true ∧ A.value s 3 1 = true := by
  intro A s
  have unfolds : A.Unfolds s 0 := (holds?_unfold ⟨_, rfl⟩ (Nat.zero_le 1)).1
  have step : A.value s 2 0 = (A.value s 0 0 && A.value s 3 1) :=
    unfolds.until (i := 2) (j := 3) rfl rfl
  refine ⟨?_, by decide, by decide⟩
  rw [unfolds.stored (i := 2) rfl 2 (by decide), step]

end Arena

end BoundedTemporal
