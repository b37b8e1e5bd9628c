/-
Windows within windows.

What is looked for in a window of a window is looked for in one window, whose interval is the sum
of the two. Both windows are cut at the end of the trace, and either may be empty; a tick that is
found past the first cut is past the second one as well, so nothing is lost between them.

* `I + J`: the sums of a distance in `I` and a distance in `J` (`Interval.mem_add`);
* `Interval.mem_future_add`: its future window holds what lies in some window of the other one;
* `Interval.any_future_add`, `Interval.all_future_add`: the same as tests over the windows;
* `Arena.NextChain`: `next` over `next`, any number of times, which looks at one distance
  (`Arena.NextChain.value_eq`);
* `Arena.Collapses`, `Arena.holds?_nested`: nested operators of stored formulas as single ones.
-/
import BoundedTemporal.Proofs.Formula.Monotone

namespace BoundedTemporal

/-! ### Sums of intervals -/

instance : Add Bound where
  add
    | .finite u, .finite v => .finite (u + v)
    | _, _ => .infinite

lemma Bound.Admits.add {b c : Bound} {d e : Nat} (hd : b.Admits d) (he : c.Admits e) :
    (b + c).Admits (d + e) := by
  rcases b with u | _ <;> rcases c with v | _
  · exact Nat.add_le_add hd he
  all_goals exact trivial

namespace Interval

variable {I J : Interval} {t last s d k : Nat} {p : Nat → Bool}

instance : Add Interval where
  add I J := ⟨I.lower + J.lower, I.upper + J.upper, I.admits_lower.add J.admits_lower⟩

/-- **A distance in the sum** is made of a distance in each interval. -/
lemma mem_add : d ∈ I + J ↔ ∃ e ∈ I, e ≤ d ∧ d - e ∈ J := by
  constructor
  · rcases I with ⟨l, b, hl⟩
    rcases J with ⟨m, v | _, hm⟩
    · rintro ⟨lower : l + m ≤ d, upper⟩
      have hm : m ≤ v := hm
      have short : m ≤ d - max l (d - v) := by omega
      have long : d - max l (d - v) ≤ v := by omega
      -- the first part is as short as the second one allows
      refine ⟨max l (d - v), ⟨Nat.le_max_left _ _, ?_⟩, by omega, short, long⟩
      cases b with
      | infinite => exact trivial
      | finite u =>
          have upper : d ≤ u + v := upper
          exact Nat.max_le.mpr ⟨hl, by omega⟩
    · rintro ⟨lower : l + m ≤ d, -⟩
      exact ⟨l, ⟨Nat.le_refl l, hl⟩, by omega, Nat.le_sub_of_add_le' lower, trivial⟩
  · rintro ⟨e, he, hle, hd⟩
    rw [← Nat.add_sub_cancel' hle]
    exact ⟨Nat.add_le_add he.1 hd.1, he.2.add hd.2⟩

/-- What lies in the window of the sum lies in a window of a tick of the window. -/
lemma mem_future_add :
    s ∈ (I + J).future t last ↔ ∃ r ∈ I.future t last, s ∈ J.future r last := by
  simp only [mem_future_iff_mem, mem_add]
  constructor
  · rintro ⟨hts, ⟨e, he, hle, hd⟩, hs⟩
    have distance : s - (t + e) = s - t - e := (Nat.sub_sub s t e).symm
    have before : t + e ≤ s := by omega
    refine ⟨t + e, ⟨Nat.le_add_right t e, ?_, Nat.le_trans before hs⟩, before, ?_, hs⟩
    · rwa [Nat.add_sub_cancel_left]
    · rwa [distance]
  · rintro ⟨r, ⟨htr, hr, -⟩, hrs, hd, hs⟩
    have distance : s - t - (r - t) = s - r := by omega
    exact ⟨Nat.le_trans htr hrs, ⟨r - t, hr, Nat.sub_le_sub_right hrs t, by rwa [distance]⟩, hs⟩

/-- Looking for a tick in the windows of a window. -/
lemma any_future_add :
    (I.future t last).any (fun r => (J.future r last).any p) = ((I + J).future t last).any p := by
  rw [Bool.eq_iff_iff, Window.any_iff, Window.any_iff]
  simp only [Window.any_iff, mem_future_add]
  constructor
  · rintro ⟨r, hr, s, hs, hp⟩
    exact ⟨s, ⟨r, hr, hs⟩, hp⟩
  · rintro ⟨s, ⟨r, hr, hs⟩, hp⟩
    exact ⟨r, hr, s, hs, hp⟩

/-- Asking for all ticks in the windows of a window. -/
lemma all_future_add :
    (I.future t last).all (fun r => (J.future r last).all p) = ((I + J).future t last).all p := by
  rw [Bool.eq_iff_iff, Window.all_iff, Window.all_iff]
  simp only [Window.all_iff, mem_future_add]
  constructor
  · rintro all s ⟨r, hr, hs⟩
    exact all r hr s hs
  · intro all r hr s hs
    exact all s ⟨r, hr, hs⟩

/-- The interval of one distance. -/
def exactly (k : Nat) : Interval :=
  ⟨k, .finite k, Nat.le_refl k⟩

/-- There is at most one tick at a distance. -/
lemma any_future_exactly :
    ((exactly k).future t last).any p = (decide (t + k ≤ last) && p (t + k)) := by
  rw [Bool.eq_iff_iff, Window.any_iff, Bool.and_eq_true, decide_eq_true_eq]
  simp only [mem_future, exactly, Bound.admits_finite]
  constructor
  · rintro ⟨s, ⟨lower, upper, hs⟩, hp⟩
    obtain rfl : s = t + k := by omega
    exact ⟨hs, hp⟩
  · rintro ⟨hs, hp⟩
    exact ⟨t + k, ⟨Nat.le_refl _, by omega, hs⟩, hp⟩

end Interval

/-! ### Stored formulas -/

namespace Arena

variable {A : Arena} {s : Trace} {t : Nat}

/-- The node `i` is `k` times `next` over the node `p`. -/
inductive NextChain (A : Arena) (p : NodeId) : Nat → NodeId → Prop
  | refl : NextChain A p 0 p
  | next {k : Nat} {i j : NodeId} :
      A.node? i = some (.next j) → NextChain A p k j → NextChain A p (k + 1) i

/-- Each `next` looks one tick ahead, and there is no tick after the last one. -/
lemma NextChain.value_eq {p i : NodeId} {k : Nat} (chain : A.NextChain p k i) (wf : A.WellFormed)
    (ht : t ≤ s.horizon.last) :
    A.value s i t = (decide (t + k ≤ s.horizon.last) && A.value s p (t + k)) := by
  induction chain generalizing t with
  | refl => rw [Nat.add_zero, decide_eq_true ht, Bool.true_and]
  | @next k i j hi _ ih =>
      rw [wf.value_eq hi, Node.map, Node.holds]
      by_cases more : t < s.horizon.last
      · rw [decide_eq_true more, Bool.true_and, ih more, Nat.add_right_comm t 1 k]
        rfl
      · have past : ¬ t + (k + 1) ≤ s.horizon.last := by omega
        rw [decide_eq_false more, decide_eq_false past, Bool.false_and, Bool.false_and]

lemma NextChain.lt_size {p i : NodeId} {k : Nat} (chain : A.NextChain p k i)
    (stored : p < A.size) : i < A.size := by
  cases chain with
  | refl => exact stored
  | next hi _ => exact lt_size_of_node? hi

/-- Both formulas are stored, and have the same truth value at a tick of a trace. -/
def Agree (A : Arena) (s : Trace) (t : Nat) (i k : NodeId) : Prop :=
  ∃ b, A.holds? i s t = some b ∧ A.holds? k s t = some b

lemma WellFormed.agree (wf : A.WellFormed) {i k : NodeId} (hi : i < A.size) (hk : k < A.size)
    (values : A.value s i t = A.value s k t) : A.Agree s t i k :=
  ⟨A.value s k t, values ▸ wf.holds?_eq_value hi s t, wf.holds?_eq_value hk s t⟩

/-- What nested operators of stored formulas come to at a tick of a trace: an operator within the
same operator is one with the sum of the intervals, and `n` times `next` looks at distance `n`. -/
structure Collapses (A : Arena) (s : Trace) (t : Nat) : Prop where
  eventually : ∀ {I J p i j k}, A.node? i = some (.eventually I j) →
    A.node? j = some (.eventually J p) → A.node? k = some (.eventually (I + J) p) →
    A.Agree s t i k
  globally : ∀ {I J p i j k}, A.node? i = some (.globally I j) →
    A.node? j = some (.globally J p) → A.node? k = some (.globally (I + J) p) →
    A.Agree s t i k
  next : ∀ {n p i k}, A.NextChain p n i → A.node? k = some (.eventually (.exactly n) p) →
    A.Agree s t i k

/-- **Nested windows add up**: in every arena that was built, `F` within `F` and `G` within `G`
hold at a tick of a trace exactly when one `F` or one `G` with the sum of the intervals does, and
so does `next` over `next` when the operand holds at the distance of the last one. The end of the
trace may cut the outer windows, the inner ones, or all of them. -/
theorem holds?_nested (built : A.Built) (ht : t ≤ s.horizon.last) : A.Collapses s t := by
  have wf := built.wellFormed
  refine ⟨fun {I J p i j k} hi hj hk => ?_, fun {I J p i j k} hi hj hk => ?_,
    fun {n p i k} chain hk => ?_⟩
  · refine wf.agree (lt_size_of_node? hi) (lt_size_of_node? hk) ?_
    have inner : A.value s j = fun r => (J.future r s.horizon.last).any (A.value s p) :=
      funext (wf.value_eq hj s)
    rw [wf.value_eq hi, wf.value_eq hk, Node.map, Node.map, Node.holds, Node.holds, inner]
    exact Interval.any_future_add
  · refine wf.agree (lt_size_of_node? hi) (lt_size_of_node? hk) ?_
    have inner : A.value s j = fun r => (J.future r s.horizon.last).all (A.value s p) :=
      funext (wf.value_eq hj s)
    rw [wf.value_eq hi, wf.value_eq hk, Node.map, Node.map, Node.holds, Node.holds, inner]
    exact Interval.all_future_add
  · have operand : p < A.size :=
      Nat.lt_trans (wf.operand_lt hk p (List.mem_singleton_self p)) (lt_size_of_node? hk)
    refine wf.agree (chain.lt_size operand) (lt_size_of_node? hk) ?_
    rw [chain.value_eq wf ht, wf.value_eq hk, Node.map, Node.holds, Interval.any_future_exactly]

/-- At tick 1 of a trace that ends at tick 3, the window of the outer `F` is cut, so are the
windows of the inner one, and no tick is left for three times `next`. -/
theorem holds?_nested_cut :
    let A := build ∅ [.add (.atom "a"),
      .add (.eventually (.unbounded 1) 0), .add (.eventually ⟨1, .finite 4, by decide⟩ 1),
      .add (.eventually (.unbounded 2) 0),
      .add (.next 0), .add (.next 4), .add (.next 5), .add (.eventually (.exactly 3) 0)]
    let s := Trace.ofBits ⟨3⟩ ["a"] 8
    (∃ b, A.holds? 2 s 1 = some b ∧ A.holds? 3 s 1 = some b)
      ∧ (∃ b, A.holds? 6 s 1 = some b ∧ A.holds? 7 s 1 = some b)
      ∧ A.holds? 3 s 1 = some true ∧ A.holds? 7 s 1 = some false := by
  intro A s
  have collapses : A.Collapses s 1 := holds?_nested ⟨_, rfl⟩ (by decide)
  have chain : A.NextChain 0 3 6 := .next rfl (.next rfl (.next rfl .refl))
  exact ⟨collapses.eventually (j := 1) rfl rfl rfl, collapses.next chain rfl, by decide, by decide⟩

end Arena

end BoundedTemporal
