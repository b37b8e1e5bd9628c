/-
Time read backward.

The operators of the past and those of the future say the same of a trace and of
its reversal, with the two ends of the trace exchanged: what lies at distance `d`
after tick `t` lies at distance `d` before tick `last - t`. `until` and `since`
answer each other; the other operators of the future have no counterpart and are
spelled out with `since`.

* `Trace.reverse`: the same ticks in the opposite order;
* `Interval.exists_past_reverse`, `Interval.exists_future_reverse`: the windows
  are exchanged, and so are their cuts at the two ends of the trace;
* `Formula.mirror`: the formula that reads a trace from the other end;
* `Formula.holds_mirror`: it says of the reversed trace what the formula says of
  the trace.
-/
import BoundedTemporal.Formula.Semantics
import Mathlib.Tactic.Lemma

namespace BoundedTemporal

/-! ### The reversed trace -/

namespace Trace

/-- The same ticks in the opposite order. -/
def reverse (tr : Trace) : Trace :=
  ⟨tr.horizon, tr.states.reverse⟩

/-- What holds at a tick of the reversed trace holds on the trace at the tick that is as
far from the other end. -/
lemma holds_reverse (tr : Trace) (a : Atom) {t : Nat} (ht : t ≤ tr.horizon.last) :
    tr.reverse.holds a t = tr.holds a (tr.horizon.last - t) := by
  have here : t < tr.reverse.horizon.size := Nat.lt_succ_of_le ht
  have there : tr.horizon.last - t < tr.horizon.size := Nat.lt_succ_of_le (Nat.sub_le _ t)
  have opposite : tr.horizon.size - 1 - t = tr.horizon.last - t := by
    rw [Horizon.size, Nat.add_sub_cancel]
  rw [holds_of_lt here, holds_of_lt there]
  simp only [reverse, Vector.getElem_reverse, opposite]

end Trace

/-! ### The reversed windows -/

section

variable {last s t : Nat} {p q : Nat → Prop}

/-- A statement about all ticks up to the last one can be made of the reflected
ticks. -/
lemma iff_of_reverse (h : ∀ s ≤ last, q (last - s) ↔ p s) (hs : s ≤ last) :
    q s ↔ p (last - s) := by
  rw [← h (last - s) (Nat.sub_le last s), Nat.sub_sub_self hs]

/-- The ticks from `t` to before `s` are reflected to those after `last - s` up to
`last - t`. -/
lemma forall_after_reverse (h : ∀ s ≤ last, q (last - s) ↔ p s) (hs : s ≤ last) :
    (∀ r, last - s < r → r ≤ last - t → q r) ↔ ∀ r, t ≤ r → r < s → p r := by
  constructor
  · intro hq r htr hrs
    exact (h r (by omega)).mp (hq (last - r) (by omega) (by omega))
  · intro hp r hsr hrt
    exact (iff_of_reverse h (by omega)).mpr (hp (last - r) (by omega) (by omega))

/-- The ticks after `s` up to `t` are reflected to those from `last - t` to before
`last - s`. -/
lemma forall_before_reverse (h : ∀ s ≤ last, q (last - s) ↔ p s) (ht : t ≤ last) :
    (∀ r, last - t ≤ r → r < last - s → q r) ↔ ∀ r, s < r → r ≤ t → p r := by
  constructor
  · intro hq r hsr hrt
    exact (h r (by omega)).mp (hq (last - r) (by omega) (by omega))
  · intro hp r htr hrs
    exact (iff_of_reverse h (by omega)).mpr (hp (last - r) (by omega) (by omega))

namespace Interval

variable {I : Interval}

/-- The past of a tick is the future of the tick that is as far from the other
end. -/
lemma mem_past_reverse (ht : t ≤ last) (hs : s ≤ last) :
    last - s ∈ I.past (last - t) ↔ s ∈ I.future t last := by
  have distance : last - t - (last - s) = s - t := by omega
  have lower : last - s + I.lower ≤ last - t ↔ t + I.lower ≤ s := by omega
  simp only [mem_past, mem_future, distance, lower, hs, and_true]

/-- What is found in the future window is found, reflected, in the past window. -/
lemma exists_past_reverse (h : ∀ s ≤ last, q (last - s) ↔ p s) (ht : t ≤ last) :
    (∃ r ∈ I.past (last - t), q r) ↔ ∃ s ∈ I.future t last, p s := by
  constructor
  · rintro ⟨r, hr, hq⟩
    have hle := Nat.le_trans (le_of_mem_past hr) (Nat.sub_le last t)
    refine ⟨last - r, ?_, (iff_of_reverse h hle).mp hq⟩
    rwa [← mem_past_reverse ht (Nat.sub_le last r), Nat.sub_sub_self hle]
  · rintro ⟨s, hs, hp⟩
    have hle := le_last_of_mem_future hs
    exact ⟨last - s, (mem_past_reverse ht hle).mpr hs, (h s hle).mpr hp⟩

/-- What is found in the past window is found, reflected, in the future window. -/
lemma exists_future_reverse (h : ∀ s ≤ last, q (last - s) ↔ p s) (ht : t ≤ last) :
    (∃ r ∈ I.future (last - t) last, q r) ↔ ∃ s ∈ I.past t, p s := by
  -- reflecting twice leads back
  have back : ∀ s ≤ last, p (last - s) ↔ q s := fun s hs => (iff_of_reverse h hs).symm
  rw [← exists_past_reverse back (Nat.sub_le last t), Nat.sub_sub_self ht]

end Interval

end

/-! ### The reversed formula -/

namespace Formula

variable {tr : Trace} {I : Interval} {f g : Formula} {t : Nat}

/-- A formula that always holds, made from another one. -/
def top (f : Formula) : Formula :=
  or f (not f)

/-- The formula that says of the reversed trace what `f` says of the trace. -/
def mirror : Formula → Formula
  | atom name => atom name
  | not f => not f.mirror
  | and f g => and f.mirror g.mirror
  | or f g => or f.mirror g.mirror
  | next f => since ⟨1, .finite 1, Nat.le_refl 1⟩ (top f.mirror) f.mirror
  | globally I f => not (since I (top f.mirror) (not f.mirror))
  | eventually I f => since I (top f.mirror) f.mirror
  | .until I f g => since I f.mirror g.mirror
  | since I f g => .until I f.mirror g.mirror

@[simp] lemma holds_top : (top f).holds tr t = true := by
  simp only [top, holds, Bool.or_not_self]

/-- With nothing demanded in between, `since` looks for a tick in the past window. -/
lemma holds_since_top :
    (since I (top f) g).holds tr t = true ↔ ∃ s ∈ I.past t, g.holds tr s = true := by
  simp only [holds_since, holds_top, implies_true, and_true]

/-- `X` looks into the window at distance one, which is empty at the last tick. -/
lemma holds_next : (next f).holds tr t = true ↔
    ∃ s ∈ Interval.future ⟨1, .finite 1, Nat.le_refl 1⟩ t tr.horizon.last,
      f.holds tr s = true := by
  simp only [holds, Interval.mem_future, Bound.admits_finite, Bool.and_eq_true, decide_eq_true_eq]
  constructor
  · rintro ⟨ht, hf⟩
    exact ⟨t + 1, ⟨Nat.le_refl _, by omega, ht⟩, hf⟩
  · rintro ⟨s, ⟨lower, upper, hs⟩, hf⟩
    obtain rfl : s = t + 1 := by omega
    exact ⟨hs, hf⟩

/-- **Time reversal**: at the reflected tick of the reversed trace, the reversed formula
holds exactly when the formula does. -/
lemma holds_mirror (tr : Trace) (f : Formula) (ht : t ≤ tr.horizon.last) :
    f.mirror.holds tr.reverse (tr.horizon.last - t) = f.holds tr t := by
  induction f generalizing t with
  | atom name =>
      rw [mirror, holds, holds, tr.holds_reverse name (Nat.sub_le _ t), Nat.sub_sub_self ht]
  | not f ih => rw [mirror, holds, holds, ih ht]
  | and f g ihf ihg => rw [mirror, holds, holds, ihf ht, ihg ht]
  | or f g ihf ihg => rw [mirror, holds, holds, ihf ht, ihg ht]
  | next f ih =>
      rw [Bool.eq_iff_iff, mirror, holds_since_top, holds_next]
      exact Interval.exists_past_reverse (fun s hs => by rw [ih hs]) ht
  | globally I f ih =>
      have violated : (since I (top f.mirror) (not f.mirror)).holds tr.reverse (tr.horizon.last - t)
          = true ↔ ∃ s ∈ I.future t tr.horizon.last, (not f).holds tr s = true := by
        rw [holds_since_top]
        exact Interval.exists_past_reverse (fun s hs => by rw [holds, holds, ih hs]) ht
      rw [Bool.eq_iff_iff, mirror, holds, Bool.not_eq_true', ← Bool.not_eq_true, violated,
        holds_globally]
      simp only [holds, not_exists, not_and, Bool.not_eq_true', Bool.not_eq_false]
  | eventually I f ih =>
      rw [Bool.eq_iff_iff, mirror, holds_since_top, holds_eventually]
      exact Interval.exists_past_reverse (fun s hs => by rw [ih hs]) ht
  | «until» I f g ihf ihg =>
      rw [Bool.eq_iff_iff, mirror, holds_since, holds_until]
      refine Interval.exists_past_reverse (fun s hs => ?_) ht
      rw [ihg hs]
      exact and_congr_right fun _ => forall_after_reverse (fun r hr => by rw [ihf hr]) hs
  | since I f g ihf ihg =>
      rw [Bool.eq_iff_iff, mirror, holds_until, holds_since]
      refine Interval.exists_future_reverse (fun s hs => ?_) ht
      rw [ihg hs]
      exact and_congr_right fun _ => forall_before_reverse (fun r hr => by rw [ihf hr]) ht

end Formula

end BoundedTemporal
