/-
Intervals and windows in exact arithmetic.

Bounds are read from signed numbers, and the ends of a window are found in machine words. What
comes out is what the integers say: every pair of ticks in order is read and nothing else, and no
sum, difference or cut is off, however near to the largest tick or to zero.

* `Interval.exists_ofInts_iff`: which numbers are read as an interval;
* `Interval.ahead`, `Interval.behind`: the integers between two bounds after a tick, up to the
  last one, and those before a tick, from zero on;
* `Delimits`: the ends of a set of integers, if there is anything in it;
* `Interval.Exact`, `Interval.ofInts_exact`: the windows of the intervals that are read.
-/
import BoundedTemporal.Proofs.Time.Word
import Mathlib.Data.Set.Operations

namespace BoundedTemporal

namespace Interval

variable {I : Interval} {lower : Int} {upper : Option Int} {e : Error} {t last s : Nat}

/-! ### Reading -/

lemma lower_le_of_finite? {u : Nat} (h : I.upper.finite? = some u) : I.lower ≤ u := by
  rcases I with ⟨l, v | _, le⟩ <;> cases h
  exact le

/-- **Which numbers are read**: a tick, and another one that is not below it or nothing. -/
lemma exists_ofInts_iff : (∃ I, ofInts lower upper = .ok I) ↔
    0 ≤ lower ∧ lower ≤ largestTick ∧ ∀ u ∈ upper, lower ≤ u ∧ u ≤ largestTick := by
  simp only [ofInts_eq_ok_iff]
  constructor
  · rintro ⟨I, rfl, rfl, fits⟩
    refine ⟨Int.natCast_nonneg _, Int.ofNat_le.mpr fits.lower, fun u hu => ?_⟩
    obtain ⟨v, hv, rfl⟩ := Option.map_eq_some_iff.mp hu
    exact ⟨Int.ofNat_le.mpr (lower_le_of_finite? hv), Int.ofNat_le.mpr (fits.upper v hv)⟩
  · rintro ⟨nonneg, le, h⟩
    have hl : lower = lower.toNat := (Int.toNat_of_nonneg nonneg).symm
    have fits : lower.toNat ≤ largestTick := by omega
    cases upper with
    | none => exact ⟨unbounded lower.toNat, hl, rfl, fits, by rintro u ⟨⟩⟩
    | some u =>
        obtain ⟨hlu, hu⟩ := h u rfl
        have hu' : u = u.toNat := (Int.toNat_of_nonneg (Int.le_trans nonneg hlu)).symm
        refine ⟨⟨lower.toNat, .finite u.toNat, Int.toNat_le_toNat hlu⟩, hl, congrArg some hu', fits, ?_⟩
        rintro v ⟨⟩
        omega

/-- Numbers that are not read are a fault of the formula. -/
lemma kind_of_ofInts_eq_error (h : ofInts lower upper = .error e) : e.kind = .invalidFormula := by
  have bound {value : Int} {e : Error} (h : tickOfInt value = .error e) :
      e.kind = .invalidFormula := by
    unfold tickOfInt at h
    split_ifs at h <;> cases h <;> rfl
  unfold ofInts at h
  cases hl : tickOfInt lower with
  | error e' =>
      rw [hl] at h
      cases h
      exact bound hl
  | ok l =>
      rw [hl] at h
      cases upper with
      | none => cases h
      | some u =>
          cases hu : tickOfInt u with
          | error e' =>
              simp only [bind, Except.bind, hu] at h
              cases h
              exact bound hu
          | ok v =>
              simp only [bind, Except.bind, hu, ofTicks] at h
              split_ifs at h
              cases h
              rfl

end Interval

/-! ### Windows -/

/-- The first and the last element of a set of integers without gaps, or nothing if the set is
empty. -/
def Delimits (ends : Option (Nat × Nat)) (S : Set Int) : Prop :=
  (ends.isSome ↔ S.Nonempty) ∧ ∀ lo hi, ends = some (lo, hi) → ∀ s, s ∈ S ↔ (lo : Int) ≤ s ∧ s ≤ hi

/-- Whether a tick lies between two ends, if there are any. -/
def LiesIn (s : Nat) (ends : Option (Nat × Nat)) : Prop :=
  ∃ lo hi, ends = some (lo, hi) ∧ lo ≤ s ∧ s ≤ hi

namespace Window

variable {w : Window} {s lo hi : Nat}

lemma bounds?_eq_some_iff :
    w.bounds? = some (lo, hi) ↔ w.start = lo ∧ w.stop = hi + 1 ∧ lo ≤ hi := by
  unfold bounds?
  split_ifs <;> simp only [Option.some.injEq, Prod.mk.injEq, false_iff] <;> omega

lemma isSome_bounds?_iff : w.bounds?.isSome ↔ w.start < w.stop := by
  unfold bounds?
  split_ifs with h <;> simp [h]

/-- The ends of a window are those of its ticks. -/
lemma delimits_bounds? {S : Set Int} (h : ∀ s, s ∈ S ↔ (w.start : Int) ≤ s ∧ s < w.stop) :
    Delimits w.bounds? S := by
  constructor
  · rw [isSome_bounds?_iff]
    constructor
    · exact fun lt => ⟨w.start, (h _).mpr ⟨Int.le_refl _, Int.ofNat_lt.mpr lt⟩⟩
    · rintro ⟨s, hs⟩
      have := (h s).mp hs
      omega
  · intro lo hi ends s
    obtain ⟨start, stop, -⟩ := bounds?_eq_some_iff.mp ends
    rw [h, start, stop]
    omega

lemma liesIn_bounds?_iff : LiesIn s w.bounds? ↔ s ∈ w := by
  simp only [LiesIn, bounds?_eq_some_iff, mem_def]
  constructor
  · rintro ⟨lo, hi, ⟨rfl, stop, -⟩, hlo, hhi⟩
    exact ⟨hlo, by omega⟩
  · rintro ⟨start, stop⟩
    exact ⟨w.start, w.stop - 1, ⟨rfl, by omega, by omega⟩, start, by omega⟩

end Window

namespace Interval

variable {I : Interval} {lower : Int} {upper : Option Int} {t last s : Nat}

/-- The integers from `t + lower` to `t + upper` that are at most `last`. -/
def ahead (lower : Int) (upper : Option Int) (t last : Int) : Set Int :=
  {s | t + lower ≤ s ∧ (∀ u ∈ upper, s ≤ t + u) ∧ s ≤ last}

/-- The integers from `t - upper` to `t - lower` that are at least zero. -/
def behind (lower : Int) (upper : Option Int) (t : Int) : Set Int :=
  {s | 0 ≤ s ∧ (∀ u ∈ upper, t - u ≤ s) ∧ s ≤ t - lower}

lemma mem_ahead {s t last : Int} :
    s ∈ ahead lower upper t last ↔ t + lower ≤ s ∧ (∀ u ∈ upper, s ≤ t + u) ∧ s ≤ last :=
  Iff.rfl

lemma mem_behind {s t : Int} :
    s ∈ behind lower upper t ↔ 0 ≤ s ∧ (∀ u ∈ upper, t - u ≤ s) ∧ s ≤ t - lower :=
  Iff.rfl

lemma delimits_future :
    Delimits (I.future t last).bounds? (ahead I.lower (I.upper.finite?.map Nat.cast) t last) := by
  refine Window.delimits_bounds? fun s => ?_
  rw [mem_ahead]
  rcases I with ⟨l, u | _, h⟩
  · simp only [future, Bound.finite?, Option.map_some, Option.mem_some_iff, forall_eq']
    omega
  · simp only [future, Bound.finite?, Option.map_none, Option.not_mem_none, false_imp_iff,
      implies_true, true_and]
    omega

lemma delimits_past :
    Delimits (I.past t).bounds? (behind I.lower (I.upper.finite?.map Nat.cast) t) := by
  refine Window.delimits_bounds? fun s => ?_
  rw [mem_behind]
  rcases I with ⟨l, u | _, h⟩
  · simp only [past, Bound.finite?, Option.map_some, Option.mem_some_iff, forall_eq']
    omega
  · simp only [past, Bound.finite?, Option.map_none, Option.not_mem_none, false_imp_iff,
      implies_true, true_and]
    omega

/-- A tick lies ahead of another one exactly when the other one lies behind it. -/
lemma mem_future_iff_mem_past (hs : s ≤ last) : s ∈ I.future t last ↔ t ∈ I.past s := by
  rw [mem_future, mem_past]
  simp only [hs, and_true]

/-- The windows at tick `t`, with `last` as the last tick, hold the integers between the bounds.
They may be found in machine words, where nothing is refused. -/
structure Exact (I : Interval) (lower : Int) (upper : Option Int) (t last : Nat) : Prop where
  future_words : I.futureBounds? t last = some (I.future t last).bounds?
  future : Delimits (I.future t last).bounds? (ahead lower upper t last)
  past_words : I.pastBounds? t = (I.past t).bounds?
  past : Delimits (I.past t).bounds? (behind lower upper t)
  /-- A tick lies ahead of another one exactly when the other one lies behind it. -/
  converse : ∀ s ≤ last, LiesIn s (I.future t last).bounds? ↔ LiesIn t (I.past s).bounds?

/-- **Intervals and windows are exact.** A signed number, with another one or none, is read as the
interval with these bounds exactly when they are ticks in order, and is a fault of the formula
otherwise. The windows of an interval that has been read hold, at all ticks, the integers between
the bounds. -/
theorem ofInts_exact (lower : Int) (upper : Option Int) :
    ((∃ I, ofInts lower upper = .ok I) ↔
        0 ≤ lower ∧ lower ≤ largestTick ∧ ∀ u ∈ upper, lower ≤ u ∧ u ≤ largestTick)
      ∧ (∀ e, ofInts lower upper = .error e → e.kind = .invalidFormula)
      ∧ (∀ I, ofInts lower upper = .ok I ↔
        lower = I.lower ∧ upper = I.upper.finite?.map Nat.cast ∧ I.Fits)
      ∧ ∀ I, ofInts lower upper = .ok I →
        ∀ t ≤ largestTick, ∀ last ≤ largestTick, I.Exact lower upper t last := by
  refine ⟨exists_ofInts_iff, fun e => kind_of_ofInts_eq_error, fun I => ofInts_eq_ok_iff, ?_⟩
  intro I hI t ht last hlast
  obtain ⟨rfl, rfl, fits⟩ := ofInts_eq_ok_iff.mp hI
  exact
    { future_words := futureBounds?_eq fits ht hlast
      future := delimits_future
      past_words := pastBounds?_eq I t
      past := delimits_past
      converse := fun s hs => by
        rw [Window.liesIn_bounds?_iff, Window.liesIn_bounds?_iff, mem_future_iff_mem_past hs] }

/-- The sum of the tick and the upper bound is no tick any more, and the difference would lie before
tick zero. -/
theorem ofInts_exact_largest :
    let I : Interval := ⟨4294967293, .finite 4294967295, by decide⟩
    ofInts 4294967293 (some 4294967295) = .ok I
      ∧ I.futureBounds? 1 4294967295 = some (some (4294967294, 4294967295))
      ∧ (∀ s, s ∈ ahead 4294967293 (some 4294967295) 1 4294967295 ↔
        4294967294 ≤ s ∧ s ≤ 4294967295)
      ∧ I.pastBounds? 4294967294 = some (0, 1)
      ∧ ∀ s, s ∈ behind 4294967293 (some 4294967295) 4294967294 ↔ 0 ≤ s ∧ s ≤ 1 := by
  intro I
  obtain ⟨-, -, reads, windows⟩ := ofInts_exact 4294967293 (some 4294967295)
  have hI : ofInts 4294967293 (some 4294967295) = .ok I := (reads I).mpr ⟨rfl, rfl, by decide⟩
  have future := (windows I hI 1 (by decide) 4294967295 (by decide)).future
  have past := (windows I hI 4294967294 (by decide) 4294967295 (by decide)).past
  refine ⟨hI, by decide, ?_, by decide, ?_⟩
  · simpa using future.2 4294967294 4294967295 (by decide)
  · simpa using past.2 0 1 (by decide)

end Interval

end BoundedTemporal
