/-
Windows and conditions found with machine words.

Ticks and interval bounds have 32 bits. The ends of a future window are added up in
words of 64 bits and cut down afterwards; single steps from tick to tick are taken in
words of 32 bits.

* `Word.add?`, `Word.narrow?`: sums and conversions that are refused where bits would
  be lost;
* `Interval.Fits`: an interval whose bounds are ticks, as they are for the intervals that
  can be read (`Interval.ofInts_eq_ok_iff`);
* `Interval.futureBounds?`, `Interval.pastBounds`, `Node.conditionInWords?`: the ends of
  a window and the condition of a node, found with such words;
* `Interval.futureBounds?_eq`, `Interval.pastBounds_eq`, `Node.conditionInWords?_eq`: up
  to any horizon before the largest tick nothing is refused, and the results are the
  exact ones.
-/
import BoundedTemporal.Encoding.Condition
import Mathlib.Algebra.Group.Nat.Defs
import Mathlib.Tactic.Lemma
import Mathlib.Tactic.SplitIfs

namespace BoundedTemporal

/-! ### Words -/

namespace Word

/-- The sum of two words, unless it needs more bits. -/
def add? (bits a b : Nat) : Option Nat :=
  if a + b < 2 ^ bits then some (a + b) else none

/-- A word cut down to fewer bits, unless some are lost. -/
def narrow? (bits a : Nat) : Option Nat :=
  if a < 2 ^ bits then some a else none

lemma add?_eq_some {bits a b : Nat} (h : a + b < 2 ^ bits) : add? bits a b = some (a + b) :=
  if_pos h

lemma narrow?_eq_some {bits a : Nat} (h : a < 2 ^ bits) : narrow? bits a = some a :=
  if_pos h

lemma le_largestTick_iff {a : Nat} : a ≤ largestTick ↔ a < 2 ^ 32 :=
  Nat.lt_succ_iff.symm

end Word

/-! ### Windows -/

lemma Window.bounds?_of_le {first final : Nat} (h : first ≤ final) :
    (Window.mk first (final + 1)).bounds? = some (first, final) :=
  if_pos (Nat.lt_succ_of_le h)

lemma Window.bounds?_of_lt {first final : Nat} (h : final < first) :
    (Window.mk first (final + 1)).bounds? = none :=
  if_neg (Nat.not_lt.mpr h)

namespace Interval

variable {I : Interval} {t last : Nat}

/-- The bounds are ticks or infinity. -/
structure Fits (I : Interval) : Prop where
  lower : I.lower ≤ largestTick
  upper : ∀ u ∈ I.upper.finite?, u ≤ largestTick

instance (I : Interval) : Decidable I.Fits :=
  decidable_of_iff (I.lower ≤ largestTick ∧ ∀ u ∈ I.upper.finite?, u ≤ largestTick)
    ⟨fun h => ⟨h.1, h.2⟩, fun h => ⟨h.lower, h.upper⟩⟩

lemma tickOfInt_eq_ok_iff {value : Int} {l : Nat} :
    tickOfInt value = .ok l ↔ value = l ∧ l ≤ largestTick := by
  unfold tickOfInt
  split_ifs <;> simp only [Except.ok.injEq, false_iff] <;> omega

lemma ofTicks_eq_ok_iff {l u : Nat} :
    ofTicks l u = .ok I ↔ I.lower = l ∧ I.upper = .finite u := by
  unfold ofTicks
  constructor
  · split
    · rintro ⟨⟩
      exact ⟨rfl, rfl⟩
    · rintro ⟨⟩
  · rcases I with ⟨_, _, le⟩
    rintro ⟨rfl, rfl⟩
    exact dif_pos le

/-- **Which intervals are read**: those whose bounds are ticks or infinity, from just these
bounds. -/
lemma ofInts_eq_ok_iff {lower : Int} {upper : Option Int} : ofInts lower upper = .ok I ↔
    lower = I.lower ∧ upper = I.upper.finite?.map Nat.cast ∧ I.Fits := by
  cases upper with
  | none =>
      have reads : ofInts lower none = .ok I ↔ ∃ l, tickOfInt lower = .ok l ∧ unbounded l = I := by
        simp only [ofInts, bind_eq_ok_iff, pure, Except.pure, Except.ok.injEq]
      rw [reads]
      constructor
      · rintro ⟨l, hl, rfl⟩
        have hl := tickOfInt_eq_ok_iff.mp hl
        exact ⟨hl.1, rfl, hl.2, by rintro u ⟨⟩⟩
      · rintro ⟨rfl, upper, fits⟩
        refine ⟨I.lower, tickOfInt_eq_ok_iff.mpr ⟨rfl, fits.lower⟩, ?_⟩
        rcases I with ⟨l, u | _, le⟩
        · cases upper
        · rfl
  | some value =>
      have reads : ofInts lower (some value) = .ok I ↔
          ∃ l, tickOfInt lower = .ok l ∧ ∃ u, tickOfInt value = .ok u ∧ ofTicks l u = .ok I := by
        rw [ofInts, bind_eq_ok_iff]
        exact exists_congr fun l => and_congr_right fun _ => bind_eq_ok_iff
      simp only [reads, tickOfInt_eq_ok_iff, ofTicks_eq_ok_iff]
      constructor
      · rintro ⟨l, ⟨rfl, hl⟩, u, ⟨rfl, hu⟩, rfl, upper⟩
        exact ⟨rfl, by rw [upper]; rfl, hl, fun v hv => by rw [upper] at hv; cases hv; exact hu⟩
      · rintro ⟨rfl, upper, fits⟩
        rcases I with ⟨l, u | _, le⟩
        · cases upper
          exact ⟨l, ⟨rfl, fits.lower⟩, u, ⟨rfl, fits.upper u rfl⟩, rfl, rfl⟩
        · cases upper

/-- Where a future window ends, added up in words of 64 bits. -/
def futureEnd? (I : Interval) (t last : Nat) : Option Nat :=
  match I.upper with
  | .finite u => (Word.add? 64 t u).map (min · last)
  | .infinite => some last

/-- The first and the last tick of a future window, if there are any. The ends are cut
down to words of 32 bits once they are known to be in order. -/
def futureBounds? (I : Interval) (t last : Nat) : Option (Option (Nat × Nat)) := do
  let first ← Word.add? 64 t I.lower
  let final ← I.futureEnd? t last
  if final < first then
    return none
  else
    return some (← Word.narrow? 32 first, ← Word.narrow? 32 final)

/-- Where a past window starts. -/
def pastStart (I : Interval) (t : Nat) : Nat :=
  match I.upper with
  | .finite u => t - u
  | .infinite => 0

/-- The first and the last tick of a past window, if there are any. Differences stop at
zero, and need no more bits. -/
def pastBounds? (I : Interval) (t : Nat) : Option (Nat × Nat) :=
  if t < I.lower then none else some (I.pastStart t, t - I.lower)

/-- The end of a future window is found, and it is not past the last tick. -/
lemma exists_futureEnd? (last : Nat) (fits : I.Fits) (ht : t ≤ largestTick) :
    ∃ final ≤ last, I.futureEnd? t last = some final
      ∧ I.future t last = ⟨t + I.lower, final + 1⟩ := by
  rcases I with ⟨l, u | _, h⟩
  · have hu := fits.upper u rfl
    rw [Word.le_largestTick_iff] at ht hu
    have sum : Word.add? 64 t u = some (t + u) := Word.add?_eq_some (by omega)
    exact ⟨min (t + u) last, Nat.min_le_right _ _, by simp only [futureEnd?, sum, Option.map_some],
      rfl⟩
  · exact ⟨last, Nat.le_refl _, rfl, rfl⟩

/-- **Future windows in words**: no sum is refused, and no bits are lost. -/
lemma futureBounds?_eq (fits : I.Fits) (ht : t ≤ largestTick) (hlast : last ≤ largestTick) :
    I.futureBounds? t last = some (I.future t last).bounds? := by
  obtain ⟨final, hle, hfinal, window⟩ := exists_futureEnd? last fits ht
  have hl := fits.lower
  rw [Word.le_largestTick_iff] at ht hlast hl
  have sum : Word.add? 64 t I.lower = some (t + I.lower) := Word.add?_eq_some (by omega)
  rw [window]
  by_cases empty : final < t + I.lower
  · rw [Window.bounds?_of_lt empty]
    simp only [futureBounds?, sum, hfinal, Option.bind_eq_bind, Option.bind_some, if_pos empty]
    rfl
  · rw [Window.bounds?_of_le (Nat.not_lt.mp empty)]
    simp only [futureBounds?, sum, hfinal, Option.bind_eq_bind, Option.bind_some, if_neg empty]
    rw [Word.narrow?_eq_some (by omega), Word.narrow?_eq_some (by omega)]
    rfl

lemma past_eq_of_le (h : I.lower ≤ t) : I.past t = ⟨I.pastStart t, t - I.lower + 1⟩ := by
  rcases I with ⟨l, u | _, h'⟩ <;> simp only [past, pastStart] at h ⊢ <;> congr 1 <;> omega

/-- **Past windows in words**: the differences are exact. -/
lemma pastBounds?_eq (I : Interval) (t : Nat) : I.pastBounds? t = (I.past t).bounds? := by
  by_cases empty : t < I.lower
  · have stop : ¬ (I.past t).start < (I.past t).stop := by
      simp only [past]
      omega
    rw [pastBounds?, if_pos empty, Window.bounds?, if_neg stop]
  · have start : I.pastStart t ≤ t - I.lower := by
      rcases I with ⟨l, u | _, h⟩
      · exact Nat.sub_le_sub_left h t
      · exact Nat.zero_le _
    rw [pastBounds?, if_neg empty, past_eq_of_le (Nat.not_lt.mp empty), Window.bounds?_of_le start]

end Interval

/-! ### Conditions -/

lemma Window.ticks_of_bounds?_some {w : Window} {first final : Nat}
    (h : w.bounds? = some (first, final)) : (Window.mk first (final + 1)).ticks = w.ticks := by
  unfold bounds? at h
  split at h
  · cases h
    rw [Nat.sub_add_cancel (by omega)]
  · cases h

lemma Window.ticks_of_bounds?_none {w : Window} (h : w.bounds? = none) : w.ticks = [] := by
  unfold bounds? at h
  split at h
  · cases h
  · rw [← List.length_eq_zero_iff, length_ticks, size]
    omega

namespace Node

variable {α : Type} {n : Node α} {t last : Nat}

/-- `q` held at `s`, and `p` has held from the next tick on until `t`. -/
def sinceCaseInWords? (p q : α) (t s : Nat) : Option (Expr (α × Nat)) :=
  (Word.add? 32 s 1).map fun next => .all (operandOver p ⟨next, t + 1⟩ ++ [.lit (q, s)])

/-- The condition under which a node holds at tick `t`, over ticks that are found in
machine words. Atoms have none, and there is none where a sum is refused. -/
def conditionInWords? (last t : Nat) : Node α → Option (Expr (α × Nat))
  | .atom _ => none
  | .not p => some (.negate (.lit (p, t)))
  | .and p q => some (.all [.lit (p, t), .lit (q, t)])
  | .or p q => some (.any [.lit (p, t), .lit (q, t)])
  | .next p => if t < last then (Word.add? 32 t 1).map fun s => .lit (p, s) else some .bot
  | .globally I p => (I.futureBounds? t last).map fun
    | some (first, final) => .all (operandOver p ⟨first, final + 1⟩)
    | none => .top
  | .eventually I p => (I.futureBounds? t last).map fun
    | some (first, final) => .any (operandOver p ⟨first, final + 1⟩)
    | none => .bot
  | .until I p q => (I.futureBounds? t last).map fun
    | some (first, final) => .any ((Window.mk first (final + 1)).ticks.map (untilCase p q t))
    | none => .bot
  | .since I p q =>
    match I.pastBounds? t with
    | some (first, final) =>
      ((Window.mk first (final + 1)).ticks.reverse.mapM (sinceCaseInWords? p q t)).map .any
    | none => some .bot

/-- **Conditions in words**: nothing is refused, and the condition is the exact one. -/
lemma conditionInWords?_eq (fits : ∀ I, n.interval? = some I → I.Fits) (ht : t ≤ last)
    (hlast : last < largestTick) : n.conditionInWords? last t = n.condition? last t := by
  have window {I : Interval} (hI : n.interval? = some I) :
      I.futureBounds? t last = some (I.future t last).bounds? :=
    Interval.futureBounds?_eq (fits I hI) (by omega) (Nat.le_of_lt hlast)
  have step {s : Nat} (hs : s ≤ last) : Word.add? 32 s 1 = some (s + 1) :=
    Word.add?_eq_some (Word.le_largestTick_iff.mp (by omega))
  cases n with
  | atom name | not p | and p q | or p q => rfl
  | next p =>
      rw [conditionInWords?, condition?, step ht, Option.map_some]
      split <;> rfl
  | globally I p =>
      rw [conditionInWords?, condition?, window rfl, Option.map_some]
      cases h : (I.future t last).bounds? with
      | none => rw [operandOver, Window.ticks_of_bounds?_none h]; rfl
      | some b => simp only [operandOver, Window.ticks_of_bounds?_some h]
  | eventually I p =>
      rw [conditionInWords?, condition?, window rfl, Option.map_some]
      cases h : (I.future t last).bounds? with
      | none => rw [operandOver, Window.ticks_of_bounds?_none h]; rfl
      | some b => simp only [operandOver, Window.ticks_of_bounds?_some h]
  | «until» I p q =>
      rw [conditionInWords?, condition?, window rfl, Option.map_some]
      cases h : (I.future t last).bounds? with
      | none => rw [Window.ticks_of_bounds?_none h]; rfl
      | some b => rw [← Window.ticks_of_bounds?_some h]
  | since I p q =>
      rw [conditionInWords?, condition?, Interval.pastBounds?_eq]
      cases h : (I.past t).bounds? with
      | none => rw [Window.ticks_of_bounds?_none h]; rfl
      | some b =>
          have witness : ∀ s ∈ (I.past t).ticks.reverse,
              sinceCaseInWords? p q t s = pure (sinceCase p q t s) := by
            intro s hs
            have past := Interval.le_of_mem_past (Window.mem_ticks.mp (List.mem_reverse.mp hs))
            rw [sinceCaseInWords?, step (by omega)]
            rfl
          simp only [Window.ticks_of_bounds?_some h, mapM_eq_pure_map witness]
          rfl

end Node

end BoundedTemporal
