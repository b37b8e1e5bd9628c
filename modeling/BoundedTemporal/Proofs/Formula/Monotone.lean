/-
Wider and narrower intervals.

A wider interval gives `F`, `U` and `S` more ticks at which to find a witness, and `G` more ticks
at which to be violated; a negation exchanges the two. Windows are cut at the ends of the trace,
and may be empty, but a wider interval never has the smaller window.

* `I ⊆ I'`: every distance in the one interval is in the other, and `Interval.subset_iff`: this is
  so exactly when the bounds of the other lie further out;
* `Interval.future_mono`, `Interval.past_mono`: containment of intervals is containment of windows;
* `Formula.RelaxesTo`: formulas that differ in their intervals only, where each interval of the
  second one asks for less;
* `Formula.holds_of_le`, `Arena.holds?_of_le`: what asks for less holds wherever the other does.
-/
import BoundedTemporal.Proofs.Arena.History

namespace BoundedTemporal

/-! ### Containment of intervals -/

namespace Bound

/-- The order of bounds; infinity lies past all ticks. -/
protected def Le : Bound → Bound → Prop
  | _, infinite => True
  | finite u, finite v => u ≤ v
  | infinite, finite _ => False

instance : LE Bound where
  le := Bound.Le

instance : (b b' : Bound) → Decidable (b ≤ b')
  | _, infinite => isTrue trivial
  | finite u, finite v => inferInstanceAs (Decidable (u ≤ v))
  | infinite, finite _ => isFalse id

lemma Admits.trans_le {b b' : Bound} {d : Nat} (h : b.Admits d) (le : b ≤ b') : b'.Admits d := by
  cases b' with
  | infinite => exact trivial
  | finite v =>
      cases b with
      | infinite => exact le.elim
      | finite u => exact Nat.le_trans h le

end Bound

namespace Interval

variable {I I' : Interval} {t last s : Nat}

instance : Membership Nat Interval where
  mem I d := I.lower ≤ d ∧ I.upper.Admits d

instance : HasSubset Interval where
  Subset I I' := ∀ d ∈ I, d ∈ I'

/-- **Containment in terms of the bounds.** -/
lemma subset_iff : I ⊆ I' ↔ I'.lower ≤ I.lower ∧ I.upper ≤ I'.upper := by
  constructor
  · intro sub
    refine ⟨(sub I.lower ⟨Nat.le_refl _, I.admits_lower⟩).1, ?_⟩
    rcases I with ⟨l, u, h⟩
    rcases I' with ⟨l', v | _, h'⟩
    · cases u with
      | finite u => exact (sub u ⟨h, Nat.le_refl u⟩).2
      | infinite =>
          -- there is a distance past every finite bound
          have past : max l (v + 1) ≤ v := (sub (max l (v + 1)) ⟨Nat.le_max_left _ _, trivial⟩).2
          omega
    · exact trivial
  · rintro ⟨lower, upper⟩ d ⟨hd, admits⟩
    exact ⟨Nat.le_trans lower hd, admits.trans_le upper⟩

instance (I I' : Interval) : Decidable (I ⊆ I') :=
  decidable_of_iff _ subset_iff.symm

/-- The future window holds the ticks up to the last one whose distance is in the interval. -/
lemma mem_future_iff_mem : s ∈ I.future t last ↔ t ≤ s ∧ s - t ∈ I ∧ s ≤ last := by
  rw [mem_future]
  constructor
  · rintro ⟨lower, upper, le⟩
    exact ⟨Nat.le_of_add_right_le lower, ⟨Nat.le_sub_of_add_le' lower, upper⟩, le⟩
  · rintro ⟨ahead, ⟨lower, upper⟩, le⟩
    exact ⟨Nat.add_le_of_le_sub' ahead lower, upper, le⟩

/-- The past window holds the ticks from zero on whose distance is in the interval. -/
lemma mem_past_iff_mem : s ∈ I.past t ↔ s ≤ t ∧ t - s ∈ I := by
  rw [mem_past]
  constructor
  · rintro ⟨lower, upper⟩
    exact ⟨Nat.le_of_add_right_le lower, Nat.le_sub_of_add_le' lower, upper⟩
  · rintro ⟨behind, lower, upper⟩
    exact ⟨Nat.add_le_of_le_sub' behind lower, upper⟩

/-- A wider interval has the wider future window, wherever the trace ends. -/
lemma future_mono (sub : I ⊆ I') (h : s ∈ I.future t last) : s ∈ I'.future t last := by
  rw [mem_future_iff_mem] at h ⊢
  exact ⟨h.1, sub _ h.2.1, h.2.2⟩

/-- A wider interval has the wider past window. -/
lemma past_mono (sub : I ⊆ I') (h : s ∈ I.past t) : s ∈ I'.past t := by
  rw [mem_past_iff_mem] at h ⊢
  exact ⟨h.1, sub _ h.2⟩

end Interval

/-! ### Formulas that ask for less -/

namespace Formula

/-- The second formula is the first one with other intervals: wider ones where a witness is looked
for, narrower ones where something is demanded throughout, and the other way round below a
negation. -/
inductive RelaxesTo : Formula → Formula → Prop
  | atom (name : Atom) : RelaxesTo (atom name) (atom name)
  | not {f f' : Formula} : RelaxesTo f' f → RelaxesTo (not f) (not f')
  | and {f f' g g' : Formula} : RelaxesTo f f' → RelaxesTo g g' → RelaxesTo (and f g) (and f' g')
  | or {f f' g g' : Formula} : RelaxesTo f f' → RelaxesTo g g' → RelaxesTo (or f g) (or f' g')
  | next {f f' : Formula} : RelaxesTo f f' → RelaxesTo (next f) (next f')
  | globally {I I' : Interval} {f f' : Formula} :
      I' ⊆ I → RelaxesTo f f' → RelaxesTo (globally I f) (globally I' f')
  | eventually {I I' : Interval} {f f' : Formula} :
      I ⊆ I' → RelaxesTo f f' → RelaxesTo (eventually I f) (eventually I' f')
  | until {I I' : Interval} {f f' g g' : Formula} :
      I ⊆ I' → RelaxesTo f f' → RelaxesTo g g' → RelaxesTo (.until I f g) (.until I' f' g')
  | since {I I' : Interval} {f f' g g' : Formula} :
      I ⊆ I' → RelaxesTo f f' → RelaxesTo g g' → RelaxesTo (since I f g) (since I' f' g')

instance : LE Formula where
  le := RelaxesTo

/-- **A formula that asks for less holds wherever the other one does.** -/
lemma holds_of_le {tr : Trace} {f f' : Formula} (le : f ≤ f') {t : Nat}
    (h : f.holds tr t = true) : f'.holds tr t = true := by
  -- the induction is on why `f'` asks for less; below a negation the two change places
  induction le generalizing t with
  | atom name => exact h
  | not _ ih =>
      rw [holds, Bool.not_eq_true', Bool.eq_false_iff] at h ⊢
      exact fun violated => h (ih violated)
  | and _ _ ihf ihg =>
      rw [holds, Bool.and_eq_true] at h ⊢
      exact ⟨ihf h.1, ihg h.2⟩
  | or _ _ ihf ihg =>
      rw [holds, Bool.or_eq_true] at h ⊢
      exact h.imp ihf ihg
  | next _ ih =>
      rw [holds, Bool.and_eq_true] at h ⊢
      exact ⟨h.1, ih h.2⟩
  | globally sub _ ih =>
      rw [holds_globally] at h ⊢
      exact fun s hs => ih (h s (Interval.future_mono sub hs))
  | eventually sub _ ih =>
      rw [holds_eventually] at h ⊢
      obtain ⟨s, hs, hf⟩ := h
      exact ⟨s, Interval.future_mono sub hs, ih hf⟩
  | «until» sub _ _ ihf ihg =>
      rw [holds_until] at h ⊢
      obtain ⟨s, hs, hg, hf⟩ := h
      exact ⟨s, Interval.future_mono sub hs, ihg hg, fun r htr hrs => ihf (hf r htr hrs)⟩
  | since sub _ _ ihf ihg =>
      rw [holds_since] at h ⊢
      obtain ⟨s, hs, hg, hf⟩ := h
      exact ⟨s, Interval.past_mono sub hs, ihg hg, fun r hsr hrt => ihf (hf r hsr hrt)⟩

end Formula

namespace Arena

/-- **Truth is monotone in the intervals**: wherever a stored formula holds, a stored formula that
asks for less holds as well. -/
theorem holds?_of_le {A : Arena} {i j : NodeId} {f f' : Formula} (hi : A.formula? i = some f)
    (hj : A.formula? j = some f') (le : f ≤ f') {s : Trace} {t : Nat}
    (h : A.holds? i s t = some true) : A.holds? j s t = some true := by
  rw [holds?_of_formula? hi, Option.some.injEq] at h
  rw [holds?_of_formula? hj, Formula.holds_of_le le h]

/-- Outside of the negation the interval grows, and inside of it the interval shrinks. -/
theorem holds?_of_le_until :
    let A := build ∅ [.add (.atom "a"), .add (.atom "b"),
      .add (.eventually (.unbounded 0) 1), .add (.not 2),
      .add (.eventually ⟨1, .finite 2, by decide⟩ 1), .add (.not 4),
      .add (.until ⟨1, .finite 5, by decide⟩ 0 3), .add (.until (.unbounded 0) 0 5)]
    let s := Trace.ofBits ⟨3⟩ ["a", "b"] 3
    A.holds? 6 s 0 = some true ∧ A.holds? 7 s 0 = some true := by
  intro A s
  have h : A.holds? 6 s 0 = some true := by decide
  refine ⟨h, holds?_of_le rfl rfl ?_ h⟩
  exact .until (by decide) (.atom "a") (.not (.eventually (by decide) (.atom "b")))

end Arena

end BoundedTemporal
