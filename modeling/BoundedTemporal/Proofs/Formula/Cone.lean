/-
The part of a trace that a formula looks at.

* `Formula.futureReach`, `Formula.pastReach`: how far a formula looks ahead and
  back, where the delays of nested operators add up;
* `Formula.SameCone`: two traces show a formula the same cone at a tick. Either
  they end together, or neither ends inside the cone;
* `Formula.SameCone.operand`: the cone of an operand at a tick that is looked at lies
  within the cone of the formula;
* `Formula.SameCone.holds_eq`: a formula cannot tell two such traces apart, and in
  particular (`Formula.holds_eq_of_agree`) no traces that end together and agree on its atoms;
* `Arena.holds?_eq_of_cone`: the same for stored formulas and their atoms.
-/
import BoundedTemporal.Proofs.Arena.Reachable
import Mathlib.Data.ENat.Lattice
import Mathlib.Tactic.GCongr

namespace BoundedTemporal

/-- The bound as a number or infinity. -/
def Bound.toENat : Bound → ℕ∞
  | finite u => u
  | infinite => ⊤

lemma Bound.admits_iff {b : Bound} {t : ℕ} : b.Admits t ↔ (t : ℕ∞) ≤ b.toENat := by
  cases b with
  | finite u => rw [admits_finite, toENat, Nat.cast_le]
  | infinite => simp [toENat]

/-- A tick of a future window is not before the present tick, and at most the
upper bound after it. -/
lemma Interval.reach_of_mem_future {I : Interval} {t last r : ℕ} (h : r ∈ I.future t last) :
    t ≤ r ∧ (r : ℕ∞) ≤ t + I.upper.toENat := by
  obtain ⟨hl, hu, -⟩ := mem_future.mp h
  have hr : r = t + (r - t) := by omega
  rw [Bound.admits_iff] at hu
  refine ⟨by omega, ?_⟩
  calc (r : ℕ∞) = t + (r - t : ℕ) := by exact_mod_cast congrArg Nat.cast hr
    _ ≤ t + I.upper.toENat := by gcongr

/-- A tick of a past window is not after the present tick, and at most the upper
bound before it. -/
lemma Interval.reach_of_mem_past {I : Interval} {t r : ℕ} (h : r ∈ I.past t) :
    r ≤ t ∧ (t : ℕ∞) ≤ r + I.upper.toENat := by
  obtain ⟨hl, hu⟩ := mem_past.mp h
  have ht : t = r + (t - r) := by omega
  rw [Bound.admits_iff] at hu
  refine ⟨by omega, ?_⟩
  calc (t : ℕ∞) = r + (t - r : ℕ) := by exact_mod_cast congrArg Nat.cast ht
    _ ≤ r + I.upper.toENat := by gcongr

namespace Formula

/-- How many ticks after the present one a formula may look at. -/
noncomputable def futureReach : Formula → ℕ∞
  | atom _ => 0
  | not f => f.futureReach
  | and f g => max f.futureReach g.futureReach
  | or f g => max f.futureReach g.futureReach
  | next f => 1 + f.futureReach
  | globally I f => I.upper.toENat + f.futureReach
  | eventually I f => I.upper.toENat + f.futureReach
  | .until I f g => I.upper.toENat + max f.futureReach g.futureReach
  | since _ f g => max f.futureReach g.futureReach

/-- How many ticks before the present one a formula may look at. -/
noncomputable def pastReach : Formula → ℕ∞
  | atom _ => 0
  | not f => f.pastReach
  | and f g => max f.pastReach g.pastReach
  | or f g => max f.pastReach g.pastReach
  | next f => f.pastReach
  | globally _ f => f.pastReach
  | eventually _ f => f.pastReach
  | .until _ f g => max f.pastReach g.pastReach
  | since I f g => I.upper.toENat + max f.pastReach g.pastReach

variable {s s' : Trace} {f g : Formula} {t r : ℕ}

/-! ### Two traces with one cone -/

/-- The last tick that both traces have. -/
def commonLast (s s' : Trace) : ℕ :=
  min s.horizon.last s'.horizon.last

/-- Two traces show a formula the same at tick `t`: they end together or after all
that the formula may look at, and they agree on its atoms as far as it looks. -/
structure SameCone (s s' : Trace) (f : Formula) (t : ℕ) : Prop where
  now : t ≤ commonLast s s'
  ends : s.horizon = s'.horizon ∨ (t : ℕ∞) + f.futureReach ≤ commonLast s s'
  agree : ∀ a ∈ f.atoms, ∀ r ≤ commonLast s s',
    (t : ℕ∞) ≤ r + f.pastReach → (r : ℕ∞) ≤ t + f.futureReach → s.holds a r = s'.holds a r

namespace SameCone

/-- Within the cone, both traces end at the same tick or not at all. -/
lemma le_last_iff (h : SameCone s s' f t) (hr : (r : ℕ∞) ≤ t + f.futureReach) :
    r ≤ s.horizon.last ↔ r ≤ s'.horizon.last := by
  rcases h.ends with same | inside
  · rw [same]
  · have hr' : r ≤ commonLast s s' := by exact_mod_cast hr.trans inside
    have := hr'.trans (Nat.min_le_left _ _)
    have := hr'.trans (Nat.min_le_right _ _)
    tauto

/-- **The cone of an operand** lies within that of the formula, if the reach of the
formula leaves room for the way to the operand. -/
lemma operand (h : SameCone s s' f t) (ahead back : ℕ∞) (atoms : g.atoms ⊆ f.atoms)
    (hr : r ≤ commonLast s s') (hahead : (r : ℕ∞) ≤ t + ahead) (hback : (t : ℕ∞) ≤ r + back)
    (future : ahead + g.futureReach ≤ f.futureReach) (past : back + g.pastReach ≤ f.pastReach) :
    SameCone s s' g r := by
  have room : (r : ℕ∞) + g.futureReach ≤ t + f.futureReach :=
    calc (r : ℕ∞) + g.futureReach ≤ t + ahead + g.futureReach := by gcongr
      _ = t + (ahead + g.futureReach) := add_assoc _ _ _
      _ ≤ t + f.futureReach := by gcongr
  refine ⟨hr, h.ends.imp_right room.trans, fun a ha q hq hpast hfuture => ?_⟩
  refine h.agree a (atoms ha) q hq ?_ (hfuture.trans room)
  calc (t : ℕ∞) ≤ r + back := hback
    _ ≤ q + g.pastReach + back := by gcongr
    _ = q + (back + g.pastReach) := by rw [add_assoc, add_comm g.pastReach]
    _ ≤ q + f.pastReach := by gcongr

/-- The operand of a connective without delay is looked at now. -/
lemma present (h : SameCone s s' f t) (atoms : g.atoms ⊆ f.atoms)
    (future : g.futureReach ≤ f.futureReach) (past : g.pastReach ≤ f.pastReach) :
    SameCone s s' g t :=
  h.operand 0 0 atoms h.now (by simp) (by simp) (by simpa) (by simpa)

/-- Both traces cut a future window alike. -/
lemma mem_future_iff (h : SameCone s s' f t) {I : Interval}
    (hu : I.upper.toENat ≤ f.futureReach) :
    r ∈ I.future t s.horizon.last ↔ r ∈ I.future t s'.horizon.last := by
  have key : ∀ {last}, r ∈ I.future t last → (r : ℕ∞) ≤ t + f.futureReach := fun hr =>
    (Interval.reach_of_mem_future hr).2.trans (by gcongr)
  constructor
  · intro hr
    obtain ⟨hl, hu, hlast⟩ := Interval.mem_future.mp hr
    exact Interval.mem_future.mpr ⟨hl, hu, (h.le_last_iff (key hr)).mp hlast⟩
  · intro hr
    obtain ⟨hl, hu, hlast⟩ := Interval.mem_future.mp hr
    exact Interval.mem_future.mpr ⟨hl, hu, (h.le_last_iff (key hr)).mpr hlast⟩

/-- The next tick, if both traces have it, is looked at by `next`; and either both have
it or neither. -/
lemma next (h : SameCone s s' (next f) t) :
    (t < s.horizon.last ↔ t < s'.horizon.last)
      ∧ (t < s.horizon.last → SameCone s s' f (t + 1)) := by
  have ends : t + 1 ≤ s.horizon.last ↔ t + 1 ≤ s'.horizon.last := by
    refine h.le_last_iff ?_
    rw [futureReach, Nat.cast_succ]
    gcongr
    exact le_self_add
  refine ⟨ends, fun hs => ?_⟩
  exact h.operand 1 0 (List.Subset.refl _) (le_min hs (ends.mp hs)) (by simp) (by simp) le_rfl
    (by simp [pastReach])

/-- An operand is looked at between now and a tick of the future window. -/
lemma future (h : SameCone s s' f t) {I : Interval} {q : ℕ}
    (hq : q ∈ I.future t s.horizon.last) (htr : t ≤ r) (hrq : r ≤ q)
    (atoms : g.atoms ⊆ f.atoms) (reach : I.upper.toENat + g.futureReach ≤ f.futureReach)
    (past : g.pastReach ≤ f.pastReach) : SameCone s s' g r := by
  have hq' := (h.mem_future_iff (le_self_add.trans reach)).mp hq
  have hr : r ≤ commonLast s s' :=
    hrq.trans (le_min (Interval.le_last_of_mem_future hq) (Interval.le_last_of_mem_future hq'))
  have hahead : (r : ℕ∞) ≤ t + I.upper.toENat :=
    (Nat.cast_le.mpr hrq).trans (Interval.reach_of_mem_future hq).2
  exact h.operand _ 0 atoms hr hahead (by simpa) reach (by simpa)

/-- An operand is looked at between a tick of the past window and now. -/
lemma past (h : SameCone s s' f t) {I : Interval} {q : ℕ} (hq : q ∈ I.past t) (hqr : q ≤ r)
    (hrt : r ≤ t) (atoms : g.atoms ⊆ f.atoms) (future : g.futureReach ≤ f.futureReach)
    (reach : I.upper.toENat + g.pastReach ≤ f.pastReach) : SameCone s s' g r := by
  have hback : (t : ℕ∞) ≤ r + I.upper.toENat :=
    (Interval.reach_of_mem_past hq).2.trans (by gcongr)
  exact h.operand 0 _ atoms (hrt.trans h.now) (by simpa) hback (by simpa) reach

end SameCone

/-- **The cone of influence**: a formula cannot tell apart two traces that show it
the same cone. -/
lemma SameCone.holds_eq (h : SameCone s s' f t) : f.holds s t = f.holds s' t := by
  induction f generalizing t with
  | atom name => exact h.agree name (by simp [atoms]) t h.now (by simp) (by simp)
  | not f ih =>
      rw [holds, holds, ih (h.present (List.Subset.refl _) le_rfl le_rfl)]
  | and f g ihf ihg =>
      have hf := h.present (g := f) (List.subset_append_left _ _) (le_max_left _ _) (le_max_left _ _)
      have hg := h.present (g := g) (List.subset_append_right _ _) (le_max_right _ _)
        (le_max_right _ _)
      rw [holds, holds, ihf hf, ihg hg]
  | or f g ihf ihg =>
      have hf := h.present (g := f) (List.subset_append_left _ _) (le_max_left _ _) (le_max_left _ _)
      have hg := h.present (g := g) (List.subset_append_right _ _) (le_max_right _ _)
        (le_max_right _ _)
      rw [holds, holds, ihf hf, ihg hg]
  | next f ih =>
      obtain ⟨ends, there⟩ := h.next
      rw [holds, holds]
      by_cases hs : t < s.horizon.last
      · simp only [hs, ends.mp hs, ih (there hs)]
      · have hs' : ¬ t < s'.horizon.last := fun hs' => hs (ends.mpr hs')
        simp only [hs, hs', decide_false, Bool.false_and]
  | globally I f ih =>
      rw [Bool.eq_iff_iff, holds_globally, holds_globally]
      refine forall_congr' fun r => ?_
      rw [← h.mem_future_iff le_self_add]
      refine imp_congr_right fun hr => ?_
      rw [ih (h.future hr (Interval.reach_of_mem_future hr).1 le_rfl (List.Subset.refl _) le_rfl
        le_rfl)]
  | eventually I f ih =>
      rw [Bool.eq_iff_iff, holds_eventually, holds_eventually]
      refine exists_congr fun r => ?_
      rw [← h.mem_future_iff le_self_add]
      refine and_congr_right fun hr => ?_
      rw [ih (h.future hr (Interval.reach_of_mem_future hr).1 le_rfl (List.Subset.refl _) le_rfl
        le_rfl)]
  | «until» I f g ihf ihg =>
      have left : I.upper.toENat + f.futureReach ≤ (Formula.until I f g).futureReach := by
        rw [futureReach]
        gcongr
        exact le_max_left _ _
      have right : I.upper.toENat + g.futureReach ≤ (Formula.until I f g).futureReach := by
        rw [futureReach]
        gcongr
        exact le_max_right _ _
      rw [Bool.eq_iff_iff, holds_until, holds_until]
      refine exists_congr fun r => ?_
      rw [← h.mem_future_iff le_self_add]
      refine and_congr_right fun hr => ?_
      have htr := (Interval.reach_of_mem_future hr).1
      rw [ihg (h.future hr htr le_rfl (List.subset_append_right _ _) right (le_max_right _ _))]
      refine and_congr_right fun _ => forall_congr' fun q => ?_
      refine imp_congr_right fun htq => imp_congr_right fun hqr => ?_
      rw [ihf (h.future hr htq hqr.le (List.subset_append_left _ _) left (le_max_left _ _))]
  | since I f g ihf ihg =>
      have left : I.upper.toENat + f.pastReach ≤ (since I f g).pastReach := by
        rw [pastReach]
        gcongr
        exact le_max_left _ _
      have right : I.upper.toENat + g.pastReach ≤ (since I f g).pastReach := by
        rw [pastReach]
        gcongr
        exact le_max_right _ _
      rw [Bool.eq_iff_iff, holds_since, holds_since]
      refine exists_congr fun r => and_congr_right fun hr => ?_
      have hrt := (Interval.reach_of_mem_past hr).1
      rw [ihg (h.past hr le_rfl hrt (List.subset_append_right _ _) (le_max_right _ _) right)]
      refine and_congr_right fun _ => forall_congr' fun q => ?_
      refine imp_congr_right fun hrq => imp_congr_right fun hqt => ?_
      rw [ihf (h.past hr hrq.le hqt (List.subset_append_left _ _) (le_max_left _ _) left)]

/-- On traces that end together, only the atoms of a formula matter. -/
lemma holds_eq_of_agree (horizon : s.horizon = s'.horizon) (ht : t ≤ s.horizon.last)
    (agree : ∀ a ∈ f.atoms, ∀ r, s.holds a r = s'.holds a r) : f.holds s t = f.holds s' t := by
  refine SameCone.holds_eq ⟨le_min ht (horizon ▸ ht), Or.inl horizon, ?_⟩
  exact fun a ha r _ _ _ => agree a ha r

end Formula

namespace Arena

/-- **Cone of influence**: a stored formula has the same value at a tick of two traces
that agree on its atoms as far as it looks, if they end together or after all that it
may look at. -/
theorem holds?_eq_of_cone {A : Arena} (built : A.Built) {id : NodeId} {f : Formula}
    (stored : A.formula? id = some f) {s s' : Trace} {t : ℕ}
    (now : t ≤ min s.horizon.last s'.horizon.last)
    (ends : s.horizon = s'.horizon
      ∨ (t : ℕ∞) + f.futureReach ≤ (min s.horizon.last s'.horizon.last : ℕ))
    (agree : ∀ a ∈ A.atomsOf id, ∀ r ≤ min s.horizon.last s'.horizon.last,
      (t : ℕ∞) ≤ r + f.pastReach → (r : ℕ∞) ≤ t + f.futureReach → s.holds a r = s'.holds a r) :
    A.holds? id s t = A.holds? id s' t := by
  have cone : Formula.SameCone s s' f t :=
    ⟨now, ends, fun a ha => agree a (built.wellFormed.mem_atomsOf_of_mem_atoms stored ha)⟩
  rw [holds?_of_formula? stored, holds?_of_formula? stored, cone.holds_eq]

/-- `F[0,1] (a S[1,2] b)` at tick `3` looks at the ticks from `1` to `4` only: the two
traces differ at tick `0` and after tick `4`, and have different ends. -/
theorem holds?_eq_of_cone_since :
    let A := build ∅ [.add (.atom "a"), .add (.atom "b"),
      .add (.since ⟨1, .finite 2, by decide⟩ 0 1), .add (.eventually ⟨0, .finite 1, by decide⟩ 2)]
    let s := Trace.ofBits ⟨4⟩ ["a", "b"] 96
    let s' := Trace.ofBits ⟨9⟩ ["a", "b"] 32865
    s.holds "a" 0 ≠ s'.holds "a" 0 ∧ s.horizon ≠ s'.horizon
      ∧ A.holds? 3 s 3 = some true ∧ A.holds? 3 s' 3 = some true := by
  intro A s s'
  have here : A.holds? 3 s 3 = some true := by decide
  refine ⟨by decide, by decide, here, ?_⟩
  rw [← here]
  refine (holds?_eq_of_cone ⟨_, rfl⟩ rfl (by decide) (Or.inr ?_) ?_).symm
  · decide
  · intro a ha r hr hpast _
    have hpast : (3 : ℕ∞) ≤ r + 2 := hpast
    norm_cast at hpast
    have same : ∀ a ∈ ["a", "b"], ∀ r ≤ 4, 1 ≤ r → s'.holds a r = s.holds a r := by decide
    have atoms : ∀ id < A.size, ∀ name ∈ A.atom? id, name ∈ ["a", "b"] := by decide
    obtain ⟨id, hid, hname⟩ := exists_atom?_of_mem_atomsOf ha
    exact (same a (atoms id hid a hname) r hr (by omega)).symm

end Arena

end BoundedTemporal
