/-
What the end of a trace does to a formula.

A window into the future is cut at the last tick, so a longer trace offers more
witnesses and makes more demands. Which of the two a formula feels is a matter
of its operators.

* `Formula.isCoSafe`, `Formula.isSafe`: formulas that only look for witnesses,
  and formulas that only make demands. Negation turns one into the other;
* `Trace.Extends`: a trace that goes on where another one ends;
* `Formula.holds_of_extends`: a longer trace keeps what a co-safe formula has
  found, and a shorter one keeps what a safe formula demands;
* `Arena.holds?_of_extends`: the same for stored formulas.
-/
import BoundedTemporal.Arena.Build
import Mathlib.Tactic.Lemma

namespace BoundedTemporal

/-- A trace that agrees with `s` on all ticks of `s`, and may go on after
them. -/
structure Trace.Extends (s' s : Trace) : Prop where
  last_le : s.horizon.last ≤ s'.horizon.last
  holds_eq : ∀ a, ∀ t ≤ s.horizon.last, s'.holds a t = s.holds a t

/-- A later end cuts off less. -/
lemma Interval.mem_future_of_le {I : Interval} {t last last' r : Nat} (h : last ≤ last')
    (hr : r ∈ I.future t last) : r ∈ I.future t last' := by
  rw [mem_future] at hr ⊢
  exact ⟨hr.1, hr.2.1, Nat.le_trans hr.2.2 h⟩

namespace Formula

mutual

/-- Formulas whose truth rests on witnesses: every way to hold is found on
finitely many ticks. -/
def isCoSafe : Formula → Bool
  | atom _ => true
  | not f => f.isSafe
  | and f g => f.isCoSafe && g.isCoSafe
  | or f g => f.isCoSafe && g.isCoSafe
  | next f => f.isCoSafe
  | globally _ _ => false
  | eventually _ f => f.isCoSafe
  | .until _ f g => f.isCoSafe && g.isCoSafe
  | since _ f g => f.isCoSafe && g.isCoSafe

/-- Formulas whose truth rests on demands: every way to fail is found on
finitely many ticks. -/
def isSafe : Formula → Bool
  | atom _ => true
  | not f => f.isCoSafe
  | and f g => f.isSafe && g.isSafe
  | or f g => f.isSafe && g.isSafe
  | next _ => false
  | globally _ f => f.isSafe
  | eventually _ _ => false
  | .until _ _ _ => false
  | since _ f g => f.isSafe && g.isSafe

end

/-- **Truncation is one-sided**: what a co-safe formula has found on a trace stays
found when the trace goes on, and what a safe formula grants on the longer trace
it grants on the shorter one. -/
lemma holds_of_extends {s s' : Trace} (longer : s'.Extends s) (f : Formula) {t : Nat}
    (ht : t ≤ s.horizon.last) :
    (f.isCoSafe = true → f.holds s t = true → f.holds s' t = true)
      ∧ (f.isSafe = true → f.holds s' t = true → f.holds s t = true) := by
  -- negation exchanges the two directions, so both go through the induction together
  induction f generalizing t with
  | atom name =>
      have h := longer.holds_eq name t ht
      simp only [holds, h]
      exact ⟨fun _ h => h, fun _ h => h⟩
  | not f ih =>
      simp only [isCoSafe, isSafe, holds, Bool.not_eq_true', ← Bool.not_eq_true]
      exact ⟨fun hf h h' => h ((ih ht).2 hf h'), fun hf h h' => h ((ih ht).1 hf h')⟩
  | and f g ihf ihg =>
      simp only [isCoSafe, isSafe, holds, Bool.and_eq_true]
      exact ⟨fun hs h => ⟨(ihf ht).1 hs.1 h.1, (ihg ht).1 hs.2 h.2⟩,
        fun hs h => ⟨(ihf ht).2 hs.1 h.1, (ihg ht).2 hs.2 h.2⟩⟩
  | or f g ihf ihg =>
      simp only [isCoSafe, isSafe, holds, Bool.and_eq_true, Bool.or_eq_true]
      exact ⟨fun hs h => h.imp ((ihf ht).1 hs.1) ((ihg ht).1 hs.2),
        fun hs h => h.imp ((ihf ht).2 hs.1) ((ihg ht).2 hs.2)⟩
  | next f ih =>
      refine ⟨fun hf h => ?_, fun hf => (by cases hf)⟩
      simp only [holds, Bool.and_eq_true, decide_eq_true_eq] at h ⊢
      exact ⟨Nat.lt_of_lt_of_le h.1 longer.last_le, (ih h.1).1 hf h.2⟩
  | globally I f ih =>
      refine ⟨fun hf => (by cases hf), fun hf h => ?_⟩
      rw [holds_globally] at h ⊢
      intro r hr
      have hr' := Interval.le_last_of_mem_future hr
      exact (ih hr').2 hf (h r (Interval.mem_future_of_le longer.last_le hr))
  | eventually I f ih =>
      refine ⟨fun hf h => ?_, fun hf => (by cases hf)⟩
      rw [holds_eventually] at h ⊢
      obtain ⟨r, hr, h⟩ := h
      have hr' := Interval.le_last_of_mem_future hr
      exact ⟨r, Interval.mem_future_of_le longer.last_le hr, (ih hr').1 hf h⟩
  | «until» I f g ihf ihg =>
      refine ⟨fun hs h => ?_, fun hs => (by cases hs)⟩
      rw [isCoSafe, Bool.and_eq_true] at hs
      rw [holds_until] at h ⊢
      obtain ⟨r, hr, hg, hf⟩ := h
      have hr' := Interval.le_last_of_mem_future hr
      refine ⟨r, Interval.mem_future_of_le longer.last_le hr, (ihg hr').1 hs.2 hg, ?_⟩
      intro q htq hqr
      exact (ihf (by omega)).1 hs.1 (hf q htq hqr)
  | since I f g ihf ihg =>
      -- the past is never cut at the end, so the witness is the same on both traces
      have key : ∀ {r}, r ∈ I.past t → r ≤ s.horizon.last := fun hr =>
        Nat.le_trans (Interval.le_of_mem_past hr) ht
      simp only [isCoSafe, isSafe, Bool.and_eq_true, holds_since]
      constructor
      · rintro hs ⟨r, hr, hg, hf⟩
        exact ⟨r, hr, (ihg (key hr)).1 hs.2 hg,
          fun q hrq hqt => (ihf (Nat.le_trans hqt ht)).1 hs.1 (hf q hrq hqt)⟩
      · rintro hs ⟨r, hr, hg, hf⟩
        exact ⟨r, hr, (ihg (key hr)).2 hs.2 hg,
          fun q hrq hqt => (ihf (Nat.le_trans hqt ht)).2 hs.1 (hf q hrq hqt)⟩

end Formula

namespace Arena

/-- **Truncation at the horizon is one-sided**: at the ticks of a trace, a stored
co-safe formula that holds still holds on every longer trace, and a stored safe
formula that holds on a longer trace holds already. -/
theorem holds?_of_extends {A : Arena} {id : NodeId} {f : Formula} (stored : A.formula? id = some f)
    {s s' : Trace} (longer : s'.Extends s) {t : Nat} (ht : t ≤ s.horizon.last) :
    (f.isCoSafe = true → A.holds? id s t = some true → A.holds? id s' t = some true)
      ∧ (f.isSafe = true → A.holds? id s' t = some true → A.holds? id s t = some true) := by
  simp only [holds?_of_formula? stored, Option.some.injEq]
  exact f.holds_of_extends longer ht

/-- A trace that is busy at its last tick, and a longer one that stays so for two more ticks.
Where the window is cut at the end of the first trace, it finds nothing and demands nothing;
the second one finds more there, and demands more. -/
theorem holds?_of_extends_busy :
    let A := build ∅ [.add (.atom "busy"), .add (.eventually ⟨1, .finite 5, by decide⟩ 0),
      .add (.globally ⟨1, .finite 3, by decide⟩ 0)]
    let busy : AtomSet := .ofList ["busy"]
    let s : Trace := ⟨⟨2⟩, #v[∅, ∅, busy]⟩
    let s' : Trace := ⟨⟨7⟩, #v[∅, ∅, busy, busy, busy, ∅, ∅, ∅]⟩
    s'.Extends s
      ∧ (A.holds? 1 s 0 = some true ∧ A.holds? 1 s' 0 = some true)
      ∧ (A.holds? 2 s' 1 = some true ∧ A.holds? 2 s 1 = some true)
      ∧ (A.holds? 1 s 2 = some false ∧ A.holds? 1 s' 2 = some true)
      ∧ (A.holds? 2 s' 2 = some false ∧ A.holds? 2 s 2 = some true) := by
  intro A busy s s'
  have longer : s'.Extends s := by
    refine ⟨by decide, fun a t ht => ?_⟩
    match t, ht with
    | 0, _ | 1, _ | 2, _ => rfl
  have found : A.holds? 1 s 0 = some true := by decide +kernel
  have granted : A.holds? 2 s' 1 = some true := by decide +kernel
  have kept := (holds?_of_extends rfl longer (Nat.zero_le 2)).1 rfl found
  have demanded := (holds?_of_extends rfl longer (Nat.le_succ 1)).2 rfl granted
  exact ⟨longer, ⟨found, kept⟩, ⟨granted, demanded⟩, by decide +kernel, by decide +kernel⟩

end Arena

end BoundedTemporal
