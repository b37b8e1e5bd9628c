/-
Unrollings that have been applied.

* `Unrolling.apply_iterate_ofPlan`, `Plan.Accepted.apply_iterate`: once an unrolling has been
  applied, it has the encoding of its plan, however often it is applied again;
* `Unrolling.theta_eq_ok`, `Unrolling.definition?_eq_ok`: the literals and the
  definitions of an applied unrolling are those of the closed form;
* `Plan.Accepted.theta_apply`, `Plan.Accepted.definition?_apply`: the same, for an
  accepted plan;
* `Encoding.FilledBy.mem_constraints_iff`: its constraints are the definitions of
  the nodes at the ticks of the horizon.
-/
import BoundedTemporal.Unrolling.Basic
import BoundedTemporal.Proofs.Encoding.ClosedForm
import Mathlib.Logic.Function.Iterate

namespace BoundedTemporal

variable {P : Plan} {E : Encoding} {id : NodeId} {t : Nat}

/-- Applying once is enough: an unrolling that has been applied has the encoding of its plan,
if there is one. -/
lemma Unrolling.apply_iterate_ofPlan (P : Plan) (n : Nat) :
    apply^[n + 1] (ofPlan P) = ⟨P, P.encode?⟩ := by
  have again : apply ⟨P, P.encode?⟩ = ⟨P, P.encode?⟩ := by
    cases h : P.encode? with
    | some E => rfl
    | none => simp only [apply, h]
  induction n with
  | zero => rfl
  | succ n ih => rw [Function.iterate_succ_apply', ih, again]

/-- **After it has been applied**, an unrolling of an accepted plan has the encoding of
the plan. -/
lemma Plan.Accepted.apply_iterate (accepted : P.Accepted) :
    ∃ E, Encoding.FilledBy P E P.slots
      ∧ ∀ n, Unrolling.apply^[n + 1] (.ofPlan P) = ⟨P, some E⟩ := by
  obtain ⟨E, h, filled⟩ := accepted.exists_encode?
  exact ⟨E, filled, fun n => by rw [Unrolling.apply_iterate_ofPlan, h]⟩

/-! ### Questions about a node -/

namespace Encoding

/-- The cell of a node at a tick of the horizon. -/
lemma FilledBy.cell?_eq_some (filled : FilledBy P E P.slots) (hid : id ∈ P.nodes)
    (ht : t ≤ P.horizon.last) : E.cell? id t = some (P.slotCell id t) := by
  rw [filled.cell?_eq, if_pos (Plan.mem_slots.mpr ⟨hid, ht⟩)]

/-- **The constraints of an encoding** are the definitions of its nodes. -/
lemma FilledBy.mem_constraints_iff (filled : FilledBy P E P.slots) {c : Constraint} :
    c ∈ E.constraints.toList
      ↔ ∃ id ∈ P.nodes, ∃ t ≤ P.horizon.last, (P.slotCell id t).constraint? = some c := by
  rw [filled.constraints_eq, List.mem_filterMap]
  constructor
  · rintro ⟨⟨id, t⟩, mem, hc⟩
    obtain ⟨hid, ht⟩ := Plan.mem_slots.mp mem
    exact ⟨id, hid, t, ht, hc⟩
  · rintro ⟨id, hid, t, ht, hc⟩
    exact ⟨(id, t), Plan.mem_slots.mpr ⟨hid, ht⟩, hc⟩

end Encoding

namespace Unrolling

variable (filled : Encoding.FilledBy P E P.slots) (hid : id ∈ P.nodes) (ht : t ≤ P.horizon.last)
include filled hid ht

lemma cell_eq_ok : cell ⟨P, some E⟩ id t = .ok (P.slotCell id t) := by
  have h := filled.cell?_eq_some hid ht
  simp only [cell, encoding, bind, Except.bind, h]
  rfl

lemma theta_eq_ok : theta ⟨P, some E⟩ id t = .ok (P.literal id t) := by
  rw [theta, cell_eq_ok filled hid ht]
  rfl

lemma definition?_eq_ok : definition? ⟨P, some E⟩ id t = .ok (P.definition? id t) := by
  rw [definition?, cell_eq_ok filled hid ht]
  rfl

end Unrolling

namespace Plan.Accepted

variable (accepted : P.Accepted) (n : Nat) (hid : id ∈ P.nodes) (ht : t ≤ P.horizon.last)
include accepted hid ht

/-- The literal of a node, however often the unrolling has been applied. -/
lemma theta_apply : (Unrolling.apply^[n + 1] (.ofPlan P)).theta id t = .ok (P.literal id t) := by
  obtain ⟨E, filled, applied⟩ := accepted.apply_iterate
  rw [applied n, Unrolling.theta_eq_ok filled hid ht]

/-- The definition of a node, however often the unrolling has been applied. -/
lemma definition?_apply :
    (Unrolling.apply^[n + 1] (.ofPlan P)).definition? id t = .ok (P.definition? id t) := by
  obtain ⟨E, filled, applied⟩ := accepted.apply_iterate
  rw [applied n, Unrolling.definition?_eq_ok filled hid ht]

end Plan.Accepted

end BoundedTemporal
