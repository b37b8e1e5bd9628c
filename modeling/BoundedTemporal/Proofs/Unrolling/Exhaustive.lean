/-
Comparing two formulas on the enumerated traces.

* `Arena.WellFormed.value_eq_of_agree`: a stored formula looks at nothing but its atoms;
* `Unrolling.agree_on_enumeration_iff`: the values of two unrollings agree on all enumerated
  traces exactly when the formulas hold at the same ticks of all traces, if their atoms are
  listed.
-/
import BoundedTemporal.Proofs.Formula.Cone
import BoundedTemporal.Proofs.Trace.Bits
import BoundedTemporal.Proofs.Unrolling.Evaluation

namespace BoundedTemporal

/-- Traces that end together and agree on the atoms of a stored formula give it one value. -/
lemma Arena.WellFormed.value_eq_of_agree {A : Arena} (wf : A.WellFormed) {id : NodeId}
    {s s' : Trace} {t : Nat} (stored : id < A.size) (horizon : s.horizon = s'.horizon)
    (ht : t ≤ s.horizon.last) (agree : ∀ a ∈ A.atomsOf id, ∀ r, s.holds a r = s'.holds a r) :
    A.value s id t = A.value s' id t := by
  obtain ⟨f, hf⟩ := wf.exists_formula? stored
  have atoms : ∀ a ∈ f.atoms, ∀ r, s.holds a r = s'.holds a r :=
    fun a ha => agree a (wf.mem_atomsOf_of_mem_atoms hf ha)
  rw [value_of_formula? hf, value_of_formula? hf, Formula.holds_eq_of_agree horizon ht atoms]

namespace Unrolling

variable {A : Arena} {i p : NodeId} {H : Horizon} {atoms : List Atom} {E : Enumeration}
  {scope scope' : String} {P P' : Plan}

/-- **Checking the enumerated traces is conclusive.** If the atoms of two formulas are among
the listed ones, both unrollings can be evaluated on all enumerated traces. The values of the
two roots agree there exactly when the formulas hold at the same ticks of all traces of the
horizon, whatever else is true on them. -/
theorem agree_on_enumeration_iff (built : A.Built) (listed : ∀ a ∈ A.atomsOf i, a ∈ atoms)
    (listed' : ∀ a ∈ A.atomsOf p, a ∈ atoms) (made : Enumeration.make? H atoms = some E)
    (plan : Plan.make A i H scope = .ok P) (plan' : Plan.make A p H scope' = .ok P')
    (n n' : Nat) :
    let U := apply^[n + 1] (ofPlan P)
    let U' := apply^[n' + 1] (ofPlan P')
    (∀ tr ∈ E.toList, ∃ V V', U.evaluate tr = .ok V ∧ U'.evaluate tr = .ok V')
      ∧ ((∀ tr ∈ E.toList, ∀ V V', U.evaluate tr = .ok V → U'.evaluate tr = .ok V' →
            ∀ t ≤ H.last, V.get? i t = V'.get? p t)
        ↔ ∀ s : Trace, s.horizon = H → ∀ t ≤ H.last,
            ∃ b, A.holds? i s t = some b ∧ A.holds? p s t = some b) := by
  intro U U'
  have accepted : P.Accepted := ⟨A, i, H, scope, built, plan⟩
  have accepted' : P'.Accepted := ⟨A, p, H, scope', built, plan'⟩
  obtain ⟨hi, -, -, rfl⟩ := Plan.make_eq_ok_iff.mp plan
  obtain ⟨hp, -, -, rfl⟩ := Plan.make_eq_ok_iff.mp plan'
  have root := accepted.root_mem
  have root' := accepted'.root_mem
  have ends : ∀ tr ∈ E.toList, tr.horizon = H := by
    obtain ⟨-, rfl⟩ := Enumeration.make?_eq_some_iff.mp made
    exact fun tr mem => Enumeration.horizon_of_mem_toList mem
  refine ⟨fun tr mem => ?_, fun agree s hs t ht => ?_, fun same tr mem V V' hV hV' t ht => ?_⟩
  · obtain ⟨V, hV, -⟩ := exists_evaluate accepted n (ends tr mem)
    obtain ⟨V', hV', -⟩ := exists_evaluate accepted' n' (ends tr mem)
    exact ⟨V, V', hV, hV'⟩
  · -- an enumerated trace shows the listed atoms as `s` does
    obtain ⟨tr, mem, shown⟩ := Enumeration.exists_mem_of_horizon_eq made hs
    have horizon : tr.horizon = s.horizon := (ends tr mem).trans hs.symm
    have ht' : t ≤ tr.horizon.last := by rwa [ends tr mem]
    obtain ⟨V, hV, values⟩ := exists_evaluate accepted n (ends tr mem)
    obtain ⟨V', hV', values'⟩ := exists_evaluate accepted' n' (ends tr mem)
    have roots : A.value tr i t = A.value tr p t := by
      have h := agree tr mem V V' hV hV' t ht
      rw [values i root t ht, values' p root' t ht] at h
      exact Option.some.inj h
    have left : A.value tr i t = A.value s i t :=
      built.wellFormed.value_eq_of_agree hi horizon ht' fun a ha => shown a (listed a ha)
    have right : A.value tr p t = A.value s p t :=
      built.wellFormed.value_eq_of_agree hp horizon ht' fun a ha => shown a (listed' a ha)
    refine ⟨A.value s i t, accepted.holds?_eq root s t, ?_⟩
    rw [← left, roots, right]
    exact accepted'.holds?_eq root' s t
  · obtain ⟨W, hW, values⟩ := exists_evaluate accepted n (ends tr mem)
    obtain ⟨W', hW', values'⟩ := exists_evaluate accepted' n' (ends tr mem)
    cases hV.symm.trans hW
    cases hV'.symm.trans hW'
    obtain ⟨b, hb, hb'⟩ := same tr (ends tr mem) t ht
    rw [values i root t ht, values' p root' t ht, ← accepted.holds?_eq root tr t,
      ← accepted'.holds?_eq root' tr t]
    exact hb.trans hb'.symm

/-- `(a U[0,1] b)` and `b` differ on a trace up to tick `1`, so they differ on one of the
traces that are enumerated over `b`, `a` and `b` again. -/
theorem agree_on_enumeration_iff_until :
    let A := Arena.build ∅ [.add (.atom "a"), .add (.atom "b"),
      .add (.until ⟨0, .finite 1, by decide⟩ 0 1)]
    ∃ E P P', Enumeration.make? ⟨1⟩ ["b", "a", "b"] = some E
      ∧ Plan.make A 2 ⟨1⟩ "l" = .ok P ∧ Plan.make A 1 ⟨1⟩ "r" = .ok P'
      ∧ (∀ a ∈ A.atomsOf 2, a ∈ ["b", "a", "b"]) ∧ (∀ a ∈ A.atomsOf 1, a ∈ ["b", "a", "b"])
      ∧ ∃ tr ∈ E.toList, ∃ V V', (ofPlan P).apply.evaluate tr = .ok V
        ∧ (ofPlan P').apply.evaluate tr = .ok V' ∧ ∃ t ≤ 1, V.get? 2 t ≠ V'.get? 1 t := by
  intro A
  let P : Plan := ⟨A, 2, ⟨1⟩, "l", A.descendants 2⟩
  let P' : Plan := ⟨A, 1, ⟨1⟩, "r", A.descendants 1⟩
  have plan : Plan.make A 2 ⟨1⟩ "l" = .ok P :=
    Plan.make_eq_ok (by decide) (by decide) (by decide)
  have plan' : Plan.make A 1 ⟨1⟩ "r" = .ok P' :=
    Plan.make_eq_ok (by decide) (by decide) (by decide)
  have listed (id : NodeId) : ∀ a ∈ A.atomsOf id, a ∈ ["b", "a", "b"] :=
    Arena.forall_mem_atomsOf (by decide)
  obtain ⟨-, conclusive⟩ :=
    agree_on_enumeration_iff ⟨_, rfl⟩ (listed 2) (listed 1) rfl plan plan' 0 0
  refine ⟨_, P, P', rfl, plan, plan', listed 2, listed 1, ?_⟩
  by_contra unseen
  push Not at unseen
  -- `b` holds at the last tick only, and `a` before it
  obtain ⟨b, hb, hb'⟩ := conclusive.mp unseen (.ofBits ⟨1⟩ ["a", "b"] 9) rfl 0 (by decide)
  have first : A.holds? 2 (.ofBits ⟨1⟩ ["a", "b"] 9) 0 = some true := by decide
  have second : A.holds? 1 (.ofBits ⟨1⟩ ["a", "b"] 9) 0 = some false := by decide
  rw [first] at hb
  rw [second, ← hb] at hb'
  cases hb'

end Unrolling

end BoundedTemporal
