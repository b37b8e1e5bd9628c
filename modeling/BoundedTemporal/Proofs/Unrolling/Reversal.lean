/-
Unrollings of a formula and of its mirror image.

* `Arena.holds?_mirror`: the meaning of a stored mirror image;
* `Unrolling.evaluate_mirror`: a formula on a trace and its mirror image on the
  reversed trace have the same values at opposite ticks, both in their meaning and
  when their constraints are evaluated.
-/
import BoundedTemporal.Proofs.Arena.Store
import BoundedTemporal.Proofs.Formula.Reversal
import BoundedTemporal.Proofs.Unrolling.Evaluation

namespace BoundedTemporal

/-- The stored mirror image of a stored formula has the meaning of the formula, read from
the other end of the trace. -/
lemma Arena.holds?_mirror {A : Arena} {id m : NodeId} {f : Formula}
    (stored : A.formula? id = some f) (mirrored : A.formula? m = some f.mirror) {s : Trace}
    {t : Nat} (ht : t ≤ s.horizon.last) :
    A.holds? m s.reverse (s.horizon.last - t) = A.holds? id s t := by
  rw [holds?_of_formula? mirrored, holds?_of_formula? stored, f.holds_mirror s ht]

namespace Unrolling

/-- **Time reversal.** Next to every stored formula its mirror image can be stored. Wherever
that has been done, the mirror image holds on the reversed trace exactly when the formula
holds at the opposite tick of the trace; and whenever both have been unrolled up to the
same horizon, their evaluations give them these values. -/
theorem evaluate_mirror {A : Arena} (built : A.Built) {id : NodeId} {f : Formula}
    (stored : A.formula? id = some f) :
    (∃ history m, (A.build history).formula? id = some f
        ∧ (A.build history).formula? m = some f.mirror)
      ∧ ∀ m, A.formula? m = some f.mirror → ∀ (H : Horizon) (s : Trace), s.horizon = H →
          (∀ a, ∀ r ≤ H.last, s.reverse.holds a r = s.holds a (H.last - r))
          ∧ (∀ t ≤ H.last, ∃ b, A.holds? id s t = some b
            ∧ A.holds? m s.reverse (H.last - t) = some b)
          ∧ ∀ scope scope' P P', Plan.make A id H scope = .ok P → Plan.make A m H scope' = .ok P' →
              ∀ n n', ∃ V V', (apply^[n + 1] (ofPlan P)).evaluate s = .ok V
                ∧ (apply^[n' + 1] (ofPlan P')).evaluate s.reverse = .ok V'
                ∧ ∀ t ≤ H.last, ∃ b, V.get? id t = some b ∧ V'.get? m (H.last - t) = some b := by
  refine ⟨?_, fun m mirrored H s horizon => ⟨?_, ?_, ?_⟩⟩
  · obtain ⟨history, m, mirrored⟩ := built.exists_build f.mirror
    exact ⟨history, m, (A.extends_build history).formula?_eq_some stored, mirrored⟩
  · intro a r hr
    subst horizon
    exact s.holds_reverse a hr
  · intro t ht
    subst horizon
    refine ⟨A.value s id t, Arena.holds?_eq_some_value stored s t, ?_⟩
    rw [Arena.holds?_mirror stored mirrored ht, Arena.holds?_eq_some_value stored s t]
  · intro scope scope' P P' made made' n n'
    have accepted : P.Accepted := ⟨A, id, H, scope, built, made⟩
    have accepted' : P'.Accepted := ⟨A, m, H, scope', built, made'⟩
    have root := accepted.root_mem
    have root' := accepted'.root_mem
    obtain ⟨-, -, -, rfl⟩ := Plan.make_eq_ok_iff.mp made
    obtain ⟨-, -, -, rfl⟩ := Plan.make_eq_ok_iff.mp made'
    have horizon' : s.reverse.horizon = H := horizon
    obtain ⟨V, result, values⟩ := exists_evaluate accepted n horizon
    obtain ⟨V', result', values'⟩ := exists_evaluate accepted' n' horizon'
    refine ⟨V, V', result, result', fun t ht => ⟨A.value s id t, values id root t ht, ?_⟩⟩
    rw [values' m root' (H.last - t) (Nat.sub_le H.last t)]
    subst horizon
    rw [Arena.value, Arena.holds?_mirror stored mirrored ht, Arena.value]

/-- `G[1,3] a` on a trace with three ticks, on which `a` does not hold at first: the window
is cut at the last tick, and the property holds at the first one. Its mirror image
`!((a | !a) S[1,3] !a)` holds at the last tick of the reversed trace, where the window is cut at
tick zero. -/
theorem evaluate_mirror_globally :
    let I : Interval := ⟨1, .finite 3, by decide⟩
    let A := Arena.build ∅ [.add (.atom "a"), .add (.globally I 0), .add (.not 0), .add (.or 0 2),
      .add (.since I 3 2), .add (.not 4)]
    let s := Trace.ofBits ⟨2⟩ ["a"] 6
    ∃ P P' V V', Plan.make A 1 ⟨2⟩ "theta" = .ok P ∧ Plan.make A 5 ⟨2⟩ "theta" = .ok P'
      ∧ (ofPlan P).apply.evaluate s = .ok V ∧ (ofPlan P').apply.evaluate s.reverse = .ok V'
      ∧ A.holds? 1 s 0 = some true ∧ A.holds? 5 s.reverse 2 = some true
      ∧ ∃ b, V.get? 1 0 = some b ∧ V'.get? 5 2 = some b := by
  intro I A s
  let P : Plan := ⟨A, 1, ⟨2⟩, "theta", A.descendants 1⟩
  let P' : Plan := ⟨A, 5, ⟨2⟩, "theta", A.descendants 5⟩
  have made : Plan.make A 1 ⟨2⟩ "theta" = .ok P :=
    Plan.make_eq_ok (by decide) (by decide) (by decide)
  have made' : Plan.make A 5 ⟨2⟩ "theta" = .ok P' :=
    Plan.make_eq_ok (by decide) (by decide) (by decide)
  have stored : A.formula? 1 = some (.globally I (.atom "a")) := by decide
  obtain ⟨-, reversed⟩ := evaluate_mirror ⟨_, rfl⟩ stored
  obtain ⟨-, meaning, values⟩ := reversed 5 (by decide) ⟨2⟩ s rfl
  obtain ⟨V, V', result, result', agree⟩ := values "theta" "theta" P P' made made' 0 0
  obtain ⟨b, hb, hm⟩ := meaning 0 (Nat.zero_le 2)
  have holds : A.holds? 1 s 0 = some true := by decide
  cases hb.symm.trans holds
  exact ⟨P, P', V, V', made, made', result, result', holds, hm, agree 0 (Nat.zero_le 2)⟩

end Unrolling

end BoundedTemporal
