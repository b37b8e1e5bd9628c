/-
Unrollings of a formula and of its primitive form.

* `Arena.holds?_primitive`: the meaning of a stored formula without derived operators;
* `Unrolling.evaluate_primitive`: a formula and its primitive form hold at the same ticks of
  all traces, both in their meaning and when their constraints are evaluated.
-/
import BoundedTemporal.Proofs.Arena.Store
import BoundedTemporal.Proofs.Formula.Primitive
import BoundedTemporal.Proofs.Unrolling.Evaluation

namespace BoundedTemporal

/-- The stored primitive form of a stored formula has the meaning of the formula. -/
lemma Arena.holds?_primitive {A : Arena} {id p : NodeId} {f : Formula}
    (stored : A.formula? id = some f) (spelled : A.formula? p = some f.primitive) (tr : Trace)
    (t : Nat) : A.holds? p tr t = A.holds? id tr t := by
  rw [holds?_of_formula? spelled, holds?_of_formula? stored, f.holds_primitive tr]

namespace Unrolling

/-- **Derived operators can be spelled out.** Next to every stored formula its primitive form
can be stored. Wherever that has been done, both hold at the same ticks of every trace; and
whenever both have been unrolled up to the same horizon, their evaluations give them the same
values. -/
theorem evaluate_primitive {A : Arena} (built : A.Built) {id : NodeId} {f : Formula}
    (stored : A.formula? id = some f) :
    f.primitive.isPrimitive = true
      ∧ (∃ history p, (A.build history).formula? id = some f
        ∧ (A.build history).formula? p = some f.primitive)
      ∧ ∀ p, A.formula? p = some f.primitive → ∀ (H : Horizon) (s : Trace), s.horizon = H →
          (∀ t ≤ H.last, ∃ b, A.holds? id s t = some b ∧ A.holds? p s t = some b)
          ∧ ∀ scope scope' P P', Plan.make A id H scope = .ok P → Plan.make A p H scope' = .ok P' →
              ∀ n n', ∃ V V', (apply^[n + 1] (ofPlan P)).evaluate s = .ok V
                ∧ (apply^[n' + 1] (ofPlan P')).evaluate s = .ok V'
                ∧ ∀ t ≤ H.last, ∃ b, V.get? id t = some b ∧ V'.get? p t = some b := by
  refine ⟨f.isPrimitive_primitive, ?_, fun p spelled H s horizon => ?_⟩
  · obtain ⟨history, p, spelled⟩ := built.exists_build f.primitive
    exact ⟨history, p, (A.extends_build history).formula?_eq_some stored, spelled⟩
  have meaning (t : Nat) : ∃ b, A.holds? id s t = some b ∧ A.holds? p s t = some b := by
    rw [Arena.holds?_primitive stored spelled s t]
    exact ⟨A.value s id t, Arena.holds?_eq_some_value stored s t,
      Arena.holds?_eq_some_value stored s t⟩
  refine ⟨fun t _ => meaning t, fun scope scope' P P' made made' n n' => ?_⟩
  obtain ⟨V, result, values⟩ := exists_evaluate_root built made n horizon
  obtain ⟨V', result', values'⟩ := exists_evaluate_root built made' n' horizon
  refine ⟨V, V', result, result', fun t ht => ?_⟩
  rw [values t ht, values' t ht]
  exact meaning t

/-- `G[1,3] a` and `!((a | !a) U[1,3] !a)` on a trace with three ticks, on which `a` does not
hold at first. At tick `0` both look at the two ticks that are left of the window, and at
tick `2` nothing is left of it: both hold there. -/
theorem evaluate_primitive_globally :
    let I : Interval := ⟨1, .finite 3, by decide⟩
    let A := Arena.build ∅ [.add (.atom "a"), .add (.globally I 0), .add (.not 0), .add (.or 0 2),
      .add (.until I 3 2), .add (.not 4)]
    let s := Trace.ofBits ⟨2⟩ ["a"] 6
    ∃ P P' V V', Plan.make A 1 ⟨2⟩ "theta" = .ok P ∧ Plan.make A 5 ⟨2⟩ "theta" = .ok P'
      ∧ (ofPlan P).apply.evaluate s = .ok V ∧ (ofPlan P').apply.evaluate s = .ok V'
      ∧ A.holds? 5 s 0 = some true ∧ A.holds? 5 s 2 = some true
      ∧ (∃ b, V.get? 1 0 = some b ∧ V'.get? 5 0 = some b)
      ∧ ∃ b, V.get? 1 2 = some b ∧ V'.get? 5 2 = some b := by
  intro I A s
  let P : Plan := ⟨A, 1, ⟨2⟩, "theta", A.descendants 1⟩
  let P' : Plan := ⟨A, 5, ⟨2⟩, "theta", A.descendants 5⟩
  have made : Plan.make A 1 ⟨2⟩ "theta" = .ok P :=
    Plan.make_eq_ok (by decide) (by decide) (by decide)
  have made' : Plan.make A 5 ⟨2⟩ "theta" = .ok P' :=
    Plan.make_eq_ok (by decide) (by decide) (by decide)
  have stored : A.formula? 1 = some (.globally I (.atom "a")) := by decide
  obtain ⟨-, -, spelled⟩ := evaluate_primitive ⟨_, rfl⟩ stored
  obtain ⟨meaning, values⟩ := spelled 5 (by decide) ⟨2⟩ s rfl
  obtain ⟨V, V', result, result', agree⟩ := values "theta" "theta" P P' made made' 0 0
  have holds (t : Nat) (ht : t ≤ 2) (h : A.holds? 1 s t = some true) :
      A.holds? 5 s t = some true := by
    obtain ⟨b, hb, hp⟩ := meaning t ht
    rwa [← h, hb]
  exact ⟨P, P', V, V', made, made', result, result', holds 0 (by decide) (by decide),
    holds 2 (by decide) (by decide), agree 0 (by decide), agree 2 (by decide)⟩

end Unrolling

end BoundedTemporal
