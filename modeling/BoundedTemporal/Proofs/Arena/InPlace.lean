/-
Requests are carried out as a whole or not at all.

A request for an implication stores a negation on the way to the disjunction. Here an arena is
changed in place, and nothing that has been stored is taken back when a request is refused later
on; still, a refused request leaves nothing behind, because all operands are looked up before the
first node is stored.

* `Call.operands`, `Arena.call_eq_error_iff`: a request is refused for the first of its operands
  that is missing, and for nothing else;
* `Arena.pushImplies`, `Arena.implies_eq_ok`: an implication over stored operands is stored as
  two nodes; `Arena.holds?_of_implies`: where it holds;
* `Arena.InPlace`: computations that change an arena in place. `Arena.InPlace.call` is a request
  as such a computation, and `Arena.InPlace.run_call` compares the two;
* `Arena.InPlace.call_exact`: what a request does, in all cases.
-/
import BoundedTemporal.Proofs.Arena.Store

namespace BoundedTemporal

/-- The operands of a request, in the order in which they are looked up: from left to right,
but an implication starts with its right operand. -/
def Call.operands : Call → List NodeId
  | .add node => node.operands
  | .implies a b => [b, a]

namespace Arena

variable {A A' : Arena} {n : Node NodeId} {c : Call} {id a b p : NodeId} {e : Error}
  {f g : Formula}

/-! ### When a request is refused -/

lemma operand_eq_error_iff : A.operand p = .error e ↔ A.size ≤ p ∧ e = .missingOperand p := by
  rw [← formula?_eq_none_iff, operand]
  cases A.formula? p <;> simp [eq_comm]

lemma isOk_operand (A : Arena) (p : NodeId) : (!(A.operand p).isOk) = decide (A.size ≤ p) := by
  cases h : A.operand p with
  | error e => simp [Except.isOk, Except.toBool, (operand_eq_error_iff.mp h).1]
  | ok f =>
      have stored := lt_size_of_formula? (operand_eq_ok_iff.mp h)
      simp [Except.isOk, Except.toBool, stored]

/-- A node is refused for the first of its operands that is missing. -/
lemma add_eq_error_iff : A.add n = .error e ↔
    ∃ p, n.operands.find? (A.size ≤ ·) = some p ∧ e = .missingOperand p := by
  have refused : n.mapM A.operand = .error e ↔
      ∃ p, n.operands.find? (A.size ≤ ·) = some p ∧ e = .missingOperand p := by
    rw [Node.mapM_eq_error_iff]
    simp only [isOk_operand, operand_eq_error_iff]
    refine exists_congr fun p => and_congr_right fun found => and_iff_right ?_
    simpa using List.find?_some found
  unfold add
  split
  · simp [Node.operands]
  · simp [bind_eq_error_iff, refused, pure, Except.pure]

/-- The arena with the nodes of `!a | b` at its end. -/
def pushImplies (A : Arena) (a b : NodeId) (f g : Formula) : Arena :=
  (A.push (.not a) (.not f)).push (.or A.size b) (.or (.not f) g)

lemma formula?_pushImplies (A : Arena) (a b : NodeId) (f g : Formula) :
    (A.pushImplies a b f g).formula? (A.size + 1) = some (.or (.not f) g) := by
  rw [← A.size_push (.not a) (.not f)]
  exact formula?_push_self _ _ _

/-- The first step of an implication. -/
lemma add_not (hf : A.formula? a = some f) :
    A.add (.not a) = .ok (A.size, A.push (.not a) (.not f)) := by
  have layer : (Node.not a).mapM A.formula? = some (.not f) := by simp [Node.mapM, hf]
  exact add_eq_ok rfl layer

/-- The second step: the right operand is still there, and it is not the negation. -/
lemma add_or_push (hg : A.formula? b = some g) :
    (A.push (.not a) (.not f)).add (.or A.size b) = .ok (A.size + 1, A.pushImplies a b f g) := by
  have hg' := (A.extends_push (.not a) (.not f)).formula?_eq_some hg
  have layer : (Node.or A.size b).mapM (A.push (.not a) (.not f)).formula? =
      some (.or (.not f) g) := by
    simp [Node.mapM, formula?_push_self, hg']
  rw [← A.size_push (.not a) (.not f)]
  exact add_eq_ok rfl layer

/-- An implication over stored operands is stored as a negation and a disjunction. -/
lemma implies_eq_ok (hf : A.formula? a = some f) (hg : A.formula? b = some g) :
    A.implies a b = .ok (A.size + 1, A.pushImplies a b f g) := by
  rw [implies, operand_eq_ok_iff.mpr hg, add_not hf]
  exact add_or_push hg

lemma add_not_eq_error (missing : A.size ≤ a) : A.add (.not a) = .error (.missingOperand a) :=
  add_eq_error_iff.mpr ⟨a, by simp [Node.operands, missing], rfl⟩

/-- An implication is refused for its left operand when the right one is stored. -/
lemma implies_eq_error (missing : A.size ≤ a) (hg : A.formula? b = some g) :
    A.implies a b = .error (.missingOperand a) := by
  rw [implies, operand_eq_ok_iff.mpr hg, add_not_eq_error missing]
  rfl

/-- **What an implication stores**: two nodes over operands that were there. -/
lemma implies_cases (h : A.implies a b = .ok (id, A')) :
    ∃ f g, A.formula? a = some f ∧ A.formula? b = some g ∧ id = A.size + 1 ∧
      A' = A.pushImplies a b f g := by
  obtain ⟨g, -, -, hg, -⟩ := exists_of_implies h
  cases hf : A.formula? a with
  | none => cases (implies_eq_error (formula?_eq_none_iff.mp hf) hg).symm.trans h
  | some f =>
      cases (implies_eq_ok hf hg).symm.trans h
      exact ⟨f, g, rfl, hg, rfl, rfl⟩

/-- An implication holds where its left operand does not hold or its right operand holds. -/
lemma holds?_of_implies (h : A.implies a b = .ok (id, A')) (tr : Trace) (t : Nat) : ∃ x y,
    A.holds? a tr t = some x ∧ A.holds? b tr t = some y ∧ A'.holds? id tr t = some (!x || y) := by
  obtain ⟨f, g, hf, hg, rfl, rfl⟩ := implies_cases h
  exact ⟨f.holds tr t, g.holds tr t, holds?_of_formula? hf tr t, holds?_of_formula? hg tr t,
    holds?_of_formula? (A.formula?_pushImplies a b f g) tr t⟩

/-- **A request is refused** for the first of its operands that is missing. -/
lemma call_eq_error_iff : A.call c = .error e ↔
    ∃ p, c.operands.find? (A.size ≤ ·) = some p ∧ e = .missingOperand p := by
  cases c with
  | add n => exact add_eq_error_iff
  | implies a b =>
      cases hg : A.formula? b with
      | none =>
          have missing := formula?_eq_none_iff.mp hg
          have refused : A.implies a b = .error (.missingOperand b) := by
            rw [implies, operand_eq_error_iff.mpr ⟨missing, rfl⟩]
            rfl
          simp [call, Call.operands, refused, missing, eq_comm]
      | some g =>
          have present := lt_size_of_formula? hg
          cases hf : A.formula? a with
          | none =>
              have missing := formula?_eq_none_iff.mp hf
              simp [call, Call.operands, implies_eq_error missing hg, missing, present, eq_comm]
          | some f =>
              have present' := lt_size_of_formula? hf
              simp [call, Call.operands, implies_eq_ok hf hg, present, present']

/-! ### Changing an arena in place -/

/-- Computations that change an arena. What they have stored stays there when they fail. -/
abbrev InPlace :=
  EStateM Error Arena

namespace InPlace

/-- The formula of an operand, which has to be stored by now. -/
def operand (id : NodeId) : InPlace Formula := do
  match (← get).formula? id with
  | some f => return f
  | none => throw (.missingOperand id)

/-- Stores a node. Its operands are looked up from left to right. -/
def add (node : Node NodeId) : InPlace NodeId :=
  match node with
  | .atom name => modifyGet fun A => A.atom name
  | node => do
    let layer ← node.mapM operand
    modifyGet fun A => (A.size, A.push node (.ofNode layer))

/-- Stores `!a | b`. -/
def implies (a b : NodeId) : InPlace NodeId := do
  let _ ← operand b
  let negation ← add (.not a)
  add (.or negation b)

/-- Carries out a request. -/
def call : Call → InPlace NodeId
  | .add node => add node
  | .implies a b => implies a b

/-- A computation that only looks at the arena. -/
def reading {α : Type} (x : Arena → Except Error α) : InPlace α := fun A =>
  match x A with
  | .ok a => .ok a A
  | .error e => .error e A

lemma operand_eq_reading (id : NodeId) : operand id = reading fun A => A.operand id := by
  funext A
  have : operand id A = (match A.formula? id with
    | some f => pure f
    | none => throw (.missingOperand id) : InPlace Formula) A := rfl
  rw [this, reading, Arena.operand]
  cases A.formula? id <;> rfl

lemma reading_bind {α β : Type} (x : Arena → Except Error α) (y : α → Arena → Except Error β) :
    (reading x >>= fun a => reading (y a)) = reading fun A => x A >>= fun a => y a A := by
  funext A
  simp only [bind, EStateM.bind, reading, Except.bind]
  cases x A <;> rfl

/-- Looking up the operands changes nothing. -/
lemma mapM_operand (n : Node NodeId) : n.mapM operand = reading fun A => n.mapM A.operand := by
  have pure_eq {α : Type} (a : α) : (pure a : InPlace α) = reading fun _ => pure a := rfl
  cases n <;> simp only [Node.mapM, operand_eq_reading, pure_eq, reading_bind]

/-- The result of a computation on `A` that has given an answer and another arena, or has failed
with nothing stored. -/
def settle (A : Arena) : Except Error (NodeId × Arena) → EStateM.Result Error Arena NodeId
  | .ok (id, A') => .ok id A'
  | .error e => .error e A

lemma settle_eq_ok_iff {r : Except Error (NodeId × Arena)} :
    settle A r = .ok id A' ↔ r = .ok (id, A') := by
  cases r <;> simp [settle, Prod.ext_iff]

lemma settle_eq_error_iff {r : Except Error (NodeId × Arena)} :
    settle A r = .error e A' ↔ A' = A ∧ r = .error e := by
  cases r <;> simp [settle, and_comm, eq_comm]

lemma run_add (A : Arena) (n : Node NodeId) : (add n).run A = settle A (A.add n) := by
  unfold add Arena.add
  split
  · rfl
  · rw [mapM_operand]
    simp only [EStateM.run, bind, EStateM.bind, reading, Except.bind]
    cases n.mapM A.operand <;> rfl

lemma run_bind_of_ok {α β : Type} {x : InPlace α} {a : α} (h : x.run A = .ok a A')
    (k : α → InPlace β) : (x >>= k).run A = (k a).run A' := by
  simp only [EStateM.run, bind, EStateM.bind] at h ⊢
  rw [h]

lemma run_bind_of_error {α β : Type} {x : InPlace α} (h : x.run A = .error e A')
    (k : α → InPlace β) : (x >>= k).run A = .error e A' := by
  simp only [EStateM.run, bind, EStateM.bind] at h ⊢
  rw [h]

/-- The negation is stored only if the disjunction will be stored as well. -/
lemma run_implies (A : Arena) (a b : NodeId) :
    (implies a b).run A = settle A (A.implies a b) := by
  rw [implies, operand_eq_reading]
  cases hg : A.operand b with
  | error e =>
      have first : (reading fun A => A.operand b).run A = .error e A := by
        rw [EStateM.run, reading, hg]
      rw [run_bind_of_error first, Arena.implies, hg]
      rfl
  | ok g =>
      have first : (reading fun A => A.operand b).run A = .ok g A := by
        rw [EStateM.run, reading, hg]
      rw [run_bind_of_ok first]
      cases hf : A.formula? a with
      | none =>
          have missing := formula?_eq_none_iff.mp hf
          have second : (add (.not a)).run A = .error (.missingOperand a) A := by
            rw [run_add, add_not_eq_error missing, settle]
          rw [run_bind_of_error second, implies_eq_error missing (operand_eq_ok_iff.mp hg)]
          rfl
      | some f =>
          have hg := operand_eq_ok_iff.mp hg
          have second : (add (.not a)).run A = .ok A.size (A.push (.not a) (.not f)) := by
            rw [run_add, add_not hf, settle]
          rw [run_bind_of_ok second, run_add, add_or_push hg, implies_eq_ok hf hg]
          rfl

/-- **A request is carried out as a whole or not at all.** -/
lemma run_call (A : Arena) (c : Call) : (call c).run A = settle A (A.call c) := by
  cases c with
  | add n => exact run_add A n
  | implies a b => exact run_implies A a b

/-- How requests are carried out on an arena that is changed in place. -/
structure Exact (A : Arena) : Prop where
  /-- The answer and the new arena are those of `Arena.call`. -/
  answered : ∀ c id A', (call c).run A = .ok id A' ↔ A.call c = .ok (id, A')
  /-- A request is refused for the first of its operands that is missing, and the arena is as it
  was. -/
  refused : ∀ c e A', (call c).run A = .error e A' ↔
    A' = A ∧ ∃ p, c.operands.find? (A.size ≤ ·) = some p ∧ e = .missingOperand p
  /-- The fault lies with the formula exactly when some operand is missing. -/
  invalid : ∀ c, (∃ e A', (call c).run A = .error e A' ∧ e.kind = .invalidFormula) ↔
    ∃ p ∈ c.operands, A.size ≤ p
  /-- An implication adds two nodes and nothing else. -/
  implication : ∀ a b id A', (call (.implies a b)).run A = .ok id A' →
    id = A.size + 1 ∧ ∃ f g, A.formula? a = some f ∧ A.formula? b = some g ∧
      A' = { A with
        entries := A.entries ++ #[⟨.not a, .not f⟩, ⟨.or A.size b, .or (.not f) g⟩] }
  /-- It holds where its left operand does not hold or its right operand holds. -/
  holds : ∀ a b id A', (call (.implies a b)).run A = .ok id A' → ∀ tr t, ∃ x y,
    A.holds? a tr t = some x ∧ A.holds? b tr t = some y ∧ A'.holds? id tr t = some (!x || y)

/-- **Requests are carried out as a whole or not at all**, and they are refused exactly for
missing operands. -/
theorem call_exact (A : Arena) : Exact A := by
  have answered c id A' : (call c).run A = .ok id A' ↔ A.call c = .ok (id, A') := by
    rw [run_call, settle_eq_ok_iff]
  have refused c e A' : (call c).run A = .error e A' ↔
      A' = A ∧ ∃ p, c.operands.find? (A.size ≤ ·) = some p ∧ e = .missingOperand p := by
    rw [run_call, settle_eq_error_iff, call_eq_error_iff]
  refine ⟨answered, refused, fun c => ⟨?_, ?_⟩, fun a b id A' h => ?_, fun a b id A' h => ?_⟩
  · rintro ⟨e, A', h, -⟩
    obtain ⟨-, p, found, -⟩ := (refused c e A').mp h
    exact ⟨p, List.mem_of_find?_eq_some found, by simpa using List.find?_some found⟩
  · intro ⟨p, hp, missing⟩
    have some_missing : (c.operands.find? (A.size ≤ ·)).isSome :=
      List.find?_isSome.mpr ⟨p, hp, decide_eq_true missing⟩
    obtain ⟨q, found⟩ := Option.isSome_iff_exists.mp some_missing
    exact ⟨.missingOperand q, A, (refused c _ A).mpr ⟨rfl, q, found, rfl⟩, rfl⟩
  · obtain ⟨f, g, hf, hg, rfl, rfl⟩ := implies_cases ((answered _ _ _).mp h)
    have two (x y : Entry) : (A.entries.push x).push y = A.entries ++ #[x, y] :=
      Array.ext' (by simp)
    exact ⟨rfl, f, g, hf, hg, by rw [pushImplies, push, push, two]⟩
  · exact holds?_of_implies ((answered _ _ _).mp h)

/-- Two atoms are stored, and the next id is 2. An implication with right operand 2 is refused
although its negation would get that id. Of two missing operands, an implication names the right
one and a conjunction the left one. -/
theorem call_exact_dangling :
    let A := build ∅ [.add (.atom "a"), .add (.atom "b")]
    (call (.implies 0 2)).run A = .error (.missingOperand 2) A
      ∧ (call (.implies 9 8)).run A = .error (.missingOperand 8) A
      ∧ (call (.add (.and 9 8))).run A = .error (.missingOperand 9) A
      ∧ ∃ A', (call (.implies 0 1)).run A = .ok 3 A' ∧ ∀ tr t, ∃ x y,
          A.holds? 0 tr t = some x ∧ A.holds? 1 tr t = some y
            ∧ A'.holds? 3 tr t = some (!x || y) := by
  intro A
  have exact := call_exact A
  have size : A.size = 2 := by unfold A; cbv
  refine ⟨?_, ?_, ?_, ?_⟩
  · exact (exact.refused _ _ _).mpr ⟨rfl, 2, by rw [size]; rfl, rfl⟩
  · exact (exact.refused _ _ _).mpr ⟨rfl, 8, by rw [size]; rfl, rfl⟩
  · exact (exact.refused _ _ _).mpr ⟨rfl, 9, by rw [size]; rfl, rfl⟩
  · have hf : A.formula? 0 = some (.atom "a") := by unfold A; cbv
    have hg : A.formula? 1 = some (.atom "b") := by unfold A; cbv
    have stored := (exact.answered (.implies 0 1) _ _).mpr (implies_eq_ok hf hg)
    rw [size] at stored
    exact ⟨_, stored, exact.holds 0 1 _ _ stored⟩

end InPlace

end Arena

end BoundedTemporal
