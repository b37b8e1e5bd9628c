/-
What an arena says about the requests that led to it.

* `Arena.Built.registryExact`: the registry goes with the table;
* `Arena.Built.mem_registry_iff`, `Arena.mem_registry_build`: the registered atoms are
  those of the stored nodes, and those that were asked for;
* `Arena.Records`, `Arena.records_build`: the state of an arena after any history.
-/
import BoundedTemporal.Proofs.Arena.Reachable
import BoundedTemporal.Proofs.Arena.Store
import Mathlib.Data.List.Nodup

namespace BoundedTemporal

namespace Arena

variable {A A' : Arena} {n : Node NodeId} {id p : NodeId} {a name : Atom}

/-! ### The registry -/

lemma mem_atoms : a ∈ A.atoms ↔ a ∈ A.registry :=
  Std.ExtTreeSet.mem_toList

lemma mem_register : a ∈ (A.register name).registry ↔ a ∈ A.registry ∨ name = a := by
  rw [register, Std.ExtTreeSet.mem_insert, Std.LawfulEqCmp.compare_eq_iff_eq, or_comm]

/-- An atom is registered once. -/
lemma register_of_mem (h : a ∈ A.registry) : A.register a = A := by
  have same : (A.register a).registry = A.registry := by
    refine Std.ExtTreeSet.ext_mem fun b => ?_
    rw [mem_register]
    exact or_iff_left_of_imp fun hb => hb ▸ h
  exact congrArg (fun r => { A with registry := r }) same

/-- The registry and the table have the same atoms. -/
def RegistryExact (A : Arena) : Prop :=
  ∀ a, a ∈ A.registry ↔ ∃ id, A.atomIds[a]? = some id

lemma registryExact_empty : RegistryExact ∅ := by
  intro a
  have registry : a ∉ (∅ : Arena).registry := Std.ExtTreeSet.not_mem_empty
  have table : (∅ : Arena).atomIds[a]? = none := Std.TreeMap.getElem?_emptyc
  simp only [registry, table, reduceCtorEq, exists_false]

/-- An atom goes into the registry and into the table together. -/
lemma RegistryExact.push_atom (exact : RegistryExact A) :
    RegistryExact { (A.register name).push (.atom name) (.atom name) with
      atomIds := A.atomIds.insert name A.size } := by
  intro a
  have registry : a ∈ ((A.register name).push (.atom name) (.atom name)).registry
      ↔ a ∈ A.registry ∨ name = a := mem_register
  simp only [registry, exact a, Std.TreeMap.getElem?_insert, Std.LawfulEqCmp.compare_eq_iff_eq]
  by_cases same : name = a
  · simp only [same, or_true, if_true, Option.some.injEq, exists_eq']
  · simp only [same, or_false, if_false]

/-- **The registry goes with the table** in every arena that was built. -/
lemma Built.registryExact (built : A.Built) : A.RegistryExact := by
  refine built.induction registryExact_empty ?_
  intro A A' n id exact h
  rcases add_cases h with
    ⟨name, -, found, rfl⟩ | ⟨name, rfl, -, -, rfl⟩ | ⟨layer, -, -, -, rfl⟩
  · have registered : name ∈ A.registry := (exact name).mpr ⟨id, found⟩
    rwa [register_of_mem registered]
  · exact exact.push_atom
  · exact exact

/-- **The registered atoms are those of the stored nodes.** -/
lemma Built.mem_registry_iff (built : A.Built) :
    a ∈ A.registry ↔ ∃ id, A.node? id = some (.atom a) := by
  simp only [built.registryExact a, built.tableExact a]

lemma mem_ids_iff : id ∈ A.ids ↔ id < A.size :=
  List.mem_range

/-- The names of the stored atoms, in the order of their ids, have no repetition. -/
lemma Built.filterMap_atom?_nodup (built : A.Built) : (A.ids.filterMap A.atom?).Nodup := by
  refine List.Nodup.filterMap (fun i p a hi hp => ?_) List.nodup_range
  exact built.atom_unique (atom?_eq_some_iff.mp hi) (atom?_eq_some_iff.mp hp)

lemma atoms_nodup (A : Arena) : A.atoms.Nodup :=
  Std.ExtTreeSet.distinct_toList.imp fun different same =>
    different (Std.LawfulEqCmp.compare_eq_iff_eq.mpr same)

/-- **The registry lists the names of the atom nodes**, in its own order. -/
lemma Built.atoms_perm (built : A.Built) : A.atoms.Perm (A.ids.filterMap A.atom?) := by
  refine (List.perm_ext_iff_of_nodup A.atoms_nodup built.filterMap_atom?_nodup).mpr fun a => ?_
  rw [mem_atoms, built.mem_registry_iff, List.mem_filterMap]
  constructor
  · rintro ⟨id, hid⟩
    exact ⟨id, mem_ids_iff.mpr (lt_size_of_node? hid), atom?_eq_some_iff.mpr hid⟩
  · rintro ⟨id, -, hid⟩
    exact ⟨id, atom?_eq_some_iff.mp hid⟩

/-! ### Requests -/

/-- Storing a node registers its name if it is an atom, and nothing else. -/
lemma mem_registry_of_add (h : A.add n = .ok (id, A')) :
    a ∈ A'.registry ↔ a ∈ A.registry ∨ n = .atom a := by
  rcases add_cases h with
    ⟨name, rfl, -, rfl⟩ | ⟨name, rfl, -, -, rfl⟩ | ⟨layer, operator, -, -, rfl⟩
  · rw [mem_register, Node.atom.injEq]
  · rw [Node.atom.injEq]
    exact mem_register
  · have other : n ≠ .atom a := by
      rintro rfl
      cases operator
    exact ⟨Or.inl, fun ha => ha.resolve_right other⟩

lemma mem_registry_after (c : Call) :
    a ∈ (A.after c).registry ↔ a ∈ A.registry ∨ c = .add (.atom a) := by
  unfold after
  cases hc : A.call c with
  | error e =>
      -- a request for an atom is never refused
      have other : c ≠ .add (.atom a) := by
        rintro rfl
        cases hc
      simp only [other, or_false]
  | ok r =>
      cases c with
      | add n => simpa only [Call.add.injEq] using mem_registry_of_add (a := a) hc
      | implies b d =>
          obtain ⟨f, negation, A₁, -, hn, ho⟩ := exists_of_implies hc
          simp only [mem_registry_of_add ho, mem_registry_of_add hn, reduceCtorEq, or_false]

/-- **The registered atoms are those that were asked for.** -/
lemma mem_registry_build (A : Arena) (history : List Call) :
    a ∈ (A.build history).registry ↔ a ∈ A.registry ∨ .add (.atom a) ∈ history := by
  induction history generalizing A with
  | nil => simp only [build, List.foldl_nil, List.not_mem_nil, or_false]
  | cons c history ih =>
      have step : A.build (c :: history) = (A.after c).build history := rfl
      rw [step, ih, mem_registry_after, or_assoc, List.mem_cons, eq_comm]

/-- A node that is no atom gets the next id. -/
lemma eq_size_of_add (operator : n.isAtom = false) (h : A.add n = .ok (id, A')) :
    id = A.size ∧ A'.size = A.size + 1 := by
  rcases add_cases h with ⟨name, rfl, -, -⟩ | ⟨name, rfl, -, -⟩ | ⟨layer, -, -, rfl, rfl⟩
  · cases operator
  · cases operator
  · exact ⟨rfl, size_push A n _⟩

/-- An atom that is stored is found again, and nothing changes. -/
lemma Built.call_atom (built : A.Built) (h : A.node? id = some (.atom a)) :
    A.call (.add (.atom a)) = .ok (id, A) := by
  have found : A.atom a = (id, A) := by
    rw [atom, register_of_mem (built.mem_registry_iff.mpr ⟨id, h⟩),
      (built.tableExact a id).mpr h]
  rw [call, add, found]

/-- What the answer `id` to a request means in an arena, when `size` nodes were stored at
the time of the request. -/
def Answers (A : Arena) (size : Nat) (id : NodeId) : Call → Prop
  | .add n => A.node? id = some n ∧ (n.isAtom = false → id = size)
  | .implies a b =>
    id = size + 1 ∧ A.node? size = some (.not a) ∧ A.node? id = some (.or size b)

lemma Answers.of_extends {size : Nat} {c : Call} (larger : A'.Extends A)
    (h : A.Answers size id c) : A'.Answers size id c := by
  cases c with
  | add n => exact ⟨larger.node?_eq_some h.1, h.2⟩
  | implies a b => exact ⟨h.1, larger.node?_eq_some h.2.1, larger.node?_eq_some h.2.2⟩

/-- A request that succeeds is answered with the id of what was to be stored. -/
lemma Built.answers_of_call (built : A.Built) {c : Call} (h : A.call c = .ok (id, A')) :
    A'.Answers A.size id c := by
  cases c with
  | add n => exact ⟨built.node?_of_add h, fun operator => (eq_size_of_add operator h).1⟩
  | implies a b =>
      obtain ⟨f, negation, A₁, -, hn, ho⟩ := exists_of_implies h
      obtain ⟨rfl, size⟩ := eq_size_of_add rfl hn
      have built₁ : A₁.Built := built.of_add hn
      have negated := (extends_of_add ho).node?_eq_some (built.node?_of_add hn)
      refine ⟨?_, negated, built₁.node?_of_add ho⟩
      rw [(eq_size_of_add rfl ho).1, size]

/-! ### Histories -/

/-- What is true of an arena after a history of requests, some of which may have failed. -/
structure Records (A : Arena) (history : List Call) : Prop where
  /-- Operands are stored before the nodes that use them. -/
  operand_lt : ∀ id n, A.node? id = some n → ∀ p ∈ n.operands, p < id
  /-- No stored interval ends before it starts. -/
  bounds : ∀ id n I, A.node? id = some n → n.interval? = some I → I.upper.Admits I.lower
  /-- No two nodes hold the same atom. -/
  atom_unique : ∀ a i p, A.node? i = some (.atom a) → A.node? p = some (.atom a) → i = p
  /-- The table leads from the names of the atom nodes to the nodes. -/
  table : ∀ a id, A.atomIds[a]? = some id ↔ A.node? id = some (.atom a)
  /-- The registry lists the names of the atom nodes. -/
  registry : A.atoms.Perm (A.ids.filterMap A.atom?)
  /-- It has as many names as there are atom nodes. -/
  registry_size : A.registry.size = A.ids.countP fun id => (A.atom? id).isSome
  /-- It has the names that were asked for. -/
  asked : ∀ a, a ∈ A.registry ↔ .add (.atom a) ∈ history
  /-- An atom that was asked for is found again under the id that was returned then, and
  asking again changes nothing. -/
  again : ∀ past a future, history = past ++ .add (.atom a) :: future →
    ∃ id B, (build ∅ past).call (.add (.atom a)) = .ok (id, B)
      ∧ A.call (.add (.atom a)) = .ok (id, A)
  /-- Every id that was returned leads to what it was returned for. -/
  answers : ∀ past c future, history = past ++ c :: future →
    ∀ id B, (build ∅ past).call c = .ok (id, B) → A.Answers (build ∅ past).size id c

/-- **An arena records the history** that led to it. -/
theorem records_build (history : List Call) : (build ∅ history).Records history := by
  have built : (build ∅ history).Built := ⟨history, rfl⟩
  -- what an answer means right after the request is kept by the rest of the history
  have answers : ∀ past c future, history = past ++ c :: future → ∀ id B,
      (build ∅ past).call c = .ok (id, B) →
        (build ∅ history).Answers (build ∅ past).size id c := by
    rintro past c future rfl id B h
    have past_built : (build ∅ past).Built := ⟨past, rfl⟩
    have split : build ∅ (past ++ c :: future) = B.build future := by
      rw [build_append, ← after_of_call h]
      rfl
    rw [split]
    exact (past_built.answers_of_call h).of_extends (extends_build B future)
  exact {
    operand_lt := fun id n hn p hp => built.wellFormed.operand_lt hn p hp
    bounds := fun id n I _ _ => I.admits_lower
    atom_unique := fun a i p hi hp => built.atom_unique hi hp
    table := built.tableExact
    registry := built.atoms_perm
    registry_size := by
      rw [← Std.ExtTreeSet.length_toList, ← List.length_filterMap_eq_countP]
      exact built.atoms_perm.length_eq
    asked := fun a => by
      have none_asked : a ∉ (∅ : Arena).registry := Std.ExtTreeSet.not_mem_empty
      rw [mem_registry_build, or_iff_right none_asked]
    again := by
      intro past a future h
      have call : (build ∅ past).call (.add (.atom a)) = .ok ((build ∅ past).atom a) := rfl
      have stored := (answers past _ future h _ _ call).1
      exact ⟨_, _, call, built.call_atom stored⟩
    answers := answers }

end Arena

end BoundedTemporal
