/-
Storing whole formulas.

An arena takes one node at a time, and only over operands that are there. Nothing is
ever lost, so a formula can be stored layer by layer.

* `Arena.TableExact`, `Arena.Built.tableExact`: the table of atoms is exact, so that an atom
  is stored once (`Arena.Built.atom_unique`);
* `Arena.exists_add`, `Arena.Built.node?_of_add`, `Arena.Built.formula?_of_add`: a node over
  stored operands is stored, and found again at its id;
* `Arena.Built.exists_build`: every formula can be stored.
-/
import BoundedTemporal.Proofs.Arena.History

namespace BoundedTemporal

namespace Arena

variable {A A' : Arena} {n : Node NodeId} {id p : NodeId} {a name : Atom}

/-! ### The table of atoms -/

/-- Nothing is stored yet under the id that comes next. -/
lemma node?_size (A : Arena) : A.node? A.size = none := by
  rw [← Option.not_isSome_iff_eq_none, node?_isSome_iff]
  exact Nat.lt_irrefl A.size

/-- The table leads to an id exactly when the atom is stored there. -/
def TableExact (A : Arena) : Prop :=
  ∀ a id, A.atomIds[a]? = some id ↔ A.node? id = some (.atom a)

lemma tableExact_empty : TableExact ∅ := by
  intro a id
  have table : (∅ : Arena).atomIds[a]? = none := Std.TreeMap.getElem?_emptyc
  have node : (∅ : Arena).node? id = none := rfl
  simp only [table, node, reduceCtorEq]

/-- An atom that is not in the table can be stored. -/
lemma TableExact.push_atom (exact : TableExact A) (missing : A.atomIds[name]? = none) :
    TableExact { (A.register name).push (.atom name) (.atom name) with
      atomIds := A.atomIds.insert name A.size } := by
  intro a id
  have node : ({ (A.register name).push (.atom name) (.atom name) with
      atomIds := A.atomIds.insert name A.size } : Arena).node? id
        = if id = A.size then some (.atom name) else A.node? id :=
    node?_push A (.atom name) (.atom name) id
  simp only [node, Std.TreeMap.getElem?_insert, Std.LawfulEqCmp.compare_eq_iff_eq]
  by_cases same : name = a
  · subst same
    have absent : A.node? id ≠ some (.atom name) := fun h => by
      rw [(exact name id).mpr h] at missing
      cases missing
    rw [if_pos rfl]
    by_cases new : id = A.size
    · rw [if_pos new, new]
      exact iff_of_true rfl rfl
    · rw [if_neg new]
      exact iff_of_false (fun h => new (Option.some.inj h).symm) absent
  · rw [if_neg same, exact a id]
    by_cases new : id = A.size
    · subst new
      simp [node?_size, same]
    · rw [if_neg new]

/-- A node that is no atom leaves the table exact. -/
lemma TableExact.push_operator (exact : TableExact A) (operator : n.isAtom = false)
    (f : Formula) : TableExact (A.push n f) := by
  intro a id
  have table : (A.push n f).atomIds[a]? = A.atomIds[a]? := rfl
  rw [table, node?_push, exact a id]
  by_cases new : id = A.size
  · subst new
    have other : n ≠ .atom a := by
      rintro rfl
      cases operator
    simp [node?_size, other]
  · rw [if_neg new]

/-- **The table of atoms is exact** in every arena that was built. -/
lemma Built.tableExact (built : A.Built) : A.TableExact := by
  refine built.induction tableExact_empty ?_
  intro A A' n id exact h
  rcases add_cases h with
    ⟨name, -, -, rfl⟩ | ⟨name, rfl, missing, -, rfl⟩ | ⟨layer, operator, -, -, rfl⟩
  · exact exact
  · exact exact.push_atom missing
  · exact exact.push_operator operator (.ofNode layer)

/-- **An atom is stored once.** -/
lemma Built.atom_unique (built : A.Built) (hi : A.node? id = some (.atom a))
    (hp : A.node? p = some (.atom a)) : id = p := by
  have same := ((built.tableExact a id).mpr hi).symm.trans ((built.tableExact a p).mpr hp)
  exact Option.some.inj same

/-! ### Storing one layer -/

/-- A composite node over stored operands gets the next id. -/
lemma add_eq_ok {layer : Node Formula} (composite : n.isAtom = false)
    (h : n.mapM A.formula? = some layer) : A.add n = .ok (A.size, A.push n (.ofNode layer)) := by
  unfold add
  split
  · cases composite
  · rw [mapM_operand_eq_ok_iff.mpr h]
    rfl

/-- A node over stored operands is not refused. -/
lemma exists_add {layer : Node Formula} (h : n.mapM A.formula? = some layer) :
    ∃ id A', A.add n = .ok (id, A') := by
  cases n with
  | atom name => exact ⟨_, _, rfl⟩
  | _ => exact ⟨_, _, add_eq_ok rfl h⟩

/-- **What was stored is found**: the answer to a request leads to the node. -/
lemma Built.node?_of_add (built : A.Built) (h : A.add n = .ok (id, A')) :
    A'.node? id = some n := by
  rcases add_cases h with
    ⟨name, rfl, found, rfl⟩ | ⟨name, rfl, -, rfl, rfl⟩ | ⟨layer, -, -, rfl, rfl⟩
  · exact (built.tableExact name id).mp found
  · exact node?_push_self A (.atom name) (.atom name)
  · exact node?_push_self A n (.ofNode layer)

/-- Below the node are the formulas of its operands, as they were before. -/
lemma Built.formula?_of_add (built : A.Built) {layer : Node Formula}
    (hl : n.mapM A.formula? = some layer) (h : A.add n = .ok (id, A')) :
    A'.formula? id = some (.ofNode layer) := by
  have built' : A'.Built := built.of_add h
  obtain ⟨layer', hl', hid⟩ := built'.wellFormed.spelled (built.node?_of_add h)
  have kept : n.mapM A'.formula? = some layer :=
    Node.mapM_mono (fun p f hp => (extends_of_add h).formula?_eq_some hp) hl
  cases kept.symm.trans hl'
  exact hid

/-! ### Storing all layers -/

/-- Some formulas can be stored together if each of them can be stored. -/
lemma Built.exists_build_forall (built : A.Built) {fs : List Formula}
    (each : ∀ f ∈ fs, ∀ A : Arena, A.Built → ∃ history id, (A.build history).formula? id = some f) :
    ∃ history, ∀ f ∈ fs, ∃ id, (A.build history).formula? id = some f := by
  induction fs generalizing A with
  | nil => exact ⟨[], List.forall_mem_nil _⟩
  | cons f fs ih =>
      have ⟨hf, hfs⟩ := List.forall_mem_cons.mp each
      obtain ⟨first, id, hid⟩ := hf A built
      obtain ⟨rest, found⟩ := ih (built.build first) hfs
      refine ⟨first ++ rest, ?_⟩
      rw [build_append]
      exact List.forall_mem_cons.mpr ⟨⟨id, (extends_build _ rest).formula?_eq_some hid⟩, found⟩

/-- **Every formula can be stored**, next to what an arena holds already. -/
theorem Built.exists_build (built : A.Built) (f : Formula) :
    ∃ history id, (A.build history).formula? id = some f := by
  induction f using Formula.layerInd generalizing A with
  | layer layer ih =>
      obtain ⟨history, found⟩ := built.exists_build_forall fun f hf A hA => ih f hf hA
      obtain ⟨n, hn⟩ := Node.exists_mapM_eq_some found
      obtain ⟨id, A', added⟩ := exists_add hn
      refine ⟨history ++ [.add n], id, ?_⟩
      have last : (A.build history).build [.add n] = A' := after_of_call added
      rw [build_append, last]
      exact (built.build history).formula?_of_add hn added

end Arena

end BoundedTemporal
