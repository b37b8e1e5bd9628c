/-
The encoding of a formula in closed form.

* `Plan.Accepted`: the plans that are made for arenas that were built, and what
  is known of their nodes: they are closed under operands, and operands come
  first;
* `Plan.literal`, `Plan.definition?`, `Plan.slotCell`: the literal of a node at a
  tick and its definition, straight from the node;
* `Plan.cell?_eq_some`: a cell can be filled once the cells of the operands are;
* `Encoding.FilledBy`: the encoding after some slots. `Encoding.FilledBy.fill?` is
  one step, `Encoding.FilledBy.foldlM` a run;
* `Plan.Accepted.exists_encode?`: every accepted plan has an encoding, and its
  cells and constraints are those of the closed form.
-/
import BoundedTemporal.Encoding.Table
import BoundedTemporal.Proofs.Arena.Reachable
import Mathlib.Data.List.Nodup

namespace BoundedTemporal

namespace Plan

variable {P : Plan} {A : Arena} {root id p : NodeId} {H : Horizon} {scope : String} {t s : Nat}
  {n : Node NodeId}

/-! ### Accepted plans -/

/-- A plan is made exactly for a stored formula and a scope that is not empty and
clashes with no atom of the formula. -/
lemma make_eq_ok_iff : make A root H scope = .ok P ↔
    root < A.size ∧ scope.isEmpty = false
      ∧ (∀ name ∈ A.atomsOf root, isSymbolName scope name = false)
      ∧ P = ⟨A, root, H, scope, A.descendants root⟩ := by
  have clash : (∀ name ∈ A.atomsOf root, isSymbolName scope name = false)
      ↔ (A.atomsOf root).toList.find? (isSymbolName scope) = none := by
    simp only [List.find?_eq_none, Std.ExtTreeSet.mem_toList, Bool.not_eq_true]
  rw [clash, make]
  by_cases hroot : root < A.size
  · by_cases hscope : scope.isEmpty = true
    · simp [Arena.contains, hroot, hscope]
    · cases hfind : (A.atomsOf root).toList.find? (isSymbolName scope) <;>
        simp [Arena.contains, hroot, hscope, eq_comm]
  · simp [Arena.contains, hroot]

/-- A plan is made if the scope clashes with no stored atom, whether or not the formula
has that atom. -/
lemma make_eq_ok (hroot : root < A.size) (hscope : scope.isEmpty = false)
    (clear : ∀ id < A.size, ∀ name ∈ A.atom? id, isSymbolName scope name = false) :
    make A root H scope = .ok ⟨A, root, H, scope, A.descendants root⟩ := by
  refine make_eq_ok_iff.mpr ⟨hroot, hscope, fun name h => ?_, rfl⟩
  obtain ⟨id, hid, hname⟩ := Arena.exists_atom?_of_mem_atomsOf h
  exact clear id hid name hname

/-- A plan that was made for an arena that was built. -/
def Accepted (P : Plan) : Prop :=
  ∃ A root H scope, A.Built ∧ make A root H scope = .ok P

namespace Accepted

lemma built (accepted : P.Accepted) : P.arena.Built := by
  obtain ⟨A, root, H, scope, built, h⟩ := accepted
  obtain ⟨-, -, -, rfl⟩ := make_eq_ok_iff.mp h
  exact built

lemma wellFormed (accepted : P.Accepted) : P.arena.WellFormed :=
  accepted.built.wellFormed

lemma nodes_eq (accepted : P.Accepted) : P.nodes = P.arena.descendants P.root := by
  obtain ⟨A, root, H, scope, -, h⟩ := accepted
  obtain ⟨-, -, -, rfl⟩ := make_eq_ok_iff.mp h
  rfl

lemma root_mem (accepted : P.Accepted) : P.root ∈ P.nodes := by
  rw [accepted.nodes_eq]
  obtain ⟨A, root, H, scope, -, h⟩ := accepted
  obtain ⟨hroot, -, -, rfl⟩ := make_eq_ok_iff.mp h
  exact Arena.mem_descendants_self hroot

/-- The nodes of the formula are those that its root reaches. -/
lemma mem_nodes_iff (accepted : P.Accepted) : id ∈ P.nodes ↔ P.arena.Reaches P.root id := by
  have stored : P.root < P.arena.size := by
    have root := accepted.root_mem
    rw [accepted.nodes_eq, Arena.mem_descendants] at root
    exact root.1
  rw [accepted.nodes_eq, Arena.mem_descendants]
  refine ⟨fun h => h.2, fun h => ⟨?_, h⟩⟩
  exact Nat.lt_of_le_of_lt (accepted.wellFormed.le_of_reaches h) stored

/-- The nodes come in ascending order. -/
lemma nodes_sorted (accepted : P.Accepted) : P.nodes.Pairwise (· < ·) := by
  rw [accepted.nodes_eq]
  exact Arena.descendants_sorted

lemma exists_node? (accepted : P.Accepted) (h : id ∈ P.nodes) :
    ∃ n, P.arena.node? id = some n := by
  rw [accepted.nodes_eq, Arena.mem_descendants] at h
  exact Arena.exists_node? h.1

lemma holds?_eq (accepted : P.Accepted) (h : id ∈ P.nodes) (tr : Trace) (t : Nat) :
    P.arena.holds? id tr t = some (P.arena.value tr id t) := by
  obtain ⟨n, hn⟩ := accepted.exists_node? h
  exact accepted.wellFormed.holds?_eq_value (Arena.lt_size_of_node? hn) tr t

/-- The operands of a node of the formula are nodes of the formula, and come before
it. -/
lemma operand_mem (accepted : P.Accepted) (h : id ∈ P.nodes) (hn : P.arena.node? id = some n)
    (hp : p ∈ n.operands) : p ∈ P.nodes ∧ p < id := by
  refine ⟨?_, accepted.wellFormed.operand_lt hn p hp⟩
  rw [accepted.nodes_eq] at h ⊢
  exact accepted.wellFormed.mem_descendants_of_uses h ⟨n, hn, hp⟩

end Accepted

/-! ### Slots -/

lemma mem_schedule {nodes : List NodeId} {ticks : NodeId → List Nat} :
    (id, t) ∈ nodes.flatMap (fun id => (ticks id).map (id, ·)) ↔ id ∈ nodes ∧ t ∈ ticks id := by
  simp only [List.mem_flatMap, List.mem_map, Prod.mk.injEq, exists_eq_right_right]

/-- A schedule that goes from node to node has each slot once. -/
lemma schedule_nodup {nodes : List NodeId} (sorted : nodes.Pairwise (· < ·))
    {ticks : NodeId → List Nat} (nodup : ∀ id, (ticks id).Nodup) :
    (nodes.flatMap fun id => (ticks id).map (id, ·)).Nodup := by
  rw [List.nodup_flatMap]
  refine ⟨fun id _ => (nodup id).map fun _ _ h => (Prod.mk.inj h).2, ?_⟩
  refine sorted.imp fun {i j} hij slot hi hj => ?_
  obtain ⟨_, -, rfl⟩ := List.mem_map.mp hi
  obtain ⟨_, -, h⟩ := List.mem_map.mp hj
  exact Nat.ne_of_lt hij (Prod.mk.inj h).1.symm

/-- In a schedule that goes from node to node, the slots of smaller ids come
first. -/
lemma mem_done_of_lt {nodes : List NodeId} (sorted : nodes.Pairwise (· < ·))
    {ticks : NodeId → List Nat} {done rest : List (NodeId × Nat)} {slot : NodeId × Nat}
    (h : nodes.flatMap (fun id => (ticks id).map (id, ·)) = done ++ slot :: rest)
    (hp : p ∈ nodes) (hs : s ∈ ticks p) (hlt : p < slot.1) : (p, s) ∈ done := by
  have ordered : (done ++ slot :: rest).Pairwise (fun a b => a.1 ≤ b.1) := by
    rw [← h, List.pairwise_flatMap]
    refine ⟨fun id _ => ?_, sorted.imp fun {i j} hij a ha b hb => ?_⟩
    · rw [List.pairwise_map]
      exact List.pairwise_of_forall fun _ _ => Nat.le_refl id
    · obtain ⟨_, -, rfl⟩ := List.mem_map.mp ha
      obtain ⟨_, -, rfl⟩ := List.mem_map.mp hb
      exact Nat.le_of_lt hij
  have mem : (p, s) ∈ done ++ slot :: rest := h ▸ mem_schedule.mpr ⟨hp, hs⟩
  refine mem_before_of_not_rel ordered mem ?_ (Nat.not_le.mpr hlt)
  rintro rfl
  exact Nat.lt_irrefl p hlt

lemma mem_ticksOf : t ∈ P.ticksOf id ↔ t ≤ P.horizon.last := by
  unfold ticksOf
  split
  · rw [List.mem_reverse, Horizon.mem_ticks]
  · exact Horizon.mem_ticks

lemma mem_slots : (id, t) ∈ P.slots ↔ id ∈ P.nodes ∧ t ≤ P.horizon.last := by
  rw [slots, mem_schedule, mem_ticksOf]

lemma ticksOf_nodup (P : Plan) (id : NodeId) : (P.ticksOf id).Nodup := by
  unfold ticksOf
  split
  · exact List.nodup_reverse.mpr List.nodup_range
  · exact List.nodup_range

lemma Accepted.slots_nodup (accepted : P.Accepted) : P.slots.Nodup :=
  schedule_nodup accepted.nodes_sorted P.ticksOf_nodup

/-! ### Cells -/

/-- The literal of a node at a tick: the atom itself, or the symbol of the node. -/
def literal (P : Plan) (id : NodeId) (t : Nat) : Literal :=
  match P.arena.atom? id with
  | some name => ⟨.atom name, t⟩
  | none => ⟨.theta ⟨P.scope, id⟩, t⟩

/-- The definition of a node at a tick, over the literals of its operands. -/
def definition? (P : Plan) (id : NodeId) (t : Nat) : Option (Expr Literal) :=
  (P.arena.node? id).bind fun n =>
    (n.condition? P.horizon.last t).map (Expr.map fun q => P.literal q.1 q.2)

/-- The literal of a node at a tick together with its definition. -/
def slotCell (P : Plan) (id : NodeId) (t : Nat) : Cell :=
  ⟨P.literal id t, P.definition? id t⟩

lemma tick_literal : (P.literal id t).tick = t := by
  unfold literal
  split <;> rfl

lemma constraint?_slotCell :
    (P.slotCell id t).constraint? = (P.definition? id t).map (Constraint.mk (P.literal id t)) :=
  rfl

lemma theta_eq_literal (hn : P.arena.node? id = some n) : P.theta id n t = P.literal id t := by
  cases n <;> simp only [theta, literal, Arena.atom?, hn]

/-- The literal of an atom is the atom. -/
lemma literal_atom {a : Atom} (hn : P.arena.node? id = some (.atom a)) :
    P.literal id t = ⟨.atom a, t⟩ := by
  simp only [literal, Arena.atom?, hn]

lemma definition?_of_node? (hn : P.arena.node? id = some n) :
    P.definition? id t
      = (n.condition? P.horizon.last t).map (Expr.map fun q => P.literal q.1 q.2) := by
  rw [definition?, hn, Option.bind_some]

lemma slotCell_atom {a : Atom} (hn : P.arena.node? id = some (.atom a)) :
    P.slotCell id t = ⟨⟨.atom a, t⟩, none⟩ := by
  simp only [slotCell, literal_atom hn, definition?_of_node? hn, Node.condition?, Option.map_none]

lemma slotCell_of_condition? {condition : Expr (NodeId × Nat)} (hn : P.arena.node? id = some n)
    (hc : n.condition? P.horizon.last t = some condition) :
    P.slotCell id t
      = ⟨P.literal id t, some (condition.map fun q => P.literal q.1 q.2)⟩ := by
  simp only [slotCell, definition?_of_node? hn, hc, Option.map_some]

lemma definition?_eq_none_iff (accepted : P.Accepted) (hid : id ∈ P.nodes) :
    P.definition? id t = none ↔ ∃ a, P.arena.node? id = some (.atom a) := by
  obtain ⟨n, hn⟩ := accepted.exists_node? hid
  simp only [definition?_of_node? hn, hn, Option.map_eq_none_iff, Node.condition?_eq_none_iff,
    Option.some.injEq]
  cases n <;> simp [Node.isAtom]

/-- A definition mentions the literals of the operands, at ticks of the horizon. -/
lemma exists_operand_of_mem_lits (hn : P.arena.node? id = some n) (ht : t ≤ P.horizon.last)
    {d : Expr Literal} (hd : P.definition? id t = some d) {l : Literal} (hl : l ∈ d.lits) :
    ∃ p ∈ n.operands, ∃ s ≤ P.horizon.last, P.literal p s = l := by
  rw [definition?_of_node? hn, Option.map_eq_some_iff] at hd
  obtain ⟨condition, hc, rfl⟩ := hd
  rw [Expr.lits_map, List.mem_map] at hl
  obtain ⟨q, hq, rfl⟩ := hl
  obtain ⟨operand, tick⟩ := Node.mem_lits_condition? hc ht hq
  exact ⟨q.1, operand, q.2, tick, rfl⟩

/-- The operands of a condition can be replaced by their literals, once these are
known. -/
lemma mapM?_condition {f : NodeId × Nat → Option Literal} {condition : Expr (NodeId × Nat)}
    (hc : n.condition? P.horizon.last t = some condition) (ht : t ≤ P.horizon.last)
    (found : ∀ p ∈ n.operands, ∀ s ≤ P.horizon.last, f (p, s) = some (P.literal p s)) :
    condition.mapM? f = some (condition.map fun q => P.literal q.1 q.2) := by
  refine Expr.mapM?_eq_map condition fun q hq => ?_
  have reach := Node.mem_lits_condition? hc ht hq
  exact found q.1 reach.1 q.2 reach.2

/-- **A cell can be filled once the cells of the operands are.** -/
lemma cell?_eq_some (accepted : P.Accepted) {E : Encoding} (hid : id ∈ P.nodes)
    (ht : t ≤ P.horizon.last)
    (filled : ∀ p ∈ P.nodes, p < id → ∀ s ≤ P.horizon.last, E.cell? p s = some (P.slotCell p s)) :
    P.cell? E id t = some (P.slotCell id t) := by
  obtain ⟨n, hn⟩ := accepted.exists_node? hid
  simp only [cell?, hn, Option.bind_eq_bind, Option.bind_some, theta_eq_literal hn]
  cases hc : n.condition? P.horizon.last t with
  | none =>
      obtain ⟨a, rfl⟩ := Node.exists_atom_of_condition? hc
      rw [slotCell_atom hn, literal_atom hn]
      rfl
  | some condition =>
      have found : condition.mapM? (fun q => (E.cell? q.1 q.2).map (·.theta))
          = some (condition.map fun q => P.literal q.1 q.2) := by
        refine mapM?_condition hc ht fun p hp s hs => ?_
        have operand := accepted.operand_mem hid hn hp
        rw [filled p operand.1 operand.2 s hs]
        rfl
      rw [slotCell_of_condition? hn hc]
      simp only [found]
      rfl

end Plan

/-! ### The encoding after some slots -/

/-- Entries for some slots and an entry for one more are entries for all of them. -/
lemma ite_mem_snoc {α : Type} (entry : NodeId → Nat → α) (done : List (NodeId × Nat))
    (id p : NodeId) (t s : Nat) :
    (if (id, t) = (p, s) then some (entry id t)
      else if (p, s) ∈ done then some (entry p s) else none)
      = if (p, s) ∈ done ++ [(id, t)] then some (entry p s) else none := by
  by_cases same : (id, t) = (p, s)
  · cases same
    simp
  · have other : ¬ (p, s) = (id, t) := fun h => same h.symm
    simp only [if_neg same, List.mem_append, List.mem_singleton, other, or_false]

namespace Encoding

variable {P : Plan} {E : Encoding} {done rest : List (NodeId × Nat)} {slot : NodeId × Nat}

/-- The cells of some slots have been filled, in this order, and nothing else. -/
structure FilledBy (P : Plan) (E : Encoding) (done : List (NodeId × Nat)) : Prop where
  cell?_eq : ∀ id t, E.cell? id t = if (id, t) ∈ done then some (P.slotCell id t) else none
  constraints_eq :
    E.constraints.toList = done.filterMap fun slot => (P.slotCell slot.1 slot.2).constraint?

lemma filledBy_empty : FilledBy P empty [] where
  cell?_eq id t := by simp [cell?, empty]
  constraints_eq := rfl

/-- One step: the next slot of the plan can be filled. -/
lemma FilledBy.fill? (filled : FilledBy P E done) (accepted : P.Accepted)
    (h : P.slots = done ++ slot :: rest) :
    ∃ E', P.fill? E slot = some E' ∧ FilledBy P E' (done ++ [slot]) := by
  obtain ⟨id, t⟩ := slot
  have mem : (id, t) ∈ P.slots := h ▸ List.mem_append_right done List.mem_cons_self
  obtain ⟨hid, ht⟩ := Plan.mem_slots.mp mem
  have hcell : P.cell? E id t = some (P.slotCell id t) := by
    refine Plan.cell?_eq_some accepted hid ht fun p hp hlt s hs => ?_
    have before := Plan.mem_done_of_lt accepted.nodes_sorted h hp (Plan.mem_ticksOf.mpr hs) hlt
    rw [filled.cell?_eq, if_pos before]
  refine ⟨E.record id t (P.slotCell id t), by rw [Plan.fill?, hcell]; rfl, ?_, ?_⟩
  · intro p s
    rw [cell?_record, filled.cell?_eq]
    exact ite_mem_snoc P.slotCell done id p t s
  · rw [constraints_record, filled.constraints_eq, List.filterMap_append]
    cases hc : (P.slotCell id t).constraint? <;> simp [hc]

/-- A run: all slots of the plan can be filled, one after the other. -/
lemma FilledBy.foldlM (filled : FilledBy P E done) (accepted : P.Accepted)
    (h : P.slots = done ++ rest) :
    ∃ E', rest.foldlM P.fill? E = some E' ∧ FilledBy P E' P.slots := by
  induction rest generalizing done E with
  | nil =>
      rw [List.append_nil] at h
      exact ⟨E, rfl, h ▸ filled⟩
  | cons slot rest ih =>
      obtain ⟨E₁, step, filled₁⟩ := filled.fill? accepted h
      obtain ⟨E', run, filled'⟩ := ih filled₁ (by rw [h, List.append_assoc]; rfl)
      refine ⟨E', ?_, filled'⟩
      rw [List.foldlM_cons, step]
      exact run

end Encoding

/-- **Every accepted plan has an encoding**, with the cells and the constraints of the
closed form. -/
theorem Plan.Accepted.exists_encode? {P : Plan} (accepted : P.Accepted) :
    ∃ E, P.encode? = some E ∧ Encoding.FilledBy P E P.slots :=
  Encoding.filledBy_empty.foldlM accepted rfl

end BoundedTemporal
