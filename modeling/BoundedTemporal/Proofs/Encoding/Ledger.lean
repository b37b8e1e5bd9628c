/-
An encoding that is kept in three tables, with nothing taken for granted.

* `Ledger`: the literal of each slot, the position of its definition, and the
  definitions in order;
* `Ledger.fill?`, `Plan.ledger?`: fills one slot, or all of them. It is refused where an
  operand has no literal yet, or where a sum of ticks does not fit into a word;
* `Ledger.definition?`: the definition of a slot, found at its position;
* `Ledger.FilledBy`: the three tables are in step after some slots.
  `Ledger.FilledBy.fill?` is one step, `Ledger.FilledBy.foldlM` a run;
* `Plan.Accepted.exists_ledger?`: nothing is ever refused.
-/
import BoundedTemporal.Proofs.Encoding.ClosedForm
import BoundedTemporal.Proofs.Time.Word

namespace BoundedTemporal

/-- All intervals of an arena have ticks as their bounds. -/
def Arena.Fits (A : Arena) : Prop :=
  ∀ id n, A.node? id = some n → ∀ I, n.interval? = some I → I.Fits

/-- The tables of an encoding. -/
structure Ledger where
  /-- The literal of each slot. -/
  thetas : Std.HashMap (NodeId × Nat) Literal
  /-- The position of the definition of each slot that is not an atom. -/
  positions : Std.HashMap (NodeId × Nat) Nat
  /-- The definitions in order. -/
  constraints : Array Constraint

namespace Ledger

/-- The tables with nothing in them. -/
def empty : Ledger :=
  ⟨∅, ∅, #[]⟩

/-- Enters a literal that is not defined. -/
def name (L : Ledger) (slot : NodeId × Nat) (theta : Literal) : Ledger :=
  { L with thetas := L.thetas.insert slot theta }

/-- Enters a literal with its definition, which gets the next position. -/
def define (L : Ledger) (slot : NodeId × Nat) (theta : Literal) (definition : Expr Literal) :
    Ledger where
  thetas := L.thetas.insert slot theta
  positions := L.positions.insert slot L.constraints.size
  constraints := L.constraints.push ⟨theta, definition⟩

/-- Fills one slot, unless that has been done. An operand that has no literal yet is
refused, and so is a tick that does not fit into a word. -/
def fill? (P : Plan) (L : Ledger) (slot : NodeId × Nat) : Option Ledger :=
  if slot ∈ L.thetas then some L
  else do
    let n ← P.arena.node? slot.1
    let theta := P.theta slot.1 n slot.2
    if n.isAtom then
      return L.name slot theta
    else
      let condition ← n.conditionInWords? P.horizon.last slot.2
      let definition ← condition.mapM? (L.thetas[·]?)
      return L.define slot theta definition

/-- The definition of a slot. Nothing is found where its position is out of range. -/
def definition? (L : Ledger) (slot : NodeId × Nat) : Option (Option (Expr Literal)) :=
  match L.positions[slot]? with
  | none => some none
  | some i => L.constraints[i]?.map fun c => some c.definition

end Ledger

/-- Fills all slots in order. -/
def Plan.ledger? (P : Plan) : Option Ledger :=
  P.slots.foldlM (Ledger.fill? P) .empty

namespace Ledger

variable {P : Plan} {L : Ledger} {done rest : List (NodeId × Nat)} {slot : NodeId × Nat}
  {n : Node NodeId}

/-! ### The tables in step -/

/-- Some slots have been filled, in this order, and nothing else: each has its literal,
and each position is that of the definition of its slot. -/
structure FilledBy (P : Plan) (L : Ledger) (done : List (NodeId × Nat)) : Prop where
  thetas_eq : ∀ slot, L.thetas[slot]?
    = if slot ∈ done then some (P.literal slot.1 slot.2) else none
  positions_eq : ∀ slot, L.positions[slot]?.map (L.constraints[·]?)
    = if slot ∈ done then (P.slotCell slot.1 slot.2).constraint?.map some else none
  constraints_eq :
    L.constraints.toList = done.filterMap fun slot => (P.slotCell slot.1 slot.2).constraint?

lemma filledBy_empty : FilledBy P empty [] where
  thetas_eq slot := by simp [empty]
  positions_eq slot := by simp [empty]
  constraints_eq := rfl

/-- A position is in range, and leads to the definition of its slot. -/
lemma FilledBy.of_position (filled : FilledBy P L done) {i : Nat}
    (h : L.positions[slot]? = some i) :
    ∃ c, L.constraints[i]? = some c ∧ (P.slotCell slot.1 slot.2).constraint? = some c := by
  have found := filled.positions_eq slot
  rw [h, Option.map_some] at found
  split at found
  · obtain ⟨c, hc, hi⟩ := Option.map_eq_some_iff.mp found.symm
    exact ⟨c, hi.symm, hc⟩
  · cases found

/-- One more slot gets its literal. -/
lemma FilledBy.thetas_insert (filled : FilledBy P L done) (slot slot' : NodeId × Nat) :
    (L.thetas.insert slot (P.literal slot.1 slot.2))[slot']?
      = if slot' ∈ done ++ [slot] then some (P.literal slot'.1 slot'.2) else none := by
  obtain ⟨id, t⟩ := slot
  obtain ⟨p, s⟩ := slot'
  rw [← ite_mem_snoc P.literal, ← filled.thetas_eq, Std.HashMap.getElem?_insert]
  by_cases h : (id, t) = (p, s) <;> simp [h]

/-- An atom is entered. -/
lemma FilledBy.name (filled : FilledBy P L done) (fresh : slot ∉ done)
    (hc : (P.slotCell slot.1 slot.2).constraint? = none) :
    FilledBy P (L.name slot (P.literal slot.1 slot.2)) (done ++ [slot]) := by
  constructor
  · exact fun slot' => filled.thetas_insert slot slot'
  · intro slot'
    rw [Ledger.name, filled.positions_eq]
    by_cases same : slot' = slot
    · rw [same, if_neg fresh, if_pos (by simp), hc]
      rfl
    · simp [same]
  · rw [List.filterMap_append, ← filled.constraints_eq]
    simp [hc, Ledger.name]

/-- A definition is entered. What has been entered before stays at its position. -/
lemma FilledBy.define (filled : FilledBy P L done) {definition : Expr Literal}
    (hc : (P.slotCell slot.1 slot.2).constraint?
      = some ⟨P.literal slot.1 slot.2, definition⟩) :
    FilledBy P (L.define slot (P.literal slot.1 slot.2) definition) (done ++ [slot]) := by
  constructor
  · exact fun slot' => filled.thetas_insert slot slot'
  · intro slot'
    simp only [Ledger.define, Std.HashMap.getElem?_insert, Array.getElem?_push]
    by_cases same : slot' = slot
    · simp [same, hc]
    · have other : ¬ slot = slot' := fun h => same h.symm
      have before := filled.positions_eq slot'
      simp only [beq_iff_eq, other, if_false, List.mem_append, List.mem_singleton, same, or_false]
      rw [← before]
      cases hp : L.positions[slot']? with
      | none => rfl
      | some i =>
          -- the position is in range, so it is not the next one
          obtain ⟨c, hi, -⟩ := filled.of_position hp
          have earlier : i ≠ L.constraints.size :=
            Nat.ne_of_lt (Array.getElem?_eq_some_iff.mp hi).1
          simp only [Option.map_some, if_neg earlier]
  · rw [List.filterMap_append, ← filled.constraints_eq]
    simp [Ledger.define, hc]

/-- One step: the next slot of the plan is filled, and nothing is refused. -/
lemma FilledBy.fill? (filled : FilledBy P L done) (accepted : P.Accepted) (fits : P.arena.Fits)
    (short : P.horizon.last < largestTick) (h : P.slots = done ++ slot :: rest) :
    ∃ L', Ledger.fill? P L slot = some L' ∧ FilledBy P L' (done ++ [slot]) := by
  have mem : slot ∈ P.slots := h ▸ List.mem_append_right done List.mem_cons_self
  obtain ⟨hid, ht⟩ := Plan.mem_slots.mp mem
  have fresh : slot ∉ done := by
    have nodup := accepted.slots_nodup
    rw [h] at nodup
    exact fun hdone => (List.nodup_append.mp nodup).2.2 _ hdone _ List.mem_cons_self rfl
  have absent : slot ∉ L.thetas := by
    rw [Std.HashMap.mem_iff_isSome_getElem?, filled.thetas_eq, if_neg fresh]
    exact Bool.false_ne_true
  obtain ⟨n, hn⟩ := accepted.exists_node? hid
  simp only [Ledger.fill?, if_neg absent, hn, Option.bind_eq_bind, Option.bind_some,
    Plan.theta_eq_literal hn]
  cases hc : n.condition? P.horizon.last slot.2 with
  | none =>
      have undefined : (P.slotCell slot.1 slot.2).constraint? = none := by
        obtain ⟨a, rfl⟩ := Node.exists_atom_of_condition? hc
        rw [Plan.slotCell_atom hn]
        rfl
      rw [if_pos (Node.condition?_eq_none_iff.mp hc)]
      exact ⟨_, rfl, filled.name fresh undefined⟩
  | some condition =>
      have operator : ¬ n.isAtom = true := by
        rw [← Node.condition?_eq_none_iff, hc]
        exact Option.some_ne_none condition
      have words : n.conditionInWords? P.horizon.last slot.2 = some condition := by
        rw [Node.conditionInWords?_eq (fits slot.1 n hn) ht short, hc]
      have found : condition.mapM? (L.thetas[·]?)
          = some (condition.map fun q => P.literal q.1 q.2) := by
        refine Plan.mapM?_condition hc ht fun p hp s hs => ?_
        obtain ⟨hp, hlt⟩ := accepted.operand_mem hid hn hp
        have before :=
          Plan.mem_done_of_lt accepted.nodes_sorted h hp (Plan.mem_ticksOf.mpr hs) hlt
        rw [filled.thetas_eq, if_pos before]
      have defined : (P.slotCell slot.1 slot.2).constraint?
          = some ⟨P.literal slot.1 slot.2, condition.map fun q => P.literal q.1 q.2⟩ := by
        rw [Plan.slotCell_of_condition? hn hc]
        rfl
      rw [if_neg operator, words, Option.bind_some, found, Option.bind_some]
      exact ⟨_, rfl, filled.define defined⟩

/-- A run: all slots of the plan are filled, one after the other. -/
lemma FilledBy.foldlM (filled : FilledBy P L done) (accepted : P.Accepted) (fits : P.arena.Fits)
    (short : P.horizon.last < largestTick) (h : P.slots = done ++ rest) :
    ∃ L', rest.foldlM (Ledger.fill? P) L = some L' ∧ FilledBy P L' P.slots := by
  induction rest generalizing done L with
  | nil =>
      rw [List.append_nil] at h
      exact ⟨L, rfl, h ▸ filled⟩
  | cons slot rest ih =>
      obtain ⟨L₁, step, filled₁⟩ := filled.fill? accepted fits short h
      obtain ⟨L', run, filled'⟩ := ih filled₁ (by rw [h, List.append_assoc]; rfl)
      refine ⟨L', ?_, filled'⟩
      rw [List.foldlM_cons, step]
      exact run

/-- The definition of a slot is found at its position. -/
lemma FilledBy.definition?_eq (filled : FilledBy P L done) (h : slot ∈ done) :
    L.definition? slot = some (P.definition? slot.1 slot.2) := by
  unfold definition?
  cases hp : L.positions[slot]? with
  | none =>
      have none := filled.positions_eq slot
      rw [hp, if_pos h, Plan.constraint?_slotCell] at none
      cases hd : P.definition? slot.1 slot.2 with
      | none => rfl
      | some d => rw [hd] at none; cases none
  | some i =>
      obtain ⟨c, hi, hc⟩ := filled.of_position hp
      rw [Plan.constraint?_slotCell, Option.map_eq_some_iff] at hc
      obtain ⟨d, hd, rfl⟩ := hc
      simp only [hi, Option.map_some, hd]

end Ledger

/-- **Nothing is refused**: up to a horizon before the largest tick, the tables of an
accepted plan are filled, and they are in step. -/
theorem Plan.Accepted.exists_ledger? {P : Plan} (accepted : P.Accepted) (fits : P.arena.Fits)
    (short : P.horizon.last < largestTick) :
    ∃ L, P.ledger? = some L ∧ Ledger.FilledBy P L P.slots :=
  Ledger.filledBy_empty.foldlM accepted fits short rfl

end BoundedTemporal
