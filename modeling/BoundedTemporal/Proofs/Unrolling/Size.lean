/-
The size of an encoding.

* `Plan.occurrences`: how many literals the definition of a node at a tick has, as its node
  says; `Plan.length_lits_definition?`: the definition has as many;
* `Encoding.FilledBy.size_cells`, `Encoding.FilledBy.size_constraints`,
  `Encoding.FilledBy.size_definedNodes`, `Encoding.FilledBy.length_flatMap_lits`: what is counted
  in the tables of an encoding;
* `Unrolling.stats_exact`: the counts of an unrolling before and after it has been applied.
-/
import BoundedTemporal.Proofs.Encoding.Size
import BoundedTemporal.Proofs.Unrolling.Shape
import BoundedTemporal.Proofs.Unrolling.Stratified
import BoundedTemporal.Proofs.Unrolling.Totality

namespace BoundedTemporal

/-- A table has as many entries as there are keys, if these are known. -/
lemma size_eq_length_of_mem_iff {α β : Type} [BEq α] [LawfulBEq α] [Hashable α]
    {table : Std.HashMap α β} {keys : List α} (distinct : keys.Nodup)
    (mem_iff : ∀ a, a ∈ table ↔ a ∈ keys) : table.size = keys.length := by
  rw [← Std.HashMap.length_keys]
  refine List.Perm.length_eq ?_
  rw [List.perm_ext_iff_of_nodup Std.HashMap.nodup_keys distinct]
  exact fun a => Std.HashMap.mem_keys.trans (mem_iff a)

namespace Plan

variable {P : Plan} {id : NodeId} {t : Nat} {d : Expr Literal}

/-- How many literals the definition of a node at a tick has; a missing node has none. -/
def occurrences (P : Plan) (id : NodeId) (t : Nat) : Nat :=
  (P.arena.node? id).elim 0 (·.occurrences P.horizon.last t)

/-- **The literals of a definition** are as many as its node says. -/
lemma length_lits_definition? (hd : P.definition? id t = some d) :
    d.lits.length = P.occurrences id t := by
  cases hn : P.arena.node? id with
  | none =>
      rw [definition?, hn] at hd
      cases hd
  | some n =>
      rw [lits_definition? hn hd, List.length_map, Node.length_reads, occurrences, hn,
        Option.elim_some]

lemma occurrences_le (ht : t ≤ P.horizon.last) :
    P.occurrences id t ≤ max 2 ((P.horizon.last + 1) * (P.horizon.last + 2) / 2) := by
  unfold occurrences
  cases P.arena.node? id with
  | none => exact Nat.zero_le _
  | some n => exact n.occurrences_le ht

/-- All nodes, or some of them, are taken at all ticks. -/
lemma length_schedule (P : Plan) {α : Type} (ids : List NodeId) (f : NodeId → Nat → α) :
    (ids.flatMap fun id => (P.ticksOf id).map (f id)).length
      = ids.length * (P.horizon.last + 1) := by
  have ticks (id : NodeId) : ((P.ticksOf id).map (f id)).length = P.horizon.last + 1 := by
    rw [List.length_map, length_ticksOf]
  simp only [List.length_flatMap, ticks, List.map_const', List.sum_replicate_nat]

/-- The order of the ticks does not matter for a sum. -/
lemma sum_ticksOf (P : Plan) (id : NodeId) (f : Nat → Nat) :
    ((P.ticksOf id).map f).sum = ∑ t ∈ Finset.range (P.horizon.last + 1), f t := by
  rw [← List.sum_toFinset f (P.ticksOf_nodup id)]
  refine Finset.sum_congr (Finset.ext fun t => ?_) fun _ _ => rfl
  rw [List.mem_toFinset, mem_ticksOf, Finset.mem_range, Nat.lt_succ_iff]

end Plan

/-! ### What is counted in the tables -/

namespace Encoding

variable {P : Plan} {E : Encoding} {id : NodeId}

lemma FilledBy.size_cells (filled : FilledBy P E P.slots) (accepted : P.Accepted) :
    E.cells.size = P.nodes.length * (P.horizon.last + 1) := by
  rw [← P.length_schedule P.nodes Prod.mk]
  refine size_eq_length_of_mem_iff accepted.slots_nodup fun slot => ?_
  rw [Std.HashMap.mem_iff_isSome_getElem?]
  change (E.cell? slot.1 slot.2).isSome ↔ slot ∈ P.slots
  rw [filled.cell?_eq]
  split <;> simp [*]

lemma FilledBy.size_constraints (filled : FilledBy P E P.slots) (accepted : P.Accepted) :
    E.constraints.size = P.operators.length * (P.horizon.last + 1) := by
  have lefts := congrArg List.length (filled.map_theta_constraints accepted)
  rwa [List.length_map, Array.length_toList, P.length_schedule] at lefts

lemma mem_definedNodes : id ∈ Unrolling.definedNodes E ↔
    ∃ l ∈ E.constraints.toList.map (·.theta), l.proposition.symbol?.map (·.node) = some id := by
  simp only [Unrolling.definedNodes, Std.ExtTreeSet.mem_ofList, List.contains_iff_mem,
    List.mem_filterMap, List.mem_map, exists_exists_and_eq_and]

/-- The nodes that are defined are the operators. -/
lemma FilledBy.mem_definedNodes_iff (filled : FilledBy P E P.slots) (accepted : P.Accepted) :
    id ∈ Unrolling.definedNodes E ↔ id ∈ P.operators := by
  have symbol {p : NodeId} (hp : p ∈ P.operators) (t : Nat) :
      (P.literal p t).proposition.symbol?.map (·.node) = some p := by
    rw [Plan.literal_operator (Plan.mem_operators_iff.mp hp).2]
    rfl
  rw [mem_definedNodes, filled.map_theta_constraints accepted]
  constructor
  · rintro ⟨l, hl, hid⟩
    obtain ⟨p, hp, hl⟩ := List.mem_flatMap.mp hl
    obtain ⟨t, -, rfl⟩ := List.mem_map.mp hl
    rw [symbol hp] at hid
    exact Option.some.inj hid ▸ hp
  · intro hid
    have start : 0 ∈ P.ticksOf id := Plan.mem_ticksOf.mpr (Nat.zero_le _)
    exact ⟨_, List.mem_flatMap.mpr ⟨id, hid, List.mem_map_of_mem start⟩, symbol hid 0⟩

lemma FilledBy.size_definedNodes (filled : FilledBy P E P.slots) (accepted : P.Accepted) :
    (Unrolling.definedNodes E).size = P.operators.length := by
  rw [← Std.ExtTreeSet.length_toList]
  refine congrArg _ ((Search.toList_sorted _).eq_of_mem_iff accepted.operators_sorted fun id => ?_)
  rw [Std.ExtTreeSet.mem_toList, filled.mem_definedNodes_iff accepted]

/-- All literals of all definitions, counted node by node. -/
lemma FilledBy.length_flatMap_lits (filled : FilledBy P E P.slots) (accepted : P.Accepted) :
    (E.constraints.toList.flatMap fun c => c.definition.lits).length
      = (P.operators.map fun id =>
          ∑ t ∈ Finset.range (P.horizon.last + 1), P.occurrences id t).sum := by
  have counts : E.constraints.toList.map (fun c => c.definition.lits.length)
      = P.operators.flatMap fun id => (P.ticksOf id).map (P.occurrences id) :=
    filled.map_constraints accepted fun _ _ _ hd => Plan.length_lits_definition? hd
  rw [List.length_flatMap, counts, List.flatMap_def, List.sum_flatten, List.map_map]
  exact congrArg _ (List.map_congr_left fun id _ => P.sum_ticksOf id _)

end Encoding

/-! ### The counts of an unrolling -/

namespace Unrolling

variable {P : Plan}

/-- **The counts are exact.** Before anything is encoded only the nodes count. Afterwards every
node has its literal at each tick; the symbols are those of the operators, each defined once at
each tick; and the literals in all definitions are as many as the windows of the nodes say, at
most quadratically many in each. -/
theorem stats_exact (accepted : P.Accepted) :
    (ofPlan P).stats = ⟨P.nodes.length, 0, 0, 0, 0⟩
      ∧ ∀ n, let U := apply^[n + 1] (ofPlan P)
        ∃ ss, U.symbols = .ok ss ∧ ss.length = P.operators.length
          ∧ U.stats = {
              nodes := P.nodes.length
              thetas := P.nodes.length * (P.horizon.last + 1)
              freshSymbols := ss.length
              constraints := ss.length * (P.horizon.last + 1)
              literalOccurrences := (P.operators.map fun id =>
                ∑ t ∈ Finset.range (P.horizon.last + 1), P.occurrences id t).sum }
          ∧ ∀ id t d, U.definition? id t = .ok (some d) →
              d.lits.length = P.occurrences id t
                ∧ d.lits.length ≤ max 2 ((P.horizon.last + 1) * (P.horizon.last + 2) / 2) := by
  refine ⟨?_, fun n => ?_⟩
  · rfl
  · obtain ⟨E, filled, applied⟩ := accepted.apply_iterate
    rw [applied n]
    refine ⟨_, rfl, List.length_map _, ?_, fun id t d h => ?_⟩
    · simp only [stats, Option.getD_some, List.length_map, filled.size_cells accepted,
        filled.size_definedNodes accepted, filled.size_constraints accepted,
        filled.length_flatMap_lits accepted]
    · obtain ⟨-, ht, hd⟩ := (definition?_eq_ok_iff filled).mp h
      rw [Plan.length_lits_definition? hd]
      exact ⟨rfl, Plan.occurrences_le ht⟩

/-- `a S[1,2] (a U[0,inf] b)` up to tick `2`: `U` has `6`, `3` and `1` literals at the three ticks,
and `S` has none at tick `0`, then `2` and `5`. -/
theorem stats_exact_since :
    let A := Arena.build ∅ [.add (.atom "a"), .add (.atom "b"),
      .add (.until ⟨0, .infinite, trivial⟩ 0 1), .add (.since ⟨1, .finite 2, by decide⟩ 0 2)]
    ∃ P, Plan.make A 3 ⟨2⟩ "theta" = .ok P ∧ (ofPlan P).stats = ⟨4, 0, 0, 0, 0⟩
      ∧ (ofPlan P).apply.stats = ⟨4, 12, 2, 6, 17⟩ := by
  intro A
  let P : Plan := ⟨A, 3, ⟨2⟩, "theta", A.descendants 3⟩
  have made : Plan.make A 3 ⟨2⟩ "theta" = .ok P :=
    Plan.make_eq_ok (by decide) (by decide) (by decide)
  have accepted : P.Accepted := ⟨A, 3, ⟨2⟩, "theta", ⟨_, rfl⟩, made⟩
  have nodes : P.nodes = [0, 1, 2, 3] := by
    change A.descendants 3 = _
    unfold A
    cbv
  have operators : P.operators = [2, 3] := by
    rw [Plan.operators, nodes]
    rfl
  obtain ⟨before, after⟩ := stats_exact accepted
  obtain ⟨ss, -, length, counts, -⟩ := after 0
  rw [operators] at length counts
  rw [nodes] at before counts
  refine ⟨P, made, before, counts.trans ?_⟩
  rw [length]
  decide

end Unrolling

end BoundedTemporal
