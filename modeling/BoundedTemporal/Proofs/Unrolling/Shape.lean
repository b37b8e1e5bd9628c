/-
What the definitions of an unrolling look like.

* `Expr.mem_ticks`: the ticks that an expression mentions are those of its literals;
* `Unrolling.Shape`: when a definition is a constant, what it is made of otherwise, and which
  literals it mentions in which order;
* `Unrolling.definition?_shape`: every definition of an unrolling has this shape.
-/
import BoundedTemporal.Proofs.Encoding.Shape
import BoundedTemporal.Proofs.Unrolling.Applied

namespace BoundedTemporal

lemma Expr.mem_ticks {e : Expr Literal} {s : Nat} : s ∈ e.ticks ↔ ∃ l ∈ e.lits, l.tick = s := by
  rw [Expr.ticks, Std.TreeSet.mem_toList, Std.TreeSet.mem_ofList, List.contains_iff_mem,
    List.mem_map]

variable {P : Plan} {id : NodeId} {n : Node NodeId} {t : Nat} {d : Expr Literal}

namespace Plan

/-- An operator has a definition at every tick. -/
lemma exists_definition?_of_node? (hn : P.arena.node? id = some n) (operator : n.isAtom = false)
    (t : Nat) : ∃ d, P.definition? id t = some d := by
  rw [← Option.ne_none_iff_exists', definition?_of_node? hn, Ne, Option.map_eq_none_iff,
    Node.condition?_eq_none_iff, operator]
  exact Bool.false_ne_true

/-- A definition is a constant where the condition of the node is one, and reduced elsewhere. -/
lemma definition?_cases (hn : P.arena.node? id = some n) (ht : t ≤ P.horizon.last)
    (hd : P.definition? id t = some d) :
    (n.Granted P.horizon.last t ∧ ¬ n.Denied P.horizon.last t ∧ d = .top)
      ∨ (¬ n.Granted P.horizon.last t ∧ n.Denied P.horizon.last t ∧ d = .bot)
      ∨ (¬ n.Granted P.horizon.last t ∧ ¬ n.Denied P.horizon.last t ∧ d.Reduced) := by
  rw [definition?_of_node? hn, Option.map_eq_some_iff] at hd
  obtain ⟨condition, hc, rfl⟩ := hd
  rcases Node.condition?_cases hc ht with
    ⟨granted, denied, rfl⟩ | ⟨granted, denied, rfl⟩ | ⟨granted, denied, reduced⟩
  · exact .inl ⟨granted, denied, rfl⟩
  · exact .inr (.inl ⟨granted, denied, rfl⟩)
  · exact .inr (.inr ⟨granted, denied, reduced.map _⟩)

/-- The literals of a definition are those of what the node looks at. -/
lemma lits_definition? (hn : P.arena.node? id = some n) (hd : P.definition? id t = some d) :
    d.lits = (n.reads P.horizon.last t).map fun q => P.literal q.1 q.2 := by
  rw [definition?_of_node? hn, Option.map_eq_some_iff] at hd
  obtain ⟨condition, hc, rfl⟩ := hd
  rw [Expr.lits_map, Node.lits_condition? hc]

/-- A tick that a definition mentions is one that the node looks at. -/
lemma exists_mem_reads_of_mem_ticks (hn : P.arena.node? id = some n)
    (hd : P.definition? id t = some d) {s : Nat} (hs : s ∈ d.ticks) :
    ∃ q ∈ n.reads P.horizon.last t, q.2 = s := by
  obtain ⟨l, hl, rfl⟩ := Expr.mem_ticks.mp hs
  rw [lits_definition? hn hd] at hl
  obtain ⟨q, hq, rfl⟩ := List.mem_map.mp hl
  exact ⟨q, hq, tick_literal.symm⟩

/-- A node looks at nodes of the formula, at ticks of the horizon. -/
lemma Accepted.of_mem_reads (accepted : P.Accepted) (hid : id ∈ P.nodes)
    (hn : P.arena.node? id = some n) (ht : t ≤ P.horizon.last) {q : NodeId × Nat}
    (hq : q ∈ n.reads P.horizon.last t) : q.1 ∈ P.nodes ∧ q.2 ≤ P.horizon.last := by
  obtain ⟨operand, le⟩ := Node.of_mem_reads ht hq
  exact ⟨(accepted.operand_mem hid hn operand).1, le⟩

end Plan

namespace Unrolling

/-- The shape of the definition `d` of the node `n` at tick `t`, where the literals are those
that the unrolling of a plan answers with. -/
structure Shape (P : Plan) (U : Unrolling) (n : Node NodeId) (t : Nat) (d : Expr Literal) :
    Prop where
  /-- It is true exactly if the node makes a demand of no tick. -/
  top_iff : d = .top ↔ n.Granted P.horizon.last t
  /-- It is false exactly if the node can find a witness at no tick. -/
  bot_iff : d = .bot ↔ n.Denied P.horizon.last t
  /-- In all other cases it contains no constants, and its conjunctions and disjunctions have
  at least two operands. -/
  reduced : ¬ n.Granted P.horizon.last t → ¬ n.Denied P.horizon.last t → d.Reduced
  /-- It mentions the literals of what the node looks at, in this order and as often. -/
  lits_eq : d.lits.map .ok = (n.reads P.horizon.last t).map fun q => U.theta q.1 q.2
  /-- It mentions ticks of the horizon only. -/
  ticks_le : ∀ s ∈ d.ticks, s ≤ P.horizon.last
  /-- The definition of `since` mentions no tick after `t`, and none before the window. -/
  ticks_since : ∀ I p q, n = .since I p q → ∀ s ∈ d.ticks, s ≤ t ∧ I.upper.Admits (t - s)

/-- **The shape of definitions**: every operator has a definition at every tick of the horizon,
which is a constant only where its operands cannot matter, and mentions the operands at the
ticks of the window in the order of the window. -/
theorem definition?_shape (accepted : P.Accepted) (k : Nat) (hid : id ∈ P.nodes)
    (hn : P.arena.node? id = some n) (operator : n.isAtom = false) (ht : t ≤ P.horizon.last) :
    let U := apply^[k + 1] (.ofPlan P)
    ∃ d, U.definition? id t = .ok (some d) ∧ Shape P U n t d := by
  intro U
  obtain ⟨d, hd⟩ := Plan.exists_definition?_of_node? hn operator t
  refine ⟨d, by rw [accepted.definition?_apply k hid ht, hd], ?_⟩
  have constants := Plan.definition?_cases hn ht hd
  exact {
    top_iff := by
      rcases constants with ⟨granted, -, rfl⟩ | ⟨granted, -, rfl⟩ | ⟨granted, -, reduced⟩
      · exact iff_of_true rfl granted
      · exact iff_of_false (fun h => by cases h) granted
      · exact iff_of_false (fun h => by cases h ▸ reduced) granted
    bot_iff := by
      rcases constants with ⟨-, denied, rfl⟩ | ⟨-, denied, rfl⟩ | ⟨-, denied, reduced⟩
      · exact iff_of_false (fun h => by cases h) denied
      · exact iff_of_true rfl denied
      · exact iff_of_false (fun h => by cases h ▸ reduced) denied
    reduced := by
      intro granted denied
      rcases constants with ⟨h, -⟩ | ⟨-, h, -⟩ | ⟨-, -, reduced⟩
      · exact absurd h granted
      · exact absurd h denied
      · exact reduced
    lits_eq := by
      rw [Plan.lits_definition? hn hd, List.map_map]
      refine List.map_congr_left fun q hq => ?_
      obtain ⟨node, tick⟩ := accepted.of_mem_reads hid hn ht hq
      exact (accepted.theta_apply k node tick).symm
    ticks_le := by
      intro s hs
      obtain ⟨q, hq, rfl⟩ := Plan.exists_mem_reads_of_mem_ticks hn hd hs
      exact (accepted.of_mem_reads hid hn ht hq).2
    ticks_since := by
      rintro I p q rfl s hs
      obtain ⟨l, hl, rfl⟩ := Plan.exists_mem_reads_of_mem_ticks hn hd hs
      exact Node.of_mem_reads_since hl }

/-- `a S[1,2] b` up to tick `3`: at tick `0` the window lies before the trace, and at tick `3`
both of its ticks are looked at, the later one first. -/
theorem definition?_shape_since :
    let A := Arena.build ∅ [.add (.atom "a"), .add (.atom "b"),
      .add (.since ⟨1, .finite 2, by decide⟩ 0 1)]
    let a (t : Nat) : Literal := ⟨.atom "a", t⟩
    let b (t : Nat) : Literal := ⟨.atom "b", t⟩
    ∃ P, Plan.make A 2 ⟨3⟩ "theta" = .ok P
      ∧ (ofPlan P).apply.definition? 2 0 = .ok (some .bot)
      ∧ ∃ d, (ofPlan P).apply.definition? 2 3 = .ok (some d) ∧ d.Reduced
        ∧ d.lits = [a 3, b 2, a 2, a 3, b 1] := by
  intro A a b
  let P : Plan := ⟨A, 2, ⟨3⟩, "theta", A.descendants 2⟩
  have made : Plan.make A 2 ⟨3⟩ "theta" = .ok P :=
    Plan.make_eq_ok (by decide) (by decide) (by decide)
  have accepted : P.Accepted := ⟨A, 2, ⟨3⟩, "theta", ⟨_, rfl⟩, made⟩
  have root := accepted.root_mem
  have node : A.node? 2 = some (.since ⟨1, .finite 2, by decide⟩ 0 1) := rfl
  obtain ⟨d₀, hd₀, first⟩ := definition?_shape accepted 0 root node rfl (t := 0) (by decide)
  obtain ⟨d₃, hd₃, last⟩ := definition?_shape accepted 0 root node rfl (t := 3) (by decide)
  have before : Node.Denied 3 0 (.since ⟨1, .finite 2, by decide⟩ 0 1 : Node NodeId) :=
    Nat.zero_lt_one
  have within : ¬ Node.Denied 3 3 (.since ⟨1, .finite 2, by decide⟩ 0 1 : Node NodeId) :=
    fun h : 3 < 1 => by omega
  refine ⟨P, made, ?_, d₃, hd₃, last.reduced not_false within, ?_⟩
  · rw [← first.bot_iff.mpr before]
    exact hd₀
  · have nodes : P.nodes = [0, 1, 2] := by cbv
    let reads : List (NodeId × Nat) := Node.reads 3 3 (.since ⟨1, .finite 2, by decide⟩ 0 1)
    have inside : ∀ q ∈ reads, q.1 ∈ P.nodes ∧ q.2 ≤ 3 := by
      rw [nodes]
      decide
    have answers : reads.map (fun q => (apply^[0 + 1] (ofPlan P)).theta q.1 q.2)
        = [a 3, b 2, a 2, a 3, b 1].map .ok :=
      calc reads.map (fun q => (apply^[0 + 1] (ofPlan P)).theta q.1 q.2)
        _ = reads.map fun q => .ok (P.literal q.1 q.2) :=
            List.map_congr_left fun q hq =>
              accepted.theta_apply 0 (inside q hq).1 (inside q hq).2
        _ = [a 3, b 2, a 2, a 3, b 1].map .ok := by decide
    exact List.map_injective_iff.mpr (fun _ _ => Except.ok.inj) (last.lits_eq.trans answers)

end Unrolling

end BoundedTemporal
