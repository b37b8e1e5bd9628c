/-
The constraints of an unrolling as a list of definitions.

* `Node.fillOrder`: the ticks at which a node is defined, in order;
* `Encoding.FilledBy.map_constraints`, `Encoding.FilledBy.map_theta_constraints`: the
  constraints in order, and the literals that they define;
* `Encoding.FilledBy.of_constraints_eq`: whatever comes before a constraint has
  defined its operands;
* `Unrolling.Stratified`: a list of constraints defines each operator once at each
  tick, from the operands up, and says what the answers about single nodes say;
* `Unrolling.constraints_stratified`: the constraints of an unrolling are such a list.
-/
import BoundedTemporal.Proofs.Unrolling.Applied

namespace BoundedTemporal

/-- The ticks up to the last one, in the order in which a node is defined at them:
backward for a node that looks ahead, and forward for any other. -/
def Node.fillOrder {α : Type} (last : Nat) : Node α → List Nat
  | .next _ | .globally _ _ | .eventually _ _ | .until _ _ _ => (List.range (last + 1)).reverse
  | .atom _ | .not _ | .and _ _ | .or _ _ | .since _ _ _ => List.range (last + 1)

/-! ### Lists of runs -/

/-- Elements that contribute nothing may be left out. -/
lemma flatMap_eq_flatMap_filter {α β : Type} {as : List α} {p : α → Bool} {f g : α → List β}
    (keep : ∀ a ∈ as, p a = true → f a = g a) (drop : ∀ a ∈ as, p a = false → f a = []) :
    as.flatMap f = (as.filter p).flatMap g := by
  induction as with
  | nil => rfl
  | cons a as ih =>
      have rest := ih (fun b hb => keep b (List.mem_cons_of_mem a hb))
        fun b hb => drop b (List.mem_cons_of_mem a hb)
      rw [List.flatMap_cons, rest]
      cases h : p a with
      | true => rw [keep a List.mem_cons_self h, List.filter_cons_of_pos h, List.flatMap_cons]
      | false => rw [drop a List.mem_cons_self h, List.filter_cons_of_neg (by simp [h])]; rfl

/-- Of runs of one element each, all different, one of each is left when duplicates are
erased. -/
lemma eraseDups_flatMap_replicate {α β : Type} [BEq β] [LawfulBEq β] {as : List α} {g : α → β}
    (nodup : (as.map g).Nodup) (k : Nat) :
    (as.flatMap fun a => List.replicate (k + 1) (g a)).eraseDups = as.map g := by
  induction as with
  | nil => rfl
  | cons a as ih =>
      rw [List.map_cons, List.nodup_cons] at nodup
      have others : ∀ b ∈ as.flatMap fun a => List.replicate (k + 1) (g a), b ≠ g a := by
        intro b hb heq
        obtain ⟨a', ha', hb⟩ := List.mem_flatMap.mp hb
        rw [List.eq_of_mem_replicate hb] at heq
        exact nodup.1 (heq ▸ List.mem_map_of_mem ha')
      have run : (List.replicate k (g a)).filter (fun b => !b == g a) = [] := by simp
      have rest : (as.flatMap fun a => List.replicate (k + 1) (g a)).filter (fun b => !b == g a)
          = as.flatMap fun a => List.replicate (k + 1) (g a) :=
        List.filter_eq_self.mpr fun b hb => by simpa using others b hb
      rw [List.flatMap_cons, List.replicate_succ, List.cons_append, List.eraseDups_cons,
        List.filter_append, run, rest, List.nil_append, ih nodup.2, List.map_cons]

/-! ### Definitions in order -/

namespace Plan

variable {P : Plan} {id p : NodeId} {t s : Nat} {n : Node NodeId} {d : Expr Literal} {l : Literal}

lemma mem_operators_iff : id ∈ P.operators ↔ id ∈ P.nodes ∧ P.arena.atom? id = none := by
  rw [operators, List.mem_filter, Option.isNone_iff_eq_none]

lemma Accepted.operators_sorted (accepted : P.Accepted) : P.operators.Pairwise (· < ·) :=
  accepted.nodes_sorted.filter _

lemma ticksOf_eq_fillOrder (hn : P.arena.node? id = some n) :
    P.ticksOf id = n.fillOrder P.horizon.last := by
  rw [ticksOf, hn]
  cases n <;> rfl

lemma length_ticksOf (id : NodeId) : (P.ticksOf id).length = P.horizon.last + 1 := by
  unfold ticksOf
  split <;> simp [Horizon.size]

/-- The literal of an operator is its symbol. -/
lemma literal_operator (h : P.arena.atom? id = none) :
    P.literal id t = ⟨.theta ⟨P.scope, id⟩, t⟩ := by
  simp only [literal, h]

/-- A symbol stands for one node only. -/
lemma eq_of_literal_operator (h : P.arena.atom? id = none)
    (heq : P.literal p s = P.literal id t) : p = id ∧ s = t := by
  rw [literal_operator h] at heq
  cases hp : P.arena.atom? p with
  | none =>
      rw [literal_operator hp] at heq
      cases heq
      exact ⟨rfl, rfl⟩
  | some a =>
      rw [literal_atom (Arena.atom?_eq_some_iff.mp hp)] at heq
      cases heq

lemma exists_definition? (accepted : P.Accepted) (h : id ∈ P.operators) (t : Nat) :
    ∃ d, P.definition? id t = some d := by
  obtain ⟨hid, operator⟩ := mem_operators_iff.mp h
  rw [← Option.ne_none_iff_exists', Ne, definition?_eq_none_iff accepted hid]
  rintro ⟨a, hn⟩
  rw [Arena.atom?_eq_some_iff.mpr hn] at operator
  cases operator

end Plan

namespace Encoding

variable {P : Plan} {E : Encoding} {id : NodeId} {t : Nat} {c : Constraint}
  {before after : List Constraint}

/-- **The constraints in order** belong to the operators, one after the other and each at all
ticks: this way goes all that can be read off them. -/
lemma FilledBy.map_constraints {β : Type} (filled : FilledBy P E P.slots) (accepted : P.Accepted)
    {f : Constraint → β} {g : NodeId → Nat → β}
    (read : ∀ id t d, P.definition? id t = some d → f ⟨P.literal id t, d⟩ = g id t) :
    E.constraints.toList.map f = P.operators.flatMap fun id => (P.ticksOf id).map (g id) := by
  rw [filled.constraints_eq, Plan.slots, List.filterMap_flatMap, List.map_flatMap]
  refine flatMap_eq_flatMap_filter (fun id hid operator => ?_) (fun id hid isAtom => ?_)
  · rw [List.filterMap_map, List.map_filterMap, ← List.filterMap_eq_map]
    congr 1
    funext t
    obtain ⟨d, hd⟩ := Plan.exists_definition? accepted (List.mem_filter.mpr ⟨hid, operator⟩) t
    simp [Plan.constraint?_slotCell, hd, read id t d hd]
  · rw [List.filterMap_map, List.map_filterMap, List.filterMap_eq_nil_iff]
    intro t _
    have none : P.definition? id t = none := by
      rw [Plan.definition?_eq_none_iff accepted hid]
      simpa [Option.isSome_iff_exists, Arena.atom?_eq_some_iff] using isAtom
    simp [Plan.constraint?_slotCell, none]

/-- The constraints define each operator at each tick. -/
lemma FilledBy.map_theta_constraints (filled : FilledBy P E P.slots) (accepted : P.Accepted) :
    E.constraints.toList.map (·.theta)
      = P.operators.flatMap fun id => (P.ticksOf id).map (P.literal id) :=
  filled.map_constraints accepted fun _ _ _ _ => rfl

/-- No literal is defined twice. -/
lemma FilledBy.thetas_nodup (filled : FilledBy P E P.slots) (accepted : P.Accepted) :
    (E.constraints.toList.map (·.theta)).Nodup := by
  rw [filled.map_theta_constraints accepted, List.nodup_flatMap]
  constructor
  · intro id hid
    refine List.Nodup.map_on (fun t _ s _ heq => ?_) (P.ticksOf_nodup id)
    exact (Plan.eq_of_literal_operator (Plan.mem_operators_iff.mp hid).2 heq).2
  · refine accepted.operators_sorted.imp_of_mem fun {i j} _ hj hij l hl hl' => ?_
    obtain ⟨t, -, rfl⟩ := List.mem_map.mp hl
    obtain ⟨s, -, heq⟩ := List.mem_map.mp hl'
    exact Nat.ne_of_lt hij (Plan.eq_of_literal_operator (Plan.mem_operators_iff.mp hj).2 heq.symm).1

/-- **What comes before a constraint**: all definitions of smaller nodes. -/
lemma FilledBy.of_constraints_eq (filled : FilledBy P E P.slots) (accepted : P.Accepted)
    (h : E.constraints.toList = before ++ c :: after) :
    ∃ id ∈ P.nodes, ∃ t ≤ P.horizon.last, (P.slotCell id t).constraint? = some c
      ∧ ∀ p ∈ P.nodes, p < id → ∀ s ≤ P.horizon.last, ∀ c',
          (P.slotCell p s).constraint? = some c' → c' ∈ before := by
  rw [filled.constraints_eq, List.filterMap_eq_append_iff] at h
  obtain ⟨done, rest, hslots, rfl, hrest⟩ := h
  obtain ⟨atoms, slot, rest, rfl, none, hc, -⟩ := List.filterMap_eq_cons_iff.mp hrest
  rw [← List.append_assoc] at hslots
  have mem : slot ∈ P.slots := hslots ▸ List.mem_append_right _ List.mem_cons_self
  obtain ⟨hid, ht⟩ := Plan.mem_slots.mp mem
  refine ⟨slot.1, hid, slot.2, ht, hc, fun p hp hlt s hs c' hc' => ?_⟩
  have earlier := Plan.mem_done_of_lt accepted.nodes_sorted hslots hp (Plan.mem_ticksOf.mpr hs) hlt
  rcases List.mem_append.mp earlier with hdone | hatoms
  · exact List.mem_filterMap.mpr ⟨(p, s), hdone, hc'⟩
  · -- between the two constraints there are atoms only
    rw [none (p, s) hatoms] at hc'
    cases hc'

/-- A definition stands on the right of the literal that it defines, and nowhere
else. -/
lemma FilledBy.mem_constraints_iff_definition? (filled : FilledBy P E P.slots)
    (accepted : P.Accepted) (hid : id ∈ P.nodes) (ht : t ≤ P.horizon.last) {d : Expr Literal} :
    ⟨P.literal id t, d⟩ ∈ E.constraints.toList ↔ P.definition? id t = some d := by
  rw [filled.mem_constraints_iff]
  constructor
  · rintro ⟨p, hp, s, hs, hc⟩
    rw [Plan.constraint?_slotCell, Option.map_eq_some_iff] at hc
    obtain ⟨d', hd', hc⟩ := hc
    cases hop : P.arena.atom? p with
    | none =>
        obtain ⟨rfl, rfl⟩ := Plan.eq_of_literal_operator hop (Constraint.mk.inj hc).1.symm
        rw [hd', (Constraint.mk.inj hc).2]
    | some a =>
        have none : P.definition? p s = none :=
          (Plan.definition?_eq_none_iff accepted hp).mpr ⟨a, Arena.atom?_eq_some_iff.mp hop⟩
        rw [none] at hd'
        cases hd'
  · intro hd
    exact ⟨id, hid, t, ht, by rw [Plan.constraint?_slotCell, hd]; rfl⟩

end Encoding

/-! ### The constraints of an unrolling -/

namespace Unrolling

variable {P : Plan} {E : Encoding}

/-- A list of constraints that defines the operators of a plan from the operands up,
and the answers of an unrolling that go with it. -/
structure Stratified (P : Plan) (U : Unrolling) (cs : List Constraint) : Prop where
  /-- The operators are taken in ascending order. -/
  ascending : P.operators.Pairwise (· < ·)
  /-- The ticks are taken backward for nodes that look ahead. -/
  direction : ∀ id n, P.arena.node? id = some n → P.ticksOf id = n.fillOrder P.horizon.last
  /-- Each constraint defines the literal of an operator at a tick. -/
  schedule : cs.map (fun c => .ok c.theta)
    = P.operators.flatMap fun id => (P.ticksOf id).map (U.theta id)
  /-- No literal is defined twice. -/
  nodup : (cs.map (·.theta)).Nodup
  /-- A definition mentions operands only, at ticks of the horizon. They are atoms, or
  have been defined before. -/
  operands_first : ∀ before c after, cs = before ++ c :: after →
    ∃ id ∈ P.nodes, ∃ t ≤ P.horizon.last, ∃ n, P.arena.node? id = some n
      ∧ U.theta id t = .ok c.theta
      ∧ ∀ l ∈ c.definition.lits, l.tick ≤ P.horizon.last
          ∧ ∃ p ∈ n.operands, U.theta p l.tick = .ok l
              ∧ match l.proposition with
                | .atom a => P.arena.node? p = some (.atom a)
                | .theta _ => l ∈ before.map (·.theta)
  /-- The definition of a node is what its constraint says; atoms have none. -/
  definition : ∀ id ∈ P.nodes, ∀ t ≤ P.horizon.last,
    ∃ l d?, U.theta id t = .ok l ∧ U.definition? id t = .ok d?
      ∧ (d? = none ↔ ∃ a, P.arena.node? id = some (.atom a))
      ∧ ∀ d, d? = some d ↔ ⟨l, d⟩ ∈ cs
  /-- An atom stands for itself. -/
  atoms : ∀ id ∈ P.nodes, ∀ a, P.arena.node? id = some (.atom a) →
    ∀ t ≤ P.horizon.last, U.theta id t = .ok ⟨.atom a, t⟩
  /-- The symbols are those that the constraints define, each listed once. -/
  symbols : ∃ ss, U.symbols = .ok ss ∧ ss.Nodup
    ∧ ss.map some = (cs.map (·.theta.proposition.symbol?)).eraseDups

section

variable (accepted : P.Accepted) (filled : Encoding.FilledBy P E P.slots)
include accepted filled

lemma schedule_eq :
    E.constraints.toList.map (fun c => Except.ok c.theta)
      = P.operators.flatMap fun id => (P.ticksOf id).map (theta ⟨P, some E⟩ id) := by
  have answers : ∀ id ∈ P.operators, (P.ticksOf id).map (theta ⟨P, some E⟩ id)
      = (P.ticksOf id).map fun t => Except.ok (P.literal id t) := by
    refine fun id hid => List.map_congr_left fun t ht => ?_
    exact theta_eq_ok filled (Plan.mem_operators_iff.mp hid).1 (Plan.mem_ticksOf.mp ht)
  have lefts := congrArg (List.map (Except.ok (ε := Error)))
    (filled.map_theta_constraints accepted)
  rw [List.map_map, List.map_flatMap] at lefts
  simp only [List.map_map] at lefts
  rw [List.flatMap_congr answers]
  exact lefts

lemma operands_first {before after : List Constraint} {c : Constraint}
    (h : E.constraints.toList = before ++ c :: after) :
    ∃ id ∈ P.nodes, ∃ t ≤ P.horizon.last, ∃ n, P.arena.node? id = some n
      ∧ theta ⟨P, some E⟩ id t = .ok c.theta
      ∧ ∀ l ∈ c.definition.lits, l.tick ≤ P.horizon.last
          ∧ ∃ p ∈ n.operands, theta ⟨P, some E⟩ p l.tick = .ok l
              ∧ match l.proposition with
                | .atom a => P.arena.node? p = some (.atom a)
                | .theta _ => l ∈ before.map (·.theta) := by
  obtain ⟨id, hid, t, ht, hc, earlier⟩ := filled.of_constraints_eq accepted h
  obtain ⟨n, hn⟩ := accepted.exists_node? hid
  obtain ⟨d, hd, rfl⟩ := Option.map_eq_some_iff.mp (Plan.constraint?_slotCell ▸ hc)
  refine ⟨id, hid, t, ht, n, hn, theta_eq_ok filled hid ht, fun l hl => ?_⟩
  obtain ⟨p, hp, s, hs, rfl⟩ := Plan.exists_operand_of_mem_lits hn ht hd hl
  obtain ⟨hpn, hlt⟩ := accepted.operand_mem hid hn hp
  rw [Plan.tick_literal]
  refine ⟨hs, p, hp, theta_eq_ok filled hpn hs, ?_⟩
  cases hop : P.arena.atom? p with
  | none =>
      obtain ⟨d', hd'⟩ := Plan.exists_definition? accepted (Plan.mem_operators_iff.mpr ⟨hpn, hop⟩) s
      have hc' : (P.slotCell p s).constraint? = some ⟨P.literal p s, d'⟩ := by
        rw [Plan.constraint?_slotCell, hd']; rfl
      rw [Plan.literal_operator hop] at hc' ⊢
      exact List.mem_map_of_mem (earlier p hpn hlt s hs _ hc')
  | some a =>
      have hn := Arena.atom?_eq_some_iff.mp hop
      rw [Plan.literal_atom hn]
      exact hn

lemma symbols_eq_eraseDups :
    ∃ ss, symbols ⟨P, some E⟩ = .ok ss ∧ ss.Nodup
      ∧ ss.map some = (E.constraints.toList.map (·.theta.proposition.symbol?)).eraseDups := by
  have distinct : P.operators.Nodup := accepted.operators_sorted.imp Nat.ne_of_lt
  have nodup : (P.operators.map fun id => Symbol.mk P.scope id).Nodup :=
    List.Nodup.map (fun _ _ heq => (Symbol.mk.inj heq).2) distinct
  refine ⟨_, rfl, nodup, ?_⟩
  -- the symbol of an operator is defined at one tick after the other
  have runs : E.constraints.toList.map (·.theta.proposition.symbol?)
      = P.operators.flatMap fun id =>
          List.replicate (P.horizon.last + 1) (some (Symbol.mk P.scope id)) := by
    have lefts := congrArg (List.map fun l : Literal => l.proposition.symbol?)
      (filled.map_theta_constraints accepted)
    rw [List.map_map, List.map_flatMap] at lefts
    refine lefts.trans (List.flatMap_congr fun id hid => ?_)
    rw [List.map_map, ← P.length_ticksOf id, ← List.map_const']
    refine List.map_congr_left fun t _ => ?_
    rw [Function.comp_apply, Plan.literal_operator (Plan.mem_operators_iff.mp hid).2]
    rfl
  rw [runs, List.map_map]
  refine (eraseDups_flatMap_replicate ?_ P.horizon.last).symm
  rw [← List.map_map]
  exact List.Nodup.map (fun _ _ => Option.some.inj) nodup

end

/-- **The constraints are a complete list of definitions, without duplicates and in
layers.** -/
theorem constraints_stratified (accepted : P.Accepted) (n : Nat) :
    let U := apply^[n + 1] (.ofPlan P)
    U = (ofPlan P).apply ∧ ∃ cs, U.constraints = .ok cs ∧ Stratified P U cs := by
  intro U
  obtain ⟨E, filled, h⟩ := accepted.apply_iterate
  have hU : U = ⟨P, some E⟩ := h n
  refine ⟨hU.trans (h 0).symm, ?_⟩
  rw [hU]
  exact ⟨E.constraints.toList, rfl, {
    ascending := accepted.operators_sorted
    direction := fun id n hn => Plan.ticksOf_eq_fillOrder hn
    schedule := schedule_eq accepted filled
    nodup := filled.thetas_nodup accepted
    operands_first := fun before c after h => operands_first accepted filled h
    definition := fun id hid t ht => ⟨_, _, theta_eq_ok filled hid ht,
      definition?_eq_ok filled hid ht, Plan.definition?_eq_none_iff accepted hid,
      fun d => (filled.mem_constraints_iff_definition? accepted hid ht).symm⟩
    atoms := fun id hid a hn t ht => by rw [theta_eq_ok filled hid ht, Plan.literal_atom hn]
    symbols := symbols_eq_eraseDups accepted filled }⟩

/-- `a S[0,inf] F[0,1] !a` up to tick `1`: the negation and `S` are defined at tick `0`
first, and `F` at tick `1` first. -/
theorem constraints_stratified_since :
    let A := Arena.build ∅ [.add (.atom "a"), .add (.not 0),
      .add (.eventually ⟨0, .finite 1, by decide⟩ 1), .add (.since ⟨0, .infinite, trivial⟩ 0 2)]
    ∃ P, Plan.make A 3 ⟨1⟩ "theta" = .ok P
      ∧ ∃ cs, (ofPlan P).apply.constraints = .ok cs
        ∧ cs.map (·.theta) = [(1, 0), (1, 1), (2, 1), (2, 0), (3, 0), (3, 1)].map
            fun q => ⟨.theta ⟨"theta", q.1⟩, q.2⟩ := by
  intro A
  let P : Plan := ⟨A, 3, ⟨1⟩, "theta", A.descendants 3⟩
  have made : Plan.make A 3 ⟨1⟩ "theta" = .ok P :=
    Plan.make_eq_ok (by decide) (by decide) (by decide)
  have accepted : P.Accepted := ⟨A, 3, ⟨1⟩, "theta", ⟨_, rfl⟩, made⟩
  obtain ⟨-, cs, hcs, stratified⟩ := constraints_stratified accepted 0
  refine ⟨P, made, cs, hcs, ?_⟩
  have nodes : P.nodes = [0, 1, 2, 3] := by cbv
  have operators : P.operators = [1, 2, 3] := by
    rw [Plan.operators, nodes]
    rfl
  obtain ⟨E, filled, applied⟩ := accepted.apply_iterate
  have theta : ∀ id ∈ P.nodes, ∀ t ≤ 1,
      (apply^[0 + 1] (ofPlan P)).theta id t = .ok (P.literal id t) := by
    rw [applied 0]
    exact fun id hid t ht => theta_eq_ok filled hid ht
  rw [nodes] at theta
  have ticks : P.ticksOf 1 = [0, 1] ∧ P.ticksOf 2 = [1, 0] ∧ P.ticksOf 3 = [0, 1] := by decide
  have lefts := stratified.schedule
  simp only [operators, List.flatMap_cons, ticks, List.map_cons, theta, List.mem_cons, true_or,
    or_true, Nat.zero_le, Nat.le_refl] at lefts
  have injective : Function.Injective (List.map (Except.ok (ε := Error) (α := Literal))) :=
    List.map_injective_iff.mpr fun _ _ => Except.ok.inj
  refine injective ?_
  rw [List.map_map]
  exact lefts

end Unrolling

end BoundedTemporal
