/-
The models of the constraints.

* `Plan.Observes`: an assignment says of the atoms what a trace says;
* `Plan.Layered`: at each tick, the literal of each node has the value that the
  connective of the node gives it over the literals of its operands;
* `Plan.holds_iff_layered`: an assignment satisfies the constraints exactly when it
  is layered;
* `Plan.Layered.eq_value`: an assignment that is layered knows the meaning of all
  nodes, by induction along the order of the nodes;
* `Unrolling.models_iff_means`: therefore the models of the constraints are the
  meanings of the formula on the traces.
-/
import BoundedTemporal.Proofs.Unrolling.Applied

namespace BoundedTemporal

namespace Plan

variable {P : Plan} {E : Encoding} {v : Literal → Bool} {tr : Trace} {id : NodeId} {t : Nat}
  {n : Node NodeId}

/-! ### Assignments and traces -/

/-- A trace that ends at the horizon, on which the atoms of the formula hold where an
assignment says so. -/
structure Observes (P : Plan) (v : Literal → Bool) (tr : Trace) : Prop where
  horizon_eq : tr.horizon = P.horizon
  holds_eq : ∀ a ∈ P.arena.atomsOf P.root, ∀ t ≤ P.horizon.last, tr.holds a t = v ⟨.atom a, t⟩

/-- The trace on which the atoms of the formula hold where an assignment says so, and
no other atoms do. -/
def observed (P : Plan) (v : Literal → Bool) : Trace :=
  ⟨P.horizon, Vector.ofFn fun t =>
    .ofList ((P.arena.atomsOf P.root).toList.filter fun a => v ⟨.atom a, t⟩)⟩

lemma observes_observed (P : Plan) (v : Literal → Bool) : P.Observes v (P.observed v) where
  horizon_eq := rfl
  holds_eq a ha t ht := by
    have size : t < (P.observed v).horizon.size := Nat.lt_succ_of_le ht
    have state : (P.observed v).states[t]
        = .ofList ((P.arena.atomsOf P.root).toList.filter fun a => v ⟨.atom a, t⟩) :=
      Vector.getElem_ofFn size
    rw [Trace.holds_of_lt size, state, Bool.eq_iff_iff]
    simp [ha]

/-- The assignment that gives each literal its meaning on a trace. -/
def meaning (P : Plan) (tr : Trace) (l : Literal) : Bool :=
  match l.proposition with
  | .atom a => tr.holds a l.tick
  | .theta symbol => P.arena.value tr symbol.node l.tick

lemma observes_meaning (h : tr.horizon = P.horizon) : P.Observes (P.meaning tr) tr :=
  ⟨h, fun _ _ _ _ => rfl⟩

/-! ### Layered assignments -/

/-- The literal of each node has the value that the connective of the node gives it
over the literals of its operands. -/
def Layered (P : Plan) (v : Literal → Bool) (tr : Trace) : Prop :=
  ∀ id ∈ P.nodes, ∀ n, P.arena.node? id = some n → ∀ t ≤ P.horizon.last,
    v (P.literal id t) = (n.map fun p s => v (P.literal p s)).holds tr t

/-- One definition: it is satisfied when the literal has the value that the connective
gives it. Atoms have no definition, and the trace has their values. -/
lemma holds_slotCell_iff (accepted : P.Accepted) (observes : P.Observes v tr)
    (hid : id ∈ P.nodes) (hn : P.arena.node? id = some n) (ht : t ≤ P.horizon.last) :
    (∀ c, (P.slotCell id t).constraint? = some c → c.Holds v)
      ↔ v (P.literal id t) = (n.map fun p s => v (P.literal p s)).holds tr t := by
  cases hc : n.condition? P.horizon.last t with
  | none =>
      obtain ⟨a, rfl⟩ := Node.exists_atom_of_condition? hc
      have ha : a ∈ P.arena.atomsOf P.root := by
        rw [accepted.nodes_eq] at hid
        exact Arena.mem_atomsOf.mpr ⟨id, hid, hn⟩
      rw [literal_atom hn, slotCell_atom hn]
      exact iff_of_true (fun c h => by cases h) (observes.holds_eq a ha t ht).symm
  | some condition =>
      rw [slotCell_of_condition? hn hc]
      have hc : n.condition? tr.horizon.last t = some condition := by rw [observes.horizon_eq, hc]
      rw [← Node.eval_condition? (fun p s => v (P.literal p s)) tr hc]
      simp only [Cell.constraint?, Option.map_some, Option.some.injEq, forall_eq',
        Constraint.Holds, Expr.eval_map]

/-- **The constraints, layer by layer**: an assignment satisfies all of them exactly
when it is layered. -/
lemma holds_iff_layered (accepted : P.Accepted) (filled : Encoding.FilledBy P E P.slots)
    (observes : P.Observes v tr) :
    (∀ c ∈ E.constraints.toList, c.Holds v) ↔ P.Layered v tr := by
  constructor
  · intro h id hid n hn t ht
    refine (holds_slotCell_iff accepted observes hid hn ht).mp fun c hc => h c ?_
    exact filled.mem_constraints_iff.mpr ⟨id, hid, t, ht, hc⟩
  · intro h c hc
    obtain ⟨id, hid, t, ht, hc⟩ := filled.mem_constraints_iff.mp hc
    obtain ⟨n, hn⟩ := accepted.exists_node? hid
    exact (holds_slotCell_iff accepted observes hid hn ht).mpr (h id hid n hn t ht) c hc

/-- A layered assignment gives every node its meaning. -/
lemma Layered.eq_value (layered : P.Layered v tr) (accepted : P.Accepted)
    (horizon : tr.horizon = P.horizon) (hid : id ∈ P.nodes) (ht : t ≤ P.horizon.last) :
    v (P.literal id t) = P.arena.value tr id t := by
  -- operands come first, at whatever ticks
  induction id using Nat.strongRecOn generalizing t with
  | ind id ih =>
      obtain ⟨n, hn⟩ := accepted.exists_node? hid
      rw [layered id hid n hn t ht, accepted.wellFormed.value_eq hn]
      refine Node.holds_congr (by rwa [horizon]) fun p hp s hs => ?_
      obtain ⟨hp, hlt⟩ := accepted.operand_mem hid hn hp
      exact ih p hlt hp (by rwa [← horizon])

/-- An assignment that gives every node its meaning is layered. -/
lemma layered_of_eq_value (accepted : P.Accepted) (horizon : tr.horizon = P.horizon)
    (h : ∀ id ∈ P.nodes, ∀ t ≤ P.horizon.last, v (P.literal id t) = P.arena.value tr id t) :
    P.Layered v tr := by
  intro id hid n hn t ht
  rw [h id hid t ht, accepted.wellFormed.value_eq hn]
  refine Node.holds_congr (by rwa [horizon]) fun p hp s hs => ?_
  exact (h p (accepted.operand_mem hid hn hp).1 s (by rwa [← horizon])).symm

lemma meaning_literal (accepted : P.Accepted) :
    P.meaning tr (P.literal id t) = P.arena.value tr id t := by
  cases h : P.arena.atom? id with
  | none => simp only [literal, meaning, h]
  | some a =>
      have hn := Arena.atom?_eq_some_iff.mp h
      rw [literal_atom hn, accepted.wellFormed.value_eq hn]
      rfl

/-- The meaning satisfies every definition. -/
lemma holds_meaning (accepted : P.Accepted) (horizon : tr.horizon = P.horizon)
    (hid : id ∈ P.nodes) (ht : t ≤ P.horizon.last) {c : Constraint}
    (hc : (P.slotCell id t).constraint? = some c) : c.Holds (P.meaning tr) := by
  obtain ⟨n, hn⟩ := accepted.exists_node? hid
  have layered : P.Layered (P.meaning tr) tr :=
    layered_of_eq_value accepted horizon fun _ _ _ _ => meaning_literal accepted
  have holds := holds_slotCell_iff accepted (observes_meaning horizon) hid hn ht
  exact holds.mpr (layered id hid n hn t ht) c hc

end Plan

/-! ### Models of an applied unrolling -/

namespace Unrolling

variable {P : Plan} {U : Unrolling} {v : Literal → Bool} {tr : Trace}

/-- The constraints are there, and an assignment satisfies all of them. -/
def Models (U : Unrolling) (v : Literal → Bool) : Prop :=
  ∃ cs, U.constraints = .ok cs ∧ ∀ c ∈ cs, c.Holds v

/-- The literal of each node at each tick has the value that the subformula has on a
trace. -/
def Means (U : Unrolling) (P : Plan) (v : Literal → Bool) (tr : Trace) : Prop :=
  ∀ id ∈ P.nodes, ∀ t ≤ P.horizon.last,
    ∃ l, U.theta id t = .ok l ∧ P.arena.holds? id tr t = some (v l)

section

variable {E : Encoding} (accepted : P.Accepted) (filled : Encoding.FilledBy P E P.slots)
include accepted filled

lemma means_iff :
    Means ⟨P, some E⟩ P v tr ↔
      ∀ id ∈ P.nodes, ∀ t ≤ P.horizon.last, v (P.literal id t) = P.arena.value tr id t := by
  refine forall₂_congr fun id hid => forall₂_congr fun t ht => ?_
  rw [theta_eq_ok filled hid ht, accepted.holds?_eq hid]
  constructor
  · rintro ⟨l, hl, h⟩
    cases hl
    exact (Option.some.inj h).symm
  · intro h
    exact ⟨P.literal id t, rfl, by rw [h]⟩

lemma models_iff_means_of_filled (observes : P.Observes v tr) :
    Models ⟨P, some E⟩ v ↔ Means ⟨P, some E⟩ P v tr := by
  have models : Models ⟨P, some E⟩ v ↔ ∀ c ∈ E.constraints.toList, c.Holds v :=
    ⟨fun ⟨_, hcs, h⟩ => by cases hcs; exact h, fun h => ⟨_, rfl, h⟩⟩
  rw [models, Plan.holds_iff_layered accepted filled observes, means_iff accepted filled]
  constructor
  · exact fun layered id hid t ht => layered.eq_value accepted observes.horizon_eq hid ht
  · exact Plan.layered_of_eq_value accepted observes.horizon_eq

lemma models_meaning (horizon : tr.horizon = P.horizon) :
    Models ⟨P, some E⟩ (P.meaning tr) := by
  have observes := Plan.observes_meaning horizon
  rw [models_iff_means_of_filled accepted filled observes, means_iff accepted filled]
  exact fun _ _ _ _ => Plan.meaning_literal accepted

end

/-- **The constraints say what the formula means**: once an unrolling has been applied,
an assignment satisfies its constraints exactly when the literal of each node at each
tick has the value of the subformula on the trace that the assignment describes. Such
a trace always exists. Each trace extends to a model, and to one only as far as the
literals of the unrolling go. Together with the literal of the root at a tick the
constraints have a model exactly when the formula holds there on some trace. -/
theorem models_iff_means (accepted : P.Accepted) (n : Nat) :
    let U := apply^[n + 1] (.ofPlan P)
    (∀ v tr, P.Observes v tr → (U.Models v ↔ U.Means P v tr))
      ∧ (∀ v, ∃ tr, P.Observes v tr)
      ∧ (∀ tr : Trace, tr.horizon = P.horizon →
          ∃ v, (∀ a t, v ⟨.atom a, t⟩ = tr.holds a t) ∧ U.Models v
            ∧ ∀ w, P.Observes w tr → U.Models w →
                ∀ id ∈ P.nodes, ∀ t ≤ P.horizon.last, ∃ l, U.theta id t = .ok l ∧ w l = v l)
      ∧ ∀ t ≤ P.horizon.last, ∃ l, U.theta P.root t = .ok l
          ∧ ((∃ v, U.Models v ∧ v l = true)
              ↔ ∃ tr : Trace, tr.horizon = P.horizon ∧ P.arena.holds? P.root tr t = some true) := by
  intro U
  obtain ⟨E, filled, h⟩ := accepted.apply_iterate
  have hU : U = ⟨P, some E⟩ := h n
  have models {v tr} (observes : P.Observes v tr) : U.Models v ↔ U.Means P v tr := by
    rw [hU]
    exact models_iff_means_of_filled accepted filled observes
  have meaning {tr : Trace} (horizon : tr.horizon = P.horizon) : U.Models (P.meaning tr) := by
    rw [hU]
    exact models_meaning accepted filled horizon
  refine ⟨fun v tr => models, fun v => ⟨P.observed v, P.observes_observed v⟩, ?_, ?_⟩
  · intro tr horizon
    refine ⟨P.meaning tr, fun a t => rfl, meaning horizon, fun w observes hw id hid t ht => ?_⟩
    obtain ⟨l, hl, hwl⟩ := (models observes).mp hw id hid t ht
    have hv := (models (Plan.observes_meaning horizon)).mp (meaning horizon)
    obtain ⟨l', hl', hvl⟩ := hv id hid t ht
    cases hl.symm.trans hl'
    exact ⟨l, hl, Option.some.inj (hwl.symm.trans hvl)⟩
  · intro t ht
    have hroot : U.theta P.root t = .ok (P.literal P.root t) := by
      rw [hU]
      exact theta_eq_ok filled accepted.root_mem ht
    refine ⟨P.literal P.root t, hroot, ?_, ?_⟩
    · rintro ⟨v, hv, htrue⟩
      have observes := P.observes_observed v
      obtain ⟨l, hl, hvl⟩ := (models observes).mp hv P.root accepted.root_mem t ht
      cases hroot.symm.trans hl
      exact ⟨P.observed v, rfl, by rw [hvl, htrue]⟩
    · rintro ⟨tr, horizon, htrue⟩
      refine ⟨P.meaning tr, meaning horizon, ?_⟩
      rw [Plan.meaning_literal accepted]
      exact Option.some.inj ((accepted.holds?_eq accepted.root_mem tr t).symm.trans htrue)

/-- `a U[0,2] b` holds at tick `0` when `a` holds at `0` and `1`, and `b` at `2`; so its
constraints have a model with the literal of the root. -/
theorem models_iff_means_until :
    let A := Arena.build ∅ [.add (.atom "a"), .add (.atom "b"),
      .add (.until ⟨0, .finite 2, by decide⟩ 0 1)]
    ∃ P, Plan.make A 2 ⟨2⟩ "theta" = .ok P
      ∧ ∃ v, (ofPlan P).apply.Models v ∧ v ⟨.theta ⟨"theta", 2⟩, 0⟩ = true := by
  intro A
  let P : Plan := ⟨A, 2, ⟨2⟩, "theta", A.descendants 2⟩
  have made : Plan.make A 2 ⟨2⟩ "theta" = .ok P :=
    Plan.make_eq_ok (by decide) (by decide) (by decide)
  have accepted : P.Accepted := ⟨A, 2, ⟨2⟩, "theta", ⟨_, rfl⟩, made⟩
  refine ⟨P, made, ?_⟩
  obtain ⟨l, hl, root⟩ := (models_iff_means accepted 0).2.2.2 0 (by decide)
  have theta : (ofPlan P).apply.theta 2 0 = .ok ⟨.theta ⟨"theta", 2⟩, 0⟩ := by
    obtain ⟨E, filled, h⟩ := accepted.apply_iterate
    have applied : (ofPlan P).apply = ⟨P, some E⟩ := h 0
    rw [applied]
    exact theta_eq_ok filled accepted.root_mem (by decide)
  cases hl.symm.trans theta
  exact root.mpr ⟨Trace.ofBits ⟨2⟩ ["a", "b"] 37, rfl, by decide⟩

end Unrolling

end BoundedTemporal
