/-
Formulas with common subformulas.

What an unrolling says about a node depends on what lies below the node, and on nothing
else of the formula that it is a part of.

* `Literal.rescope`: replaces the scope of a symbol;
* `Plan.literal_rescope`, `Plan.definition?_rescope`: plans of one arena and one horizon
  have the same literals and definitions, up to their scopes;
* `Plan.slots_eq_filter`: the slots of a subformula are a part of those of the formula, in
  the same order;
* `Unrolling.AgreeUpToScope`, `Unrolling.RestrictsTo`: what two unrollings of one arena
  have in common, and what the unrolling of a subformula is within that of the formula;
* `Unrolling.agree_and_restrict`: both hold of all formulas of an arena.
-/
import BoundedTemporal.Proofs.Unrolling.Evaluation
import BoundedTemporal.Proofs.Unrolling.Stratified
import Mathlib.Data.List.Sort

namespace BoundedTemporal

/-! ### Change of scope -/

/-- The symbols of the scope `old` become those of the scope `new`; atoms stay. -/
def Literal.rescope (old new : String) (l : Literal) : Literal :=
  match l.proposition with
  | .atom _ => l
  | .theta s => if s.scope = old then ⟨.theta ⟨new, s.node⟩, l.tick⟩ else l

namespace Plan

variable {P P' : Plan} {A : Arena} {root root' id : NodeId} {H : Horizon} {scope : String} {t : Nat}

/-- Literals differ in their scopes only. -/
lemma literal_rescope (P P' : Plan) (same : P.arena = P'.arena) (id : NodeId) (t : Nat) :
    P'.literal id t = (P.literal id t).rescope P.scope P'.scope := by
  unfold literal
  rw [same]
  cases P'.arena.atom? id with
  | none => exact (if_pos rfl).symm
  | some a => rfl

/-- Definitions differ in their scopes only. -/
lemma definition?_rescope (P P' : Plan) (same : P.arena = P'.arena)
    (horizon : P.horizon = P'.horizon) (id : NodeId) (t : Nat) :
    P'.definition? id t
      = (P.definition? id t).map (Expr.map (Literal.rescope P.scope P'.scope)) := by
  have literals : (fun q : NodeId × Nat => P'.literal q.1 q.2)
      = fun q => (P.literal q.1 q.2).rescope P.scope P'.scope :=
    funext fun q => literal_rescope P P' same q.1 q.2
  unfold definition?
  rw [same, horizon, Option.map_bind, literals]
  refine Option.bind_congr fun n _ => ?_
  rw [Function.comp_apply, Option.map_map]
  exact congrArg (Option.map · _) (funext fun e => (Expr.map_map _ _ e).symm)

/-! ### Subformulas -/

/-- The nodes of a formula are what the formula reaches. -/
lemma mem_nodes_iff_of_make (built : A.Built) (made : make A root H scope = .ok P) :
    id ∈ P.nodes ↔ A.Reaches root id := by
  have accepted : P.Accepted := ⟨A, root, H, scope, built, made⟩
  obtain ⟨-, -, -, rfl⟩ := make_eq_ok_iff.mp made
  exact accepted.mem_nodes_iff

/-- What is accepted for a formula is accepted for its subformulas. -/
lemma make_of_reaches (wf : A.WellFormed) (made : make A root H scope = .ok P)
    (reach : A.Reaches root root') :
    make A root' H scope = .ok ⟨A, root', H, scope, A.descendants root'⟩ := by
  obtain ⟨hroot, hscope, clear, -⟩ := make_eq_ok_iff.mp made
  refine make_eq_ok_iff.mpr ⟨Nat.lt_of_le_of_lt (wf.le_of_reaches reach) hroot, hscope, ?_, rfl⟩
  intro name h
  obtain ⟨id, hid, hn⟩ := Arena.mem_atomsOf.mp h
  obtain ⟨stored, below⟩ := Arena.mem_descendants.mp hid
  exact clear name (Arena.mem_atomsOf.mpr
    ⟨id, Arena.mem_descendants.mpr ⟨stored, reach.trans below⟩, hn⟩)

/-- The nodes of a part of a formula are among its nodes, in the same order. -/
lemma nodes_eq_filter {nodes nodes' : List NodeId} (sorted : nodes.Pairwise (· < ·))
    (sorted' : nodes'.Pairwise (· < ·)) (part : ∀ id ∈ nodes', id ∈ nodes) :
    nodes' = nodes.filter (· ∈ nodes') := by
  refine sorted'.eq_of_mem_iff (sorted.filter _) fun id => ?_
  rw [List.mem_filter, decide_eq_true_eq]
  exact ⟨fun h => ⟨part id h, h⟩, fun h => h.2⟩

/-- **The slots of a subformula** are those of the formula at its nodes, in the same
order. -/
lemma slots_eq_filter (same : P.arena = P'.arena) (horizon : P.horizon = P'.horizon)
    (nodes : P'.nodes = P.nodes.filter (· ∈ P'.nodes)) :
    P'.slots = P.slots.filter (·.1 ∈ P'.nodes) := by
  have ticks : P.ticksOf = P'.ticksOf := by
    funext id
    rw [ticksOf, ticksOf, same, horizon]
  -- a node has all its slots, or none of them
  have keep : ∀ id ∈ P.nodes, decide (id ∈ P'.nodes) = true →
      ((P.ticksOf id).map (id, ·)).filter (·.1 ∈ P'.nodes) = (P'.ticksOf id).map (id, ·) := by
    intro id _ h
    rw [ticks, List.filter_eq_self]
    intro slot hslot
    obtain ⟨t, -, rfl⟩ := List.mem_map.mp hslot
    exact h
  have drop : ∀ id ∈ P.nodes, decide (id ∈ P'.nodes) = false →
      ((P.ticksOf id).map (id, ·)).filter (·.1 ∈ P'.nodes) = [] := by
    intro id _ h
    rw [List.filter_eq_nil_iff]
    intro slot hslot
    obtain ⟨t, -, rfl⟩ := List.mem_map.mp hslot
    rw [h]
    exact Bool.false_ne_true
  rw [slots, slots, List.filter_flatMap, flatMap_eq_flatMap_filter keep drop, ← nodes]

end Plan

/-! ### Constraints -/

/-- The node whose literal a constraint defines. -/
def Constraint.node? (c : Constraint) : Option NodeId :=
  c.theta.proposition.symbol?.map (·.node)

namespace Encoding

variable {P P' : Plan} {E E' : Encoding}

/-- The constraint of a slot defines the literal of its node. -/
lemma node?_of_constraint? {id : NodeId} {t : Nat} {c : Constraint}
    (h : (P.slotCell id t).constraint? = some c) : c.node? = some id := by
  rw [Plan.constraint?_slotCell, Option.map_eq_some_iff] at h
  obtain ⟨d, hd, rfl⟩ := h
  have operator : P.arena.atom? id = none := by
    rw [Option.eq_none_iff_forall_ne_some]
    intro a ha
    have atom := Arena.atom?_eq_some_iff.mp ha
    rw [Plan.definition?_of_node? atom] at hd
    cases hd
  rw [Constraint.node?, Plan.literal_operator operator]
  rfl

/-- **The constraints of a part of a formula** are those that define its nodes. -/
lemma FilledBy.constraints_eq_filter (filled : FilledBy P E P.slots)
    (filled' : FilledBy P' E' P'.slots) (cells : P'.slotCell = P.slotCell)
    (slots : P'.slots = P.slots.filter (·.1 ∈ P'.nodes)) :
    E'.constraints.toList
      = E.constraints.toList.filter fun c => c.node?.any (· ∈ P'.nodes) := by
  rw [filled'.constraints_eq, filled.constraints_eq, cells, slots, List.filterMap_filter,
    List.filter_filterMap]
  refine List.filterMap_congr fun slot _ => ?_
  cases h : (P.slotCell slot.1 slot.2).constraint? with
  | none => simp
  | some c => simp [Option.filter, node?_of_constraint? h]

end Encoding

/-! ### Unrollings of one arena -/

namespace Unrolling

/-- The unrollings of two plans have the same literals and the same definitions for the nodes
of both plans, up to the scopes. -/
structure AgreeUpToScope (P P' : Plan) (U U' : Unrolling) : Prop where
  theta : ∀ id ∈ P.nodes, id ∈ P'.nodes → ∀ t ≤ P.horizon.last,
    ∃ l, U.theta id t = .ok l ∧ U'.theta id t = .ok (l.rescope P.scope P'.scope)
  definition : ∀ id ∈ P.nodes, id ∈ P'.nodes → ∀ t ≤ P.horizon.last,
    ∃ d, U.definition? id t = .ok d
      ∧ U'.definition? id t = .ok (d.map (Expr.map (Literal.rescope P.scope P'.scope)))
  same_scope : P.scope = P'.scope → ∀ id ∈ P.nodes, id ∈ P'.nodes → ∀ t ≤ P.horizon.last,
      U'.theta id t = U.theta id t ∧ U'.definition? id t = U.definition? id t

/-- The unrolling of one plan is what the unrolling of another plan says about some of its
nodes. -/
structure RestrictsTo (P P' : Plan) (U U' : Unrolling) : Prop where
  nodes : P'.nodes = P.nodes.filter (· ∈ P'.nodes)
  constraints : ∃ cs, U.constraints = .ok cs
    ∧ U'.constraints = .ok (cs.filter fun c => c.node?.any (· ∈ P'.nodes))
  values : ∀ tr : Trace, tr.horizon = P.horizon → ∃ V V',
    U.evaluate tr = .ok V ∧ U'.evaluate tr = .ok V'
      ∧ ∀ id ∈ P'.nodes, ∀ t ≤ P.horizon.last, ∃ b, V.get? id t = some b ∧ V'.get? id t = some b

variable {A : Arena} {root root' : NodeId} {H : Horizon} {scope scope' : String} {P P' : Plan}

/-- Unrollings of one arena up to one horizon agree up to their scopes. -/
lemma agreeUpToScope (built : A.Built) (made : Plan.make A root H scope = .ok P)
    (made' : Plan.make A root' H scope' = .ok P') (n n' : Nat) :
    AgreeUpToScope P P' (apply^[n + 1] (ofPlan P)) (apply^[n' + 1] (ofPlan P')) := by
  have accepted : P.Accepted := ⟨A, root, H, scope, built, made⟩
  have accepted' : P'.Accepted := ⟨A, root', H, scope', built, made'⟩
  obtain ⟨E, filled, applied⟩ := accepted.apply_iterate
  obtain ⟨E', filled', applied'⟩ := accepted'.apply_iterate
  rw [applied n, applied' n']
  obtain ⟨-, -, -, rfl⟩ := Plan.make_eq_ok_iff.mp made
  obtain ⟨-, -, -, rfl⟩ := Plan.make_eq_ok_iff.mp made'
  have literals := Plan.literal_rescope ⟨A, root, H, scope, A.descendants root⟩
    ⟨A, root', H, scope', A.descendants root'⟩ rfl
  have definitions := Plan.definition?_rescope ⟨A, root, H, scope, A.descendants root⟩
    ⟨A, root', H, scope', A.descendants root'⟩ rfl rfl
  exact {
    theta := fun id hid hid' t ht => ⟨_, theta_eq_ok filled hid ht, by
      rw [theta_eq_ok filled' hid' ht, literals]⟩
    definition := fun id hid hid' t ht => ⟨_, definition?_eq_ok filled hid ht, by
      rw [definition?_eq_ok filled' hid' ht, definitions]⟩
    same_scope := by
      rintro rfl id hid hid' t ht
      rw [theta_eq_ok filled hid ht, theta_eq_ok filled' hid' ht,
        definition?_eq_ok filled hid ht, definition?_eq_ok filled' hid' ht]
      exact ⟨rfl, rfl⟩ }

/-- The unrolling of a subformula in the same scope is a restriction. -/
lemma restrictsTo_of_reaches (built : A.Built) (made : Plan.make A root H scope = .ok P)
    (made' : Plan.make A root' H scope = .ok P') (reach : A.Reaches root root') (n n' : Nat) :
    RestrictsTo P P' (apply^[n + 1] (ofPlan P)) (apply^[n' + 1] (ofPlan P')) := by
  have accepted : P.Accepted := ⟨A, root, H, scope, built, made⟩
  have accepted' : P'.Accepted := ⟨A, root', H, scope, built, made'⟩
  obtain ⟨E, filled, applied⟩ := accepted.apply_iterate
  obtain ⟨E', filled', applied'⟩ := accepted'.apply_iterate
  have part : ∀ id ∈ P'.nodes, id ∈ P.nodes := by
    intro id hid
    rw [Plan.mem_nodes_iff_of_make built made'] at hid
    rw [Plan.mem_nodes_iff_of_make built made]
    exact reach.trans hid
  have nodes := Plan.nodes_eq_filter accepted.nodes_sorted accepted'.nodes_sorted part
  obtain ⟨-, -, -, rfl⟩ := Plan.make_eq_ok_iff.mp made
  obtain ⟨-, -, -, rfl⟩ := Plan.make_eq_ok_iff.mp made'
  rw [applied n, applied' n']
  exact {
    nodes := nodes
    constraints := ⟨E.constraints.toList, rfl, congrArg _
      (filled.constraints_eq_filter filled' rfl (Plan.slots_eq_filter rfl rfl nodes))⟩
    values := by
      intro tr horizon
      obtain ⟨V, result, meaning⟩ := exists_evaluate accepted n horizon
      obtain ⟨V', result', meaning'⟩ := exists_evaluate accepted' n' horizon
      rw [applied n] at result
      rw [applied' n'] at result'
      exact ⟨V, V', result, result', fun id hid t ht =>
        ⟨_, meaning id (part id hid) t ht, meaning' id hid t ht⟩⟩ }

/-- **The unrolling of a node depends on what lies below it.** Accepted formulas of one
arena, up to one horizon, agree at the nodes that both reach, up to their scopes. If a
formula is accepted, then so are its subformulas, and the unrolling of a subformula is what
the unrolling of the formula says about the nodes of the subformula: its constraints are
among those of the formula, in the same order, and its values are the same. -/
theorem agree_and_restrict (built : A.Built) (H : Horizon) (root root' : NodeId) :
    (∀ scope scope' P P', Plan.make A root H scope = .ok P →
        Plan.make A root' H scope' = .ok P' →
        (∀ id, id ∈ P.nodes ↔ A.Reaches root id) ∧ (∀ id, id ∈ P'.nodes ↔ A.Reaches root' id)
          ∧ ∀ n n', AgreeUpToScope P P' (apply^[n + 1] (ofPlan P)) (apply^[n' + 1] (ofPlan P')))
      ∧ (A.Reaches root root' → ∀ scope P, Plan.make A root H scope = .ok P →
        ∃ P', Plan.make A root' H scope = .ok P'
          ∧ ∀ n n', RestrictsTo P P' (apply^[n + 1] (ofPlan P)) (apply^[n' + 1] (ofPlan P'))) := by
  constructor
  · intro scope scope' P P' made made'
    exact ⟨fun id => Plan.mem_nodes_iff_of_make built made,
      fun id => Plan.mem_nodes_iff_of_make built made', agreeUpToScope built made made'⟩
  · intro reach scope P made
    have made' := Plan.make_of_reaches built.wellFormed made reach
    exact ⟨_, made', restrictsTo_of_reaches built made made' reach⟩

/-- Three formulas that share `X X a`. -/
theorem agree_and_restrict_next :
    let A := Arena.build ∅ [.add (.atom "a"), .add (.next 0), .add (.next 1), .add (.not 2)]
    let theta (scope : String) (t : Nat) : Expr Literal := .lit ⟨.theta ⟨scope, 1⟩, t⟩
    ∃ P P' P'', Plan.make A 3 ⟨2⟩ "l" = .ok P ∧ Plan.make A 2 ⟨2⟩ "r" = .ok P'
      ∧ Plan.make A 2 ⟨2⟩ "l" = .ok P''
      ∧ (ofPlan P).apply.definition? 2 0 = .ok (some (theta "l" 1))
      ∧ (ofPlan P').apply.definition? 2 0 = .ok (some (theta "r" 1))
      ∧ ∃ cs, (ofPlan P).apply.constraints = .ok cs
        ∧ (ofPlan P'').apply.constraints
            = .ok (cs.filter fun c => c.node?.any (· ∈ P''.nodes)) := by
  intro A theta
  let P : Plan := ⟨A, 3, ⟨2⟩, "l", A.descendants 3⟩
  let P' : Plan := ⟨A, 2, ⟨2⟩, "r", A.descendants 2⟩
  have made : Plan.make A 3 ⟨2⟩ "l" = .ok P :=
    Plan.make_eq_ok (by decide) (by decide) (by decide)
  have made' : Plan.make A 2 ⟨2⟩ "r" = .ok P' :=
    Plan.make_eq_ok (by decide) (by decide) (by decide)
  obtain ⟨agree, restrict⟩ := agree_and_restrict ⟨_, rfl⟩ ⟨2⟩ 3 2
  have reach : A.Reaches 3 2 := .single ⟨_, rfl, by decide⟩
  obtain ⟨nodes, nodes', agree⟩ := agree "l" "r" P P' made made'
  obtain ⟨P'', made'', restricts⟩ := restrict reach "l" P made
  have hid : 2 ∈ P.nodes := (nodes 2).mpr reach
  have hid' : 2 ∈ P'.nodes := (nodes' 2).mpr .refl
  have accepted : P.Accepted := ⟨A, 3, ⟨2⟩, "l", ⟨_, rfl⟩, made⟩
  have definition : (ofPlan P).apply.definition? 2 0 = .ok (some (theta "l" 1)) :=
    accepted.definition?_apply 0 hid (by decide)
  obtain ⟨d, hd, definition'⟩ := (agree 0 0).definition 2 hid hid' 0 (by decide)
  cases definition.symm.trans hd
  exact ⟨P, P', P'', made, made', made'', definition, definition', (restricts 0 0).constraints⟩

end Unrolling

end BoundedTemporal
