/-
The same formula up to two horizons.

An earlier horizon leaves out what lies after it, and nothing else: literals are the
same, definitions that look ahead lose the operands past the horizon, and all other
definitions stay.

* `CutAt`: a list without the elements past a tick, all of which stood at its end;
  `Interval.cutAt_future`: an earlier horizon cuts a window into the future so;
* `Node.condition?_eq_of_not_isFuture`, `Node.condition?_eq_of_le`: the conditions
  that do not feel the horizon;
* `Plan.literalsOver`, `Plan.untilCases`: the operands of a definition before they are
  joined, and `Plan.CutDefinition`: what an earlier horizon does to a definition;
* `Unrolling.PrefixOf`, `Unrolling.prefixOf_of_le`: the unrolling up to an earlier
  horizon is a part of the one up to a later horizon.
-/
import BoundedTemporal.Proofs.Unrolling.Applied

namespace BoundedTemporal

/-! ### Lists cut at a tick -/

/-- `as` is what is left of `bs` without the elements at ticks after `last`, which stand
at the end of `bs`. -/
structure CutAt {α : Type} (last : Nat) (tick : α → Nat) (as bs : List α) : Prop where
  isPrefix : as <+: bs
  eq_filter : as = bs.filter fun b => tick b ≤ last

namespace CutAt

variable {α β : Type} {last : Nat} {tick : α → Nat} {as rest : List α}

lemma of_append (early : ∀ a ∈ as, tick a ≤ last) (late : ∀ a ∈ rest, last < tick a) :
    CutAt last tick as (as ++ rest) where
  isPrefix := List.prefix_append as rest
  eq_filter := by
    have kept : as.filter (fun a => tick a ≤ last) = as :=
      List.filter_eq_self.mpr fun a ha => decide_eq_true (early a ha)
    have dropped : rest.filter (fun a => tick a ≤ last) = [] :=
      List.filter_eq_nil_iff.mpr fun a ha => by simpa using late a ha
    rw [List.filter_append, kept, dropped, List.append_nil]

/-- A list over ticks is cut where the ticks are cut. -/
lemma map {ts ts' : List Nat} (cut : CutAt last id ts ts') {f : Nat → α}
    (tick_f : ∀ t, tick (f t) = t) : CutAt last tick (ts.map f) (ts'.map f) where
  isPrefix := cut.isPrefix.map f
  eq_filter := by
    have ticks : (fun a => decide (tick a ≤ last)) ∘ f = fun t => decide (t ≤ last) :=
      funext fun t => by rw [Function.comp_apply, tick_f]
    rw [List.filter_map, ticks]
    exact congrArg _ cut.eq_filter

end CutAt

/-! ### Windows and conditions up to two horizons -/

/-- A window with a later end goes on with the ticks that lie between the two ends. -/
lemma Window.ticks_append {start stop stop' : Nat} (h : stop ≤ stop') :
    (Window.mk start stop').ticks
      = (Window.mk start stop).ticks ++ (Window.mk (max start stop) stop').ticks := by
  have middle : max start stop = start + (stop - start) := by omega
  have sizes : stop' - start = (stop - start) + (stop' - max start stop) := by omega
  simp only [ticks, size]
  rw [sizes, middle, List.range'_append_1]

lemma Interval.cutAt_future (I : Interval) (t : Nat) {last last' : Nat} (le : last ≤ last') :
    CutAt last id (I.future t last).ticks (I.future t last').ticks := by
  have stop_le : (I.future t last).stop ≤ (I.future t last').stop := by
    rcases I with ⟨l, u | _, h⟩ <;> simp only [future] <;> omega
  have later : (I.future t last').ticks = (I.future t last).ticks
      ++ (Window.mk (max (t + I.lower) (I.future t last).stop) (I.future t last').stop).ticks :=
    Window.ticks_append stop_le
  rw [later]
  refine CutAt.of_append (fun s hs => le_last_of_mem_future (Window.mem_ticks.mp hs)) fun s hs => ?_
  -- the end of the window has moved, so it was cut at the earlier horizon
  have between := Window.mem_def.mp (Window.mem_ticks.mp hs)
  rcases I with ⟨l, u | _, h⟩ <;> simp only [future, id] at between ⊢ <;> omega

namespace Node

variable {α : Type} {n : Node α} {last last' t : Nat}

/-- A node that does not look ahead does not feel the horizon. -/
lemma condition?_eq_of_not_isFuture (h : n.isFuture = false) :
    n.condition? last t = n.condition? last' t := by
  cases n <;> first | rfl | cases h

/-- A node whose window ends before the horizon does not feel it. -/
lemma condition?_eq_of_le {I : Interval} {u : Nat} (hI : n.interval? = some I)
    (hu : I.upper = .finite u) (h : t + u ≤ last) (le : last ≤ last') :
    n.condition? last t = n.condition? last' t := by
  have window : I.future t last = I.future t last' := by
    simp only [Interval.future, hu, Nat.min_eq_left h, Nat.min_eq_left (Nat.le_trans h le)]
  cases n <;> cases hI <;> first | rfl | simp only [condition?, window]

end Node

/-! ### Definitions up to two horizons -/

namespace Plan

variable {P : Plan} {H : Horizon} {I : Interval} {p q id : NodeId} {t : Nat} {n : Node NodeId}

/-- The literals of an operand at the ticks of a window. -/
def literalsOver (P : Plan) (p : NodeId) (w : Window) : List Literal :=
  w.ticks.map (P.literal p)

/-- The ways in which `p U q` can hold at `t`: the literals of `p` until then, and that of
`q`. -/
def untilCases (P : Plan) (I : Interval) (p q : NodeId) (t : Nat) : List (List Literal × Literal) :=
  (I.future t P.horizon.last).ticks.map fun s => (P.literalsOver p ⟨t, s⟩, P.literal q s)

/-- All literals of a case hold. -/
def caseExpr (c : List Literal × Literal) : Expr Literal :=
  .all ((c.1 ++ [c.2]).map .lit)

/-- What becomes of the definition `d'` of a node when the horizon is an earlier one. The
node `X` loses its operand at the horizon; `G` and `F` lose the operands, and `U` the cases,
that lie past the horizon. -/
def CutDefinition (P P' : Plan) (n : Node NodeId) (t : Nat) (d d' : Expr Literal) : Prop :=
  match n with
  | .atom _ | .not _ | .and _ _ | .or _ _ | .since _ _ _ => d = d'
  | .next _ => (t < P.horizon.last → d = d') ∧ (t = P.horizon.last → d = .bot)
  | .globally I p =>
    let ls := P.literalsOver p (I.future t P.horizon.last)
    let ls' := P'.literalsOver p (I.future t P'.horizon.last)
    d = .all (ls.map .lit) ∧ d' = .all (ls'.map .lit) ∧ CutAt P.horizon.last Literal.tick ls ls'
  | .eventually I p =>
    let ls := P.literalsOver p (I.future t P.horizon.last)
    let ls' := P'.literalsOver p (I.future t P'.horizon.last)
    d = .any (ls.map .lit) ∧ d' = .any (ls'.map .lit) ∧ CutAt P.horizon.last Literal.tick ls ls'
  | .until I p q =>
    let cs := P.untilCases I p q t
    let cs' := P'.untilCases I p q t
    d = .any (cs.map caseExpr) ∧ d' = .any (cs'.map caseExpr)
      ∧ CutAt P.horizon.last (fun c => c.2.tick) cs cs'

/-- The same formula up to another horizon. -/
def withHorizon (P : Plan) (H : Horizon) : Plan :=
  { P with horizon := H }

lemma map_operandOver (P : Plan) (p : NodeId) (w : Window) :
    (Node.operandOver p w).map (Expr.map fun q => P.literal q.1 q.2)
      = (P.literalsOver p w).map .lit := by
  rw [Node.operandOver, literalsOver, List.map_map, List.map_map]
  rfl

lemma map_untilCase (P : Plan) (p q : NodeId) (t s : Nat) :
    (Node.untilCase p q t s).map (fun q => P.literal q.1 q.2)
      = caseExpr (P.literalsOver p ⟨t, s⟩, P.literal q s) := by
  rw [Node.untilCase, Expr.map_all, List.map_append, map_operandOver, caseExpr, List.map_append]
  rfl

lemma definition?_globally (hn : P.arena.node? id = some (.globally I p)) :
    P.definition? id t
      = some (.all ((P.literalsOver p (I.future t P.horizon.last)).map .lit)) := by
  rw [definition?_of_node? hn, Node.condition?, Option.map_some, Expr.map_all, map_operandOver]

lemma definition?_eventually (hn : P.arena.node? id = some (.eventually I p)) :
    P.definition? id t
      = some (.any ((P.literalsOver p (I.future t P.horizon.last)).map .lit)) := by
  rw [definition?_of_node? hn, Node.condition?, Option.map_some, Expr.map_any, map_operandOver]

lemma definition?_until (hn : P.arena.node? id = some (.until I p q)) :
    P.definition? id t = some (.any ((P.untilCases I p q t).map caseExpr)) := by
  rw [definition?_of_node? hn, Node.condition?, Option.map_some, Expr.map_any, untilCases,
    List.map_map, List.map_map]
  congr 3
  exact funext (map_untilCase P p q t)

/-- The literals over a future window are cut at the earlier horizon. -/
lemma cutAt_literalsOver (le : P.horizon.last ≤ H.last) (I : Interval) (p : NodeId) (t : Nat) :
    CutAt P.horizon.last Literal.tick (P.literalsOver p (I.future t P.horizon.last))
      ((P.withHorizon H).literalsOver p (I.future t H.last)) :=
  (I.cutAt_future t le).map fun _ => P.tick_literal

/-- The cases of `U` are cut at the earlier horizon. -/
lemma cutAt_untilCases (le : P.horizon.last ≤ H.last) (I : Interval) (p q : NodeId) (t : Nat) :
    CutAt P.horizon.last (fun c => c.2.tick) (P.untilCases I p q t)
      ((P.withHorizon H).untilCases I p q t) :=
  (I.cutAt_future t le).map fun _ => P.tick_literal

/-- Definitions are equal where conditions are. -/
lemma definition?_withHorizon (hn : P.arena.node? id = some n)
    (hc : n.condition? P.horizon.last t = n.condition? H.last t) :
    (P.withHorizon H).definition? id t = P.definition? id t := by
  have hn' : (P.withHorizon H).arena.node? id = some n := hn
  rw [definition?_of_node? hn, definition?_of_node? hn', hc]
  rfl

/-- **An earlier horizon cuts the definitions** and does nothing else to them. -/
lemma exists_cutDefinition (hn : P.arena.node? id = some n) (operator : n.isAtom = false)
    (le : P.horizon.last ≤ H.last) :
    ∃ d d', P.definition? id t = some d ∧ (P.withHorizon H).definition? id t = some d'
      ∧ CutDefinition P (P.withHorizon H) n t d d' := by
  have hn' : (P.withHorizon H).arena.node? id = some n := hn
  cases n with
  | atom name => cases operator
  | not p | and p q | or p q | since I p q =>
      have same : (P.withHorizon H).definition? id t = P.definition? id t :=
        definition?_withHorizon hn (Node.condition?_eq_of_not_isFuture rfl)
      exact ⟨_, _, definition?_of_node? hn, same.trans (definition?_of_node? hn), rfl⟩
  | next p =>
      refine ⟨_, _, definition?_of_node? hn, definition?_of_node? hn', fun h => ?_, fun h => ?_⟩
      · have h' : t < (P.withHorizon H).horizon.last := Nat.lt_of_lt_of_le h le
        rw [if_pos h, if_pos h']
        rfl
      · rw [if_neg (Nat.not_lt.mpr (Nat.le_of_eq h.symm))]
        rfl
  | globally I p =>
      exact ⟨_, _, definition?_globally hn, definition?_globally hn', rfl, rfl,
        cutAt_literalsOver le I p t⟩
  | eventually I p =>
      exact ⟨_, _, definition?_eventually hn, definition?_eventually hn', rfl, rfl,
        cutAt_literalsOver le I p t⟩
  | «until» I p q =>
      exact ⟨_, _, definition?_until hn, definition?_until hn', rfl, rfl,
        cutAt_untilCases le I p q t⟩

end Plan

/-! ### Unrollings up to two horizons -/

namespace Unrolling

/-- Up to the horizon of `U`, the unrollings `U` and `U'` differ only in what `U'` says of
later ticks. -/
structure PrefixOf (U U' : Unrolling) : Prop where
  /-- The nodes are the same. -/
  nodes : U.plan.nodes = U'.plan.nodes
  /-- The literals are the same. -/
  theta : ∀ id ∈ U.plan.nodes, ∀ t ≤ U.plan.horizon.last,
    U.theta id t = .ok (U.plan.literal id t) ∧ U'.theta id t = .ok (U.plan.literal id t)
  /-- The definitions are cut at the earlier horizon. -/
  definition : ∀ id ∈ U.plan.nodes, ∀ t ≤ U.plan.horizon.last,
    ∀ n, U.plan.arena.node? id = some n → n.isAtom = false →
      ∃ d d', U.definition? id t = .ok (some d) ∧ U'.definition? id t = .ok (some d')
        ∧ Plan.CutDefinition U.plan U'.plan n t d d'
  /-- They are the same where the earlier horizon does not cut the window. -/
  uncut : ∀ id ∈ U.plan.nodes, ∀ t ≤ U.plan.horizon.last,
    ∀ n, U.plan.arena.node? id = some n → ∀ I u, n.interval? = some I → I.upper = .finite u →
      t + u ≤ U.plan.horizon.last →
      ∃ d, U.definition? id t = .ok (some d) ∧ U'.definition? id t = .ok (some d)
  /-- What is defined up to the earlier horizon is defined up to the later one. -/
  left_sides : ∃ cs cs', U.constraints = .ok cs ∧ U'.constraints = .ok cs'
    ∧ ∀ c ∈ cs, ∃ c' ∈ cs', c'.theta = c.theta

variable {P : Plan} {E E' : Encoding} {H : Horizon}

/-- The literals defined up to the earlier horizon are defined up to the later one. -/
lemma exists_constraint_of_le (accepted : P.Accepted) (filled : Encoding.FilledBy P E P.slots)
    (filled' : Encoding.FilledBy (P.withHorizon H) E' (P.withHorizon H).slots)
    (le : P.horizon.last ≤ H.last) {c : Constraint} (hc : c ∈ E.constraints.toList) :
    ∃ c' ∈ E'.constraints.toList, c'.theta = c.theta := by
  obtain ⟨id, hid, t, ht, hc⟩ := filled.mem_constraints_iff.mp hc
  rw [Plan.constraint?_slotCell, Option.map_eq_some_iff] at hc
  obtain ⟨d, hd, rfl⟩ := hc
  obtain ⟨n, hn⟩ := accepted.exists_node? hid
  have operator : n.isAtom = false := by
    rw [Plan.definition?_of_node? hn] at hd
    cases n <;> first | rfl | cases hd
  obtain ⟨-, d', -, hd', -⟩ := Plan.exists_cutDefinition hn operator (t := t) le
  refine ⟨⟨P.literal id t, d'⟩, filled'.mem_constraints_iff.mpr ⟨id, hid, t, ?_, ?_⟩, rfl⟩
  · exact Nat.le_trans ht le
  · rw [Plan.constraint?_slotCell, hd']
    rfl

/-- **A later horizon only adds to an unrolling.** -/
theorem prefixOf_of_le {A : Arena} {root : NodeId} {H H' : Horizon} {scope : String} {P P' : Plan}
    (built : A.Built) (made : Plan.make A root H scope = .ok P)
    (made' : Plan.make A root H' scope = .ok P') (le : H.last ≤ H'.last) (n n' : Nat) :
    PrefixOf (apply^[n + 1] (ofPlan P)) (apply^[n' + 1] (ofPlan P')) := by
  have accepted : P.Accepted := ⟨A, root, H, scope, built, made⟩
  have accepted' : P'.Accepted := ⟨A, root, H', scope, built, made'⟩
  obtain ⟨E, filled, applied⟩ := accepted.apply_iterate
  obtain ⟨E', filled', applied'⟩ := accepted'.apply_iterate
  rw [applied n, applied' n']
  obtain ⟨-, -, -, rfl⟩ := Plan.make_eq_ok_iff.mp made
  obtain ⟨-, -, -, rfl⟩ := Plan.make_eq_ok_iff.mp made'
  exact {
    nodes := rfl
    theta := fun id hid t ht =>
      ⟨theta_eq_ok filled hid ht, theta_eq_ok filled' hid (Nat.le_trans ht le)⟩
    definition := by
      intro id hid t ht n hn operator
      obtain ⟨d, d', hd, hd', cut⟩ := Plan.exists_cutDefinition hn operator le
      refine ⟨d, d', ?_, ?_, cut⟩
      · rw [definition?_eq_ok filled hid ht, hd]
      · rw [definition?_eq_ok filled' hid (Nat.le_trans ht le)]
        exact congrArg _ hd'
    uncut := by
      intro id hid t ht n hn I u hI hu h
      have operator : n.isAtom = false := by cases n <;> first | rfl | cases hI
      obtain ⟨d, -, hd, -⟩ := Plan.exists_cutDefinition hn operator le
      have same := Plan.definition?_withHorizon hn (Node.condition?_eq_of_le hI hu h le)
      refine ⟨d, ?_, ?_⟩
      · rw [definition?_eq_ok filled hid ht, hd]
      · rw [definition?_eq_ok filled' hid (Nat.le_trans ht le)]
        exact congrArg _ (same.trans hd)
    left_sides := ⟨E.constraints.toList, E'.constraints.toList, rfl, rfl,
      fun c hc => exists_constraint_of_le accepted filled filled' le hc⟩ }

/-- `G[0,1] (a U[0,1] b)` up to tick `3` and up to tick `6`. At tick `2` the window of `G` ends
before both horizons, so its definition is the same; at tick `3` it is cut, and one operand
is left of two. -/
theorem prefixOf_of_le_globally :
    let I : Interval := ⟨0, .finite 1, by decide⟩
    let A := Arena.build ∅ [.add (.atom "a"), .add (.atom "b"), .add (.until I 0 1),
      .add (.globally I 2)]
    let theta (t : Nat) : Expr Literal := .lit ⟨.theta ⟨"theta", 2⟩, t⟩
    ∃ P P', Plan.make A 3 ⟨3⟩ "theta" = .ok P ∧ Plan.make A 3 ⟨6⟩ "theta" = .ok P'
      ∧ (∃ d, (ofPlan P).apply.definition? 3 2 = .ok (some d)
        ∧ (ofPlan P').apply.definition? 3 2 = .ok (some d))
      ∧ (ofPlan P).apply.definition? 3 3 = .ok (some (.all [theta 3]))
      ∧ (ofPlan P').apply.definition? 3 3 = .ok (some (.all [theta 3, theta 4])) := by
  intro I A theta
  let P : Plan := ⟨A, 3, ⟨3⟩, "theta", A.descendants 3⟩
  let P' : Plan := ⟨A, 3, ⟨6⟩, "theta", A.descendants 3⟩
  have made : Plan.make A 3 ⟨3⟩ "theta" = .ok P :=
    Plan.make_eq_ok (by decide) (by decide) (by decide)
  have made' : Plan.make A 3 ⟨6⟩ "theta" = .ok P' :=
    Plan.make_eq_ok (by decide) (by decide) (by decide)
  have root : 3 ∈ P.nodes := Arena.mem_descendants_self (by decide)
  have cut := prefixOf_of_le ⟨_, rfl⟩ made made' (by decide) 0 0
  refine ⟨P, P', made, made', cut.uncut 3 root 2 (by decide) _ rfl I 1 rfl rfl (by decide), ?_⟩
  obtain ⟨d, d', hd, hd', rfl, rfl, -⟩ := cut.definition 3 root 3 (by decide) _ rfl rfl
  exact ⟨hd, hd'⟩

end Unrolling

end BoundedTemporal
