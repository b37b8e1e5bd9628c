/-
Evaluation of the constraints on a trace.

* `Cell.reads`: the literals that are read to find the value of a cell;
* `Valuation.FilledBy`: the values after some slots, which are the meanings of the
  subformulas. `Valuation.FilledBy.evaluateSlot` is one step,
  `Valuation.FilledBy.foldl` a run;
* `Valuation.FilledBy.of_mem_reads`: whatever a slot reads has been set by then;
* `Unrolling.evaluate_eq_holds?`: evaluation agrees with the meaning of the formula.
-/
import BoundedTemporal.Unrolling.Valuation
import BoundedTemporal.Proofs.Unrolling.Models

namespace BoundedTemporal

/-- The literals that are read to find the value of a cell: those of its definition,
or the atom itself. -/
def Cell.reads (c : Cell) : List Literal :=
  match c.definition? with
  | some definition => definition.lits
  | none => [c.theta]

namespace Plan

variable {P : Plan} {id p : NodeId} {t s : Nat} {l : Literal} {symbol : Symbol}

/-! ### The grid -/

lemma mem_grid : (id, t) ∈ P.grid ↔ id ∈ P.nodes ∧ t ≤ P.horizon.last := by
  rw [grid, mem_schedule, Horizon.mem_ticks]

/-- The next slot of the grid is a node of the formula at a tick of the horizon. -/
lemma of_grid_eq {done rest : List (NodeId × Nat)} {slot : NodeId × Nat}
    (h : P.grid = done ++ slot :: rest) : slot.1 ∈ P.nodes ∧ slot.2 ≤ P.horizon.last := by
  have mem : slot ∈ P.grid := h ▸ List.mem_append_right done List.mem_cons_self
  exact mem_grid.mp mem

lemma length_grid (P : Plan) : P.grid.length = P.nodes.length * P.horizon.size := by
  simp [grid, List.length_flatMap]

lemma Accepted.grid_nodup (accepted : P.Accepted) : P.grid.Nodup :=
  schedule_nodup accepted.nodes_sorted fun _ => List.nodup_range

/-! ### What a cell reads -/

/-- A literal with a symbol is that of a node. -/
lemma eq_of_literal_eq (h : (P.literal p s).proposition = .theta symbol) :
    symbol = ⟨P.scope, p⟩ := by
  cases hp : P.arena.atom? p with
  | none =>
      simp only [literal, hp] at h
      exact (Proposition.theta.inj h).symm
  | some a =>
      simp only [literal, hp] at h
      cases h

/-- A cell reads only symbols of nodes that come before its own, at ticks of the
horizon. -/
lemma lt_of_mem_reads (accepted : P.Accepted) (hid : id ∈ P.nodes) (ht : t ≤ P.horizon.last)
    (hl : l ∈ (P.slotCell id t).reads) (hs : l.proposition = .theta symbol) :
    symbol.scope = P.scope ∧ symbol.node ∈ P.nodes ∧ symbol.node < id
      ∧ l.tick ≤ P.horizon.last := by
  obtain ⟨n, hn⟩ := accepted.exists_node? hid
  cases hd : P.definition? id t with
  | none =>
      -- the literal of an atom has no symbol
      obtain ⟨a, ha⟩ := (definition?_eq_none_iff accepted hid).mp hd
      rw [slotCell_atom ha, Cell.reads, List.mem_singleton] at hl
      rw [hl] at hs
      cases hs
  | some d =>
      simp only [slotCell, hd, Cell.reads] at hl
      obtain ⟨p, hp, s, hle, rfl⟩ := exists_operand_of_mem_lits hn ht hd hl
      obtain ⟨hpn, hlt⟩ := accepted.operand_mem hid hn hp
      obtain rfl := eq_of_literal_eq hs
      exact ⟨rfl, hpn, hlt, by rw [tick_literal]; exact hle⟩

end Plan

/-! ### The values after some slots -/

namespace Valuation

variable {P : Plan} {E : Encoding} {V : Valuation} {tr : Trace} {unset : Bool}
  {done rest : List (NodeId × Nat)} {slot : NodeId × Nat} {l : Literal} {symbol : Symbol}

/-- Some slots have been given the meanings of their subformulas, and nothing else. -/
structure FilledBy (P : Plan) (tr : Trace) (V : Valuation) (done : List (NodeId × Nat)) :
    Prop where
  get?_eq : ∀ id t, V.get? id t = if (id, t) ∈ done then some (P.arena.value tr id t) else none
  size_eq : V.size = done.length

lemma filledBy_empty : FilledBy P tr empty [] where
  get?_eq id t := by simp [get?, empty]
  size_eq := Std.HashMap.size_empty

/-- **Nothing is read before it is set**: the symbols that the next slot reads have
their values. -/
lemma FilledBy.of_mem_reads (filled : FilledBy P tr V done) (accepted : P.Accepted)
    (h : P.grid = done ++ slot :: rest) (hl : l ∈ (P.slotCell slot.1 slot.2).reads)
    (hs : l.proposition = .theta symbol) :
    symbol.scope = P.scope
      ∧ V.get? symbol.node l.tick = some (P.arena.value tr symbol.node l.tick) := by
  obtain ⟨hid, ht⟩ := Plan.of_grid_eq h
  obtain ⟨scope, hp, hlt, hle⟩ := Plan.lt_of_mem_reads accepted hid ht hl hs
  have before := Plan.mem_done_of_lt accepted.nodes_sorted h hp (Horizon.mem_ticks.mpr hle) hlt
  exact ⟨scope, by rw [filled.get?_eq, if_pos before]⟩

/-- The next slot gets its meaning. -/
lemma FilledBy.value_eq (filled : FilledBy P tr V done) (accepted : P.Accepted)
    (horizon : tr.horizon = P.horizon) (h : P.grid = done ++ slot :: rest) :
    Encoding.value V tr unset (P.slotCell slot.1 slot.2) = P.arena.value tr slot.1 slot.2 := by
  obtain ⟨hid, ht⟩ := Plan.of_grid_eq h
  have read : ∀ l ∈ (P.slotCell slot.1 slot.2).reads, V.read tr unset l = P.meaning tr l := by
    intro l hl
    cases hs : l.proposition with
    | atom a => simp only [Valuation.read, Plan.meaning, hs]
    | theta symbol =>
        have set := (filled.of_mem_reads accepted h hl hs).2
        simp only [Valuation.read, Plan.meaning, hs, set, Option.getD_some]
  rw [← Plan.meaning_literal accepted]
  cases hd : P.definition? slot.1 slot.2 with
  | none =>
      simp only [Encoding.value, Cell.reads, Plan.slotCell, hd] at read ⊢
      exact read _ List.mem_cons_self
  | some definition =>
      have holds : (Constraint.mk (P.literal slot.1 slot.2) definition).Holds (P.meaning tr) :=
        Plan.holds_meaning accepted horizon hid ht (by simp [Cell.constraint?, Plan.slotCell, hd])
      simp only [Encoding.value, Cell.reads, Plan.slotCell, hd] at read ⊢
      rw [Expr.eval_congr definition read]
      exact holds.symm

/-- One step: the next slot of the grid is set, and has not been set before. -/
lemma FilledBy.evaluateSlot (filled : FilledBy P tr V done) (accepted : P.Accepted)
    (cells : Encoding.FilledBy P E P.slots) (horizon : tr.horizon = P.horizon)
    (h : P.grid = done ++ slot :: rest) :
    FilledBy P tr (E.evaluateSlot tr unset V slot) (done ++ [slot]) := by
  obtain ⟨id, t⟩ := slot
  obtain ⟨hid, ht⟩ := Plan.of_grid_eq h
  have fresh : (id, t) ∉ done := by
    have nodup := accepted.grid_nodup
    rw [h] at nodup
    exact fun hdone => (List.nodup_append.mp nodup).2.2 _ hdone _ List.mem_cons_self rfl
  have next : E.evaluateSlot tr unset V (id, t) = V.insert id t (P.arena.value tr id t) := by
    simp only [Encoding.evaluateSlot, cells.cell?_eq_some hid ht,
      filled.value_eq accepted horizon h]
  rw [next]
  constructor
  · intro p s
    rw [get?_insert, filled.get?_eq]
    exact ite_mem_snoc (P.arena.value tr) done id p t s
  · have absent : (id, t) ∉ V.values := by
      have missing : V.values[(id, t)]? = none := by
        have := filled.get?_eq id t
        rwa [if_neg fresh] at this
      rw [Std.HashMap.mem_iff_isSome_getElem?, missing]
      exact Bool.false_ne_true
    rw [size, insert, Std.HashMap.size_insert, if_neg absent, List.length_append, ← filled.size_eq]
    rfl

/-- A run: all slots of a part of the grid are set, one after the other. -/
lemma FilledBy.foldl (filled : FilledBy P tr V done) (accepted : P.Accepted)
    (cells : Encoding.FilledBy P E P.slots) (horizon : tr.horizon = P.horizon)
    {more : List (NodeId × Nat)} (h : P.grid = done ++ (more ++ rest)) :
    FilledBy P tr (more.foldl (E.evaluateSlot tr unset) V) (done ++ more) := by
  induction more generalizing done V with
  | nil => rwa [List.append_nil]
  | cons slot more ih =>
      have step : FilledBy P tr (E.evaluateSlot tr unset V slot) (done ++ [slot]) :=
        filled.evaluateSlot accepted cells horizon h
      have run := ih step (by rw [h, List.append_assoc]; rfl)
      rwa [List.append_assoc] at run

/-- The values of a part of the grid. -/
lemma filledBy_propagate (accepted : P.Accepted) (cells : Encoding.FilledBy P E P.slots)
    (horizon : tr.horizon = P.horizon) (h : P.grid = done ++ rest) :
    FilledBy P tr (E.propagate tr unset done) done :=
  filledBy_empty.foldl accepted cells horizon h

end Valuation

/-! ### Evaluation of an unrolling -/

namespace Unrolling

variable {P : Plan} {E : Encoding} {tr : Trace}

lemma evaluate_ofPlan : (ofPlan P).evaluate tr = .error .notReady :=
  rfl

lemma evaluate_of_horizon_eq (h : tr.horizon = P.horizon) :
    evaluate ⟨P, some E⟩ tr = .ok (E.propagate tr false P.grid) :=
  if_pos h

lemma evaluate_of_horizon_ne (h : tr.horizon ≠ P.horizon) :
    evaluate ⟨P, some E⟩ tr = .error (.horizonMismatch tr.horizon.last P.horizon.last) :=
  if_neg h

/-- On a trace that ends at the horizon, every node gets its meaning at every tick. -/
lemma exists_evaluate (accepted : P.Accepted) (n : Nat) (horizon : tr.horizon = P.horizon) :
    ∃ V, (apply^[n + 1] (.ofPlan P)).evaluate tr = .ok V
      ∧ ∀ id ∈ P.nodes, ∀ t ≤ P.horizon.last, V.get? id t = some (P.arena.value tr id t) := by
  obtain ⟨E, cells, h⟩ := accepted.apply_iterate
  have filled : Valuation.FilledBy P tr (E.propagate tr false P.grid) P.grid :=
    Valuation.filledBy_propagate accepted cells horizon (List.append_nil P.grid).symm
  refine ⟨_, (h n).symm ▸ evaluate_of_horizon_eq horizon, fun id hid t ht => ?_⟩
  rw [filled.get?_eq, if_pos (Plan.mem_grid.mpr ⟨hid, ht⟩)]

/-- At every tick, the root gets the meaning of the formula that has been unrolled. -/
lemma exists_evaluate_root {A : Arena} {root : NodeId} {H : Horizon} {scope : String}
    (built : A.Built) (made : Plan.make A root H scope = .ok P) (n : Nat)
    (horizon : tr.horizon = H) :
    ∃ V, (apply^[n + 1] (ofPlan P)).evaluate tr = .ok V
      ∧ ∀ t ≤ H.last, V.get? root t = A.holds? root tr t := by
  have accepted : P.Accepted := ⟨A, root, H, scope, built, made⟩
  have stored := accepted.root_mem
  obtain ⟨-, -, -, rfl⟩ := Plan.make_eq_ok_iff.mp made
  obtain ⟨V, result, values⟩ := exists_evaluate accepted n horizon
  exact ⟨V, result, fun t ht => (values root stored t ht).trans (accepted.holds?_eq stored tr t).symm⟩

/-- **Evaluation agrees with the meaning of the formula.** Before an unrolling has been
applied it is not ready. After that, a trace is refused exactly when it does not end at
the horizon; otherwise each node gets at each tick the value of its subformula, nothing
else gets one, and no symbol is read before it has its value. -/
theorem evaluate_eq_holds? (accepted : P.Accepted) (n : Nat) (tr : Trace) :
    let U := apply^[n] (.ofPlan P)
    ((∃ e, U.evaluate tr = .error e ∧ e.kind = .notReady) ↔ n = 0)
      ∧ (n ≠ 0 → ((∃ e, U.evaluate tr = .error e ∧ e.kind = .invalidArgument)
          ↔ tr.horizon ≠ P.horizon))
      ∧ (n ≠ 0 → tr.horizon = P.horizon → ∃ E V, U.encoding = .ok E ∧ U.evaluate tr = .ok V
          ∧ (∀ id t, (V.get? id t).isSome ↔ id ∈ P.nodes ∧ t ≤ P.horizon.last)
          ∧ V.size = P.nodes.length * (P.horizon.last + 1)
          ∧ (∀ id ∈ P.nodes, ∀ t ≤ P.horizon.last,
              ∃ b, P.arena.holds? id tr t = some b ∧ V.get? id t = some b)
          ∧ ∀ done slot rest, P.grid = done ++ slot :: rest →
              ∃ c, U.cell slot.1 slot.2 = .ok c ∧ ∀ l ∈ c.reads, ∀ symbol,
                l.proposition = .theta symbol → symbol.scope = P.scope
                  ∧ ((E.propagate tr false done).get? symbol.node l.tick).isSome) := by
  intro U
  cases n with
  | zero =>
      have refused : U.evaluate tr = .error .notReady := evaluate_ofPlan
      exact ⟨iff_of_true ⟨.notReady, refused, rfl⟩ rfl, fun h => absurd rfl h,
        fun h => absurd rfl h⟩
  | succ n =>
      obtain ⟨E, cells, h⟩ := accepted.apply_iterate
      have hU : U = ⟨P, some E⟩ := h n
      rw [hU]
      by_cases horizon : tr.horizon = P.horizon
      · have result := evaluate_of_horizon_eq (E := E) horizon
        have filled {done rest} (h : P.grid = done ++ rest) :
            Valuation.FilledBy P tr (E.propagate tr false done) done :=
          Valuation.filledBy_propagate accepted cells horizon h
        have all := filled (List.append_nil P.grid).symm
        refine ⟨by simp [result], by simp [result, horizon], fun _ _ => ?_⟩
        refine ⟨E, _, rfl, result, ?_, ?_, ?_, ?_⟩
        · intro id t
          rw [all.get?_eq, ← Plan.mem_grid]
          by_cases mem : (id, t) ∈ P.grid <;> simp [mem]
        · rw [all.size_eq, Plan.length_grid]
          rfl
        · intro id hid t ht
          refine ⟨P.arena.value tr id t, accepted.holds?_eq hid tr t, ?_⟩
          rw [all.get?_eq, if_pos (Plan.mem_grid.mpr ⟨hid, ht⟩)]
        · intro done slot rest hgrid
          obtain ⟨hid, ht⟩ := Plan.of_grid_eq hgrid
          refine ⟨P.slotCell slot.1 slot.2, cell_eq_ok cells hid ht, ?_⟩
          intro l hl symbol hs
          obtain ⟨scope, set⟩ := (filled hgrid).of_mem_reads accepted hgrid hl hs
          exact ⟨scope, by rw [set]; rfl⟩
      · simp [evaluate_of_horizon_ne horizon, horizon, Error.kind]

/-- `F[1,2] a` on the trace with three ticks on which `a` holds at the last one: of the
six values, those of the root are true, true and false. -/
theorem evaluate_eq_holds?_eventually :
    let A := Arena.build ∅ [.add (.atom "a"), .add (.eventually ⟨1, .finite 2, by decide⟩ 0)]
    ∃ P, Plan.make A 1 ⟨2⟩ "theta" = .ok P
      ∧ ∃ V, (ofPlan P).apply.evaluate (.ofBits ⟨2⟩ ["a"] 4) = .ok V ∧ V.size = 6
        ∧ V.get? 1 0 = some true ∧ V.get? 1 1 = some true ∧ V.get? 1 2 = some false := by
  intro A
  let P : Plan := ⟨A, 1, ⟨2⟩, "theta", A.descendants 1⟩
  have made : Plan.make A 1 ⟨2⟩ "theta" = .ok P :=
    Plan.make_eq_ok (by decide) (by decide) (by decide)
  have accepted : P.Accepted := ⟨A, 1, ⟨2⟩, "theta", ⟨_, rfl⟩, made⟩
  obtain ⟨-, -, evaluated⟩ := evaluate_eq_holds? accepted 1 (.ofBits ⟨2⟩ ["a"] 4)
  obtain ⟨E, V, -, result, -, size, agree, -⟩ := evaluated Nat.one_ne_zero rfl
  have root := accepted.root_mem
  have nodes : A.descendants 1 = [0, 1] := by cbv
  refine ⟨P, made, V, result, by rw [size]; exact congrArg (·.length * 3) nodes, ?_, ?_, ?_⟩
  · obtain ⟨b, hb, h⟩ := agree 1 root 0 (by decide)
    exact h.trans (hb.symm.trans (by decide))
  · obtain ⟨b, hb, h⟩ := agree 1 root 1 (by decide)
    exact h.trans (hb.symm.trans (by decide))
  · obtain ⟨b, hb, h⟩ := agree 1 root 2 (by decide)
    exact h.trans (hb.symm.trans (by decide))

end Unrolling

end BoundedTemporal
