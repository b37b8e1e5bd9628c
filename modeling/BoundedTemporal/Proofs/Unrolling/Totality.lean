/-
Encoding never gets stuck, and every question has an answer or a reason.

* `Plan.Refuses`: why there is no answer about a node at a tick;
* `Unrolling.cell_eq_error_iff`, `Unrolling.thetas_eq_error_iff`: questions are refused
  for these reasons only;
* `Unrolling.cell_eq_ok_iff`, `Unrolling.definition?_eq_ok_iff`: what the answers are;
* `Unrolling.answers_total`: the tables of an encoding are filled without a fault, every
  answer is found in them, and all else is refused with its reason.
-/
import BoundedTemporal.Proofs.Encoding.Ledger
import BoundedTemporal.Proofs.Unrolling.Applied

namespace BoundedTemporal

/-- Why there is no answer about a node at a tick after `n` applications: there have
been none, or the root does not reach the node, or the tick lies past the horizon. -/
def Plan.Refuses (P : Plan) (n : Nat) (id : NodeId) (t : Nat) (e : Error) : Prop :=
  (n = 0 ∧ e = .notReady)
    ∨ (n ≠ 0 ∧ ¬ P.arena.Reaches P.root id ∧ e = .unknownFormula id)
    ∨ (n ≠ 0 ∧ P.arena.Reaches P.root id ∧ P.horizon.last < t
        ∧ e = .tickOutOfRange t P.horizon.last)

namespace Unrolling

variable {P : Plan} {E : Encoding} {U : Unrolling} {id : NodeId} {t : Nat} {e : Error}

/-! ### Questions that are refused -/

lemma cell_of_not_mem (filled : Encoding.FilledBy P E P.slots) (h : id ∉ P.nodes) :
    cell ⟨P, some E⟩ id t = .error (.unknownFormula id) := by
  have none : E.cell? id t = none := by
    rw [filled.cell?_eq, if_neg fun mem => h (Plan.mem_slots.mp mem).1]
  simp only [cell, encoding, bind, Except.bind, none, if_neg h]
  rfl

lemma cell_of_last_lt (filled : Encoding.FilledBy P E P.slots) (h : id ∈ P.nodes)
    (ht : P.horizon.last < t) :
    cell ⟨P, some E⟩ id t = .error (.tickOutOfRange t P.horizon.last) := by
  have none : E.cell? id t = none := by
    rw [filled.cell?_eq, if_neg fun mem => Nat.not_le.mpr ht (Plan.mem_slots.mp mem).2]
  simp only [cell, encoding, bind, Except.bind, none, if_pos h]
  rfl

/-- **Reasons for a refusal**: a node at a tick has a cell unless there is a reason. -/
lemma cell_eq_error_iff (accepted : P.Accepted) (n : Nat) :
    (apply^[n] (ofPlan P)).cell id t = .error e ↔ P.Refuses n id t e := by
  unfold Plan.Refuses
  cases n with
  | zero =>
      have refused : cell (ofPlan P) id t = .error .notReady := rfl
      simp [refused, eq_comm]
  | succ n =>
      obtain ⟨E, filled, h⟩ := accepted.apply_iterate
      rw [h, ← accepted.mem_nodes_iff]
      by_cases hid : id ∈ P.nodes
      · by_cases ht : t ≤ P.horizon.last
        · simp [cell_eq_ok filled hid ht, hid, Nat.not_lt.mpr ht]
        · have ht := Nat.not_le.mp ht
          simp [cell_of_last_lt filled hid ht, hid, ht, eq_comm]
      · simp [cell_of_not_mem filled hid, hid, eq_comm]

/-- What is read off an answer is refused for the same reasons. -/
lemma bind_pure_eq_error_iff {α β : Type} {x : Except Error α} {f : α → β} :
    (do return f (← x)) = Except.error e ↔ x = .error e := by
  simp [bind_eq_error_iff, pure, Except.pure]

lemma theta_eq_error_iff : U.theta id t = .error e ↔ U.cell id t = .error e :=
  bind_pure_eq_error_iff

lemma definition?_eq_error_iff : U.definition? id t = .error e ↔ U.cell id t = .error e :=
  bind_pure_eq_error_iff

/-- The cells that are found are those of the nodes of the formula, at ticks of the horizon. -/
lemma cell_eq_ok_iff (filled : Encoding.FilledBy P E P.slots) {c : Cell} :
    cell ⟨P, some E⟩ id t = .ok c ↔ id ∈ P.nodes ∧ t ≤ P.horizon.last ∧ P.slotCell id t = c := by
  by_cases hid : id ∈ P.nodes
  · by_cases ht : t ≤ P.horizon.last
    · simp [cell_eq_ok filled hid ht, hid, ht]
    · simp [cell_of_last_lt filled hid (Nat.not_le.mp ht), ht]
  · simp [cell_of_not_mem filled hid, hid]

/-- The literals that are answered are those of the nodes of the formula, at ticks of the
horizon. -/
lemma theta_eq_ok_iff (filled : Encoding.FilledBy P E P.slots) {l : Literal} :
    theta ⟨P, some E⟩ id t = .ok l ↔ id ∈ P.nodes ∧ t ≤ P.horizon.last ∧ P.literal id t = l := by
  simp [theta, bind_eq_ok_iff, cell_eq_ok_iff filled, pure, Except.pure, Plan.slotCell,
    and_assoc]

/-- So are the definitions. -/
lemma definition?_eq_ok_iff (filled : Encoding.FilledBy P E P.slots) {d? : Option (Expr Literal)} :
    definition? ⟨P, some E⟩ id t = .ok d?
      ↔ id ∈ P.nodes ∧ t ≤ P.horizon.last ∧ P.definition? id t = d? := by
  simp [definition?, bind_eq_ok_iff, cell_eq_ok_iff filled, pure, Except.pure, Plan.slotCell,
    and_assoc]

/-! ### Literals at all ticks -/

lemma thetas_eq_ok (filled : Encoding.FilledBy P E P.slots) (hid : id ∈ P.nodes) :
    thetas ⟨P, some E⟩ id = .ok (P.horizon.ticks.map (P.literal id)) := by
  have answers : ∀ t ∈ P.horizon.ticks, theta ⟨P, some E⟩ id t = pure (P.literal id t) :=
    fun t ht => theta_eq_ok filled hid (Horizon.mem_ticks.mp ht)
  exact mapM_eq_pure_map answers

lemma thetas_of_not_mem (filled : Encoding.FilledBy P E P.slots) (h : id ∉ P.nodes) :
    thetas ⟨P, some E⟩ id = .error (.unknownFormula id) := by
  have refused : theta ⟨P, some E⟩ id 0 = .error (.unknownFormula id) :=
    theta_eq_error_iff.mpr (cell_of_not_mem filled h)
  have first : P.horizon.ticks = 0 :: (List.range P.horizon.last).map Nat.succ :=
    List.range_succ_eq_map
  change P.horizon.ticks.mapM (theta ⟨P, some E⟩ id) = _
  rw [first, List.mapM_cons, refused]
  rfl

/-- The literals at all ticks are refused before there is an encoding, and if the root
does not reach the node. -/
lemma thetas_eq_error_iff (accepted : P.Accepted) (n : Nat) :
    (apply^[n] (ofPlan P)).thetas id = .error e ↔
      (n = 0 ∧ e = .notReady)
        ∨ (n ≠ 0 ∧ ¬ P.arena.Reaches P.root id ∧ e = .unknownFormula id) := by
  cases n with
  | zero =>
      have refused : thetas (ofPlan P) id = .error .notReady := rfl
      simp [refused, eq_comm]
  | succ n =>
      obtain ⟨E, filled, h⟩ := accepted.apply_iterate
      rw [h, ← accepted.mem_nodes_iff]
      by_cases hid : id ∈ P.nodes
      · simp [thetas_eq_ok filled hid, hid]
      · simp [thetas_of_not_mem filled hid, hid, eq_comm]

/-- Where the literals at all ticks are answered, there is one for each tick. -/
lemma of_thetas_eq_ok (accepted : P.Accepted) {n : Nat} {ls : List Literal}
    (h : (apply^[n] (ofPlan P)).thetas id = .ok ls) :
    ls.length = P.horizon.last + 1
      ∧ ∀ t ≤ P.horizon.last, ∃ l, ls[t]? = some l ∧ (apply^[n] (ofPlan P)).theta id t = .ok l := by
  cases n with
  | zero => cases h
  | succ n =>
      obtain ⟨E, filled, applied⟩ := accepted.apply_iterate
      rw [applied] at h ⊢
      by_cases hid : id ∈ P.nodes
      · rw [thetas_eq_ok filled hid] at h
        cases h
        refine ⟨by rw [List.length_map, Horizon.length_ticks]; rfl, fun t ht => ?_⟩
        have tick : P.horizon.ticks[t]? = some t := List.getElem?_range (Nat.lt_succ_of_le ht)
        exact ⟨P.literal id t, by rw [List.getElem?_map, tick]; rfl, theta_eq_ok filled hid ht⟩
      · rw [thetas_of_not_mem filled hid] at h
        cases h

/-! ### All questions -/

/-- **Encoding never gets stuck, and every question is answered or refused with its
reason.** The tables are filled without a missing literal and without an overflow, and
the answers about nodes of the formula at ticks of the horizon are in them. -/
theorem answers_total (accepted : P.Accepted) (fits : P.arena.Fits)
    (short : P.horizon.last < largestTick) (n : Nat) :
    let U := apply^[n] (.ofPlan P)
    (∃ L, P.ledger? = some L
        ∧ (n ≠ 0 → U.constraints = .ok L.constraints.toList)
        ∧ (n ≠ 0 → ∀ id, P.arena.Reaches P.root id → ∀ t ≤ P.horizon.last,
            ∃ l d?, L.thetas[(id, t)]? = some l ∧ L.definition? (id, t) = some d?
              ∧ U.theta id t = .ok l ∧ U.definition? id t = .ok d?))
      ∧ P.nodes.Pairwise (· < ·)
      ∧ (∀ id t e, U.theta id t = .error e ↔ P.Refuses n id t e)
      ∧ (∀ id t e, U.definition? id t = .error e ↔ P.Refuses n id t e)
      ∧ (∀ id e, U.thetas id = .error e ↔
          (n = 0 ∧ e = .notReady)
            ∨ (n ≠ 0 ∧ ¬ P.arena.Reaches P.root id ∧ e = .unknownFormula id))
      ∧ ∀ id ls, U.thetas id = .ok ls → ls.length = P.horizon.last + 1
          ∧ ∀ t ≤ P.horizon.last, ∃ l, ls[t]? = some l ∧ U.theta id t = .ok l := by
  intro U
  refine ⟨?_, accepted.nodes_sorted,
    fun id t e => theta_eq_error_iff.trans (cell_eq_error_iff accepted n),
    fun id t e => definition?_eq_error_iff.trans (cell_eq_error_iff accepted n),
    fun id e => thetas_eq_error_iff accepted n, fun id ls h => of_thetas_eq_ok accepted h⟩
  obtain ⟨L, hL, tables⟩ := accepted.exists_ledger? fits short
  obtain ⟨E, filled, h⟩ := accepted.apply_iterate
  have applied (hn : n ≠ 0) : U = ⟨P, some E⟩ := by
    obtain ⟨n, rfl⟩ := Nat.exists_eq_succ_of_ne_zero hn
    exact h n
  refine ⟨L, hL, fun hn => ?_, fun hn id hid t ht => ?_⟩
  · rw [applied hn, tables.constraints_eq, ← filled.constraints_eq]
    rfl
  · have hid := accepted.mem_nodes_iff.mpr hid
    have mem : (id, t) ∈ P.slots := Plan.mem_slots.mpr ⟨hid, ht⟩
    rw [applied hn]
    refine ⟨P.literal id t, P.definition? id t, ?_, tables.definition?_eq mem,
      theta_eq_ok filled hid ht, definition?_eq_ok filled hid ht⟩
    rw [tables.thetas_eq, if_pos mem]

/-- `a S[1,inf] b` up to tick `1`, beside a formula that it does not contain: the tables
are filled, and what lies past the horizon or outside the formula is refused. -/
theorem answers_total_since :
    let A := Arena.build ∅ [.add (.atom "a"), .add (.atom "b"),
      .add (.since ⟨1, .infinite, trivial⟩ 0 1), .add (.next 0)]
    ∃ P, Plan.make A 2 ⟨1⟩ "theta" = .ok P ∧ P.arena.Fits ∧ P.horizon.last < largestTick
      ∧ P.ledger?.isSome
      ∧ (ofPlan P).theta 2 1 = .error .notReady
      ∧ (ofPlan P).apply.theta 2 2 = .error (.tickOutOfRange 2 1)
      ∧ (ofPlan P).apply.definition? 3 2 = .error (.unknownFormula 3)
      ∧ ∃ ls, (ofPlan P).apply.thetas 2 = .ok ls ∧ ls.length = 2 := by
  intro A
  let P : Plan := ⟨A, 2, ⟨1⟩, "theta", A.descendants 2⟩
  have made : Plan.make A 2 ⟨1⟩ "theta" = .ok P :=
    Plan.make_eq_ok (by decide) (by decide) (by decide)
  have accepted : P.Accepted := ⟨A, 2, ⟨1⟩, "theta", ⟨_, rfl⟩, made⟩
  have fits : P.arena.Fits := by
    have all : ∀ id < A.size, ∀ n ∈ A.node? id, ∀ I ∈ n.interval?, I.Fits := by decide
    exact fun id n hn I hI => all id (Arena.lt_size_of_node? hn) n hn I hI
  have short : P.horizon.last < largestTick := by decide
  have inside : P.arena.Reaches P.root 2 := Relation.ReflTransGen.refl
  have outside : ¬ P.arena.Reaches P.root 3 := fun h =>
    absurd (accepted.wellFormed.le_of_reaches h) (by decide)
  obtain ⟨-, -, before, -⟩ := answers_total accepted fits short 0
  obtain ⟨⟨L, hL, -⟩, -, theta, definition, thetas, listed⟩ := answers_total accepted fits short 1
  refine ⟨P, made, fits, short, by rw [hL]; rfl, ?_, ?_, ?_, ?_⟩
  · exact (before 2 1 _).mpr (Or.inl ⟨rfl, rfl⟩)
  · exact (theta 2 2 _).mpr (Or.inr (Or.inr ⟨Nat.one_ne_zero, inside, by decide, rfl⟩))
  · exact (definition 3 2 _).mpr (Or.inr (Or.inl ⟨Nat.one_ne_zero, outside, rfl⟩))
  · cases h : (ofPlan P).apply.thetas 2 with
    | ok ls => exact ⟨ls, rfl, (listed 2 ls h).1⟩
    | error e =>
        rcases (thetas 2 e).mp h with ⟨h, -⟩ | ⟨-, unreached, -⟩
        · exact absurd h Nat.one_ne_zero
        · exact absurd inside unreached

end Unrolling

end BoundedTemporal
