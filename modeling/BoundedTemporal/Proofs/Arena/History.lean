/-
What every history of requests keeps true of an arena.

* `Arena.add_cases`, `Arena.exists_of_implies`: all that a successful request can
  do to an arena;
* `Arena.after_induction`, `Arena.build_induction`: what is kept whenever a node is
  stored is kept by a request, and by a history of requests;
* `Arena.Built`, `Arena.Built.induction`: the arenas that histories lead to, and
  induction over the nodes that were stored;
* `Arena.Extends`, `Arena.extends_build`: histories only append, so that every node and
  every formula is still found at its id;
* `Arena.WellFormed`: operands are stored before the nodes that use them, and the
  formula at an id is the one that the nodes spell out;
* `Arena.Built.wellFormed`: every arena that was built is well-formed;
* `Arena.WellFormed.text_eq`: the written form of the stored formulas goes from node to
  node;
* `Arena.value`, `Arena.WellFormed.value_eq`: so does their meaning.
-/
import BoundedTemporal.Arena.Build
import BoundedTemporal.Proofs.Formula.Layer

namespace BoundedTemporal

namespace Arena

variable {A A' A'' : Arena} {n : Node NodeId} {id : NodeId}

/-! ### What a request does -/

lemma operand_eq_ok_iff {f : Formula} : A.operand id = .ok f ↔ A.formula? id = some f := by
  unfold operand
  cases h : A.formula? id <;> simp

/-- Looking up the operands succeeds when all of them are stored. -/
lemma mapM_operand_eq_ok_iff {layer : Node Formula} :
    n.mapM A.operand = .ok layer ↔ n.mapM A.formula? = some layer := by
  cases n <;> simp only [Node.mapM, bind_eq_ok_iff, Option.bind_eq_bind, Option.bind_eq_some_iff,
    operand_eq_ok_iff, pure, Except.pure, Except.ok.injEq, Option.some.injEq]

/-- **What storing a node does**: an atom that is there is found again; an atom that
is not, and any other node over stored operands, gets the next id. -/
lemma add_cases (h : A.add n = .ok (id, A')) :
    (∃ name, n = .atom name ∧ A.atomIds[name]? = some id ∧ A' = A.register name)
      ∨ (∃ name, n = .atom name ∧ A.atomIds[name]? = none ∧ id = A.size
          ∧ A' = { (A.register name).push n (.atom name) with
              atomIds := A.atomIds.insert name A.size })
      ∨ (∃ layer, n.isAtom = false ∧ n.mapM A.formula? = some layer ∧ id = A.size
          ∧ A' = A.push n (.ofNode layer)) := by
  unfold add at h
  split at h
  · rename_i name
    simp only [atom] at h
    split at h
    · rename_i found
      cases h
      exact Or.inl ⟨name, rfl, found, rfl⟩
    · rename_i missing
      cases h
      exact Or.inr (Or.inl ⟨name, rfl, missing, rfl, rfl⟩)
  · rename_i other
    obtain ⟨layer, hl, h⟩ := bind_eq_ok_iff.mp h
    cases h
    refine Or.inr (Or.inr ⟨layer, ?_, mapM_operand_eq_ok_iff.mp hl, rfl, rfl⟩)
    cases n with
    | atom name => exact absurd rfl (other name)
    | _ => rfl

/-- **What storing an implication does**: the negation is stored first, and only when
the right operand is there. -/
lemma exists_of_implies {a b : NodeId} (h : A.implies a b = .ok (id, A')) :
    ∃ f negation A₁, A.formula? b = some f ∧ A.add (.not a) = .ok (negation, A₁)
      ∧ A₁.add (.or negation b) = .ok (id, A') := by
  obtain ⟨f, hf, h⟩ := bind_eq_ok_iff.mp h
  obtain ⟨⟨negation, A₁⟩, hn, h⟩ := bind_eq_ok_iff.mp h
  exact ⟨f, negation, A₁, operand_eq_ok_iff.mp hf, hn, h⟩

/-! ### Histories -/

section

variable {P : Arena → Prop}
  (add : ∀ {A A' : Arena} {n : Node NodeId} {id : NodeId}, P A → A.add n = .ok (id, A') → P A')
include add

/-- What is kept whenever a node is stored is kept by every request. -/
lemma after_induction (h : P A) (c : Call) : P (A.after c) := by
  unfold after
  cases hc : A.call c with
  | error e => exact h
  | ok r =>
      cases c with
      | add n => exact add h hc
      | implies a b =>
          obtain ⟨f, negation, A₁, -, hn, ho⟩ := exists_of_implies hc
          exact add (add h hn) ho

/-- What is kept whenever a node is stored is kept by every history. -/
lemma build_induction (h : P A) (history : List Call) : P (A.build history) := by
  induction history generalizing A with
  | nil => exact h
  | cons c history ih => exact ih (after_induction add h c)

end

/-- An arena that a history of requests leads to. -/
def Built (A : Arena) : Prop :=
  ∃ history, build ∅ history = A

/-- **Induction over histories**: what holds of the empty arena and is kept whenever
a node is stored holds of every arena that was built. -/
lemma Built.induction {P : Arena → Prop} (empty : P ∅)
    (add : ∀ {A A' : Arena} {n : Node NodeId} {id : NodeId}, P A → A.add n = .ok (id, A') → P A')
    (built : A.Built) : P A := by
  obtain ⟨history, rfl⟩ := built
  exact build_induction add empty history

lemma after_of_call {c : Call} (h : A.call c = .ok (id, A')) : A.after c = A' := by
  rw [after, h]

/-- A history can be continued. -/
lemma build_append (A : Arena) (history more : List Call) :
    A.build (history ++ more) = (A.build history).build more :=
  List.foldl_append

lemma Built.build (built : A.Built) (history : List Call) : (A.build history).Built := by
  obtain ⟨past, rfl⟩ := built
  exact ⟨past ++ history, build_append ∅ past history⟩

lemma Built.of_add (built : A.Built) (h : A.add n = .ok (id, A')) : A'.Built := by
  have last : A.build [.add n] = A' := after_of_call h
  exact last ▸ built.build [.add n]

/-! ### Nothing is lost -/

lemma lt_size_of_node? (h : A.node? id = some n) : id < A.size :=
  node?_isSome_iff.mp (by rw [h]; rfl)

/-- What is stored has a node. -/
lemma exists_node? (stored : id < A.size) : ∃ n, A.node? id = some n :=
  Option.isSome_iff_exists.mp (node?_isSome_iff.mpr stored)

lemma lt_size_of_formula? {f : Formula} (h : A.formula? id = some f) : id < A.size := by
  rw [formula?, Option.map_eq_some_iff] at h
  obtain ⟨e, he, -⟩ := h
  exact (Array.getElem?_eq_some_iff.mp he).1

lemma formula?_eq_none_iff : A.formula? id = none ↔ A.size ≤ id := by
  simp [formula?, size]

/-- The entries of `A` come first in `A'`: what is new stands behind them. -/
def Extends (A' A : Arena) : Prop :=
  A.entries.toList <+: A'.entries.toList

lemma Extends.refl (A : Arena) : A.Extends A :=
  List.prefix_rfl

lemma Extends.trans (h' : A''.Extends A') (h : A'.Extends A) : A''.Extends A :=
  List.IsPrefix.trans h h'

namespace Extends

section

variable (larger : A'.Extends A) (stored : id < A.size)
include larger stored

/-- **What is stored stays as it is.** -/
lemma entry_eq : A'.entries[id]? = A.entries[id]? := by
  obtain ⟨more, h⟩ := larger
  rw [← Array.getElem?_toList, ← Array.getElem?_toList, ← h]
  exact List.getElem?_append_left stored

lemma node?_eq : A'.node? id = A.node? id := by
  rw [Arena.node?, Arena.node?, larger.entry_eq stored]

lemma formula?_eq : A'.formula? id = A.formula? id := by
  rw [Arena.formula?, Arena.formula?, larger.entry_eq stored]

end

lemma node?_eq_some (larger : A'.Extends A) (h : A.node? id = some n) : A'.node? id = some n :=
  (larger.node?_eq (lt_size_of_node? h)).trans h

lemma formula?_eq_some (larger : A'.Extends A) {f : Formula} (h : A.formula? id = some f) :
    A'.formula? id = some f :=
  (larger.formula?_eq (lt_size_of_formula? h)).trans h

end Extends

lemma extends_push (A : Arena) (n : Node NodeId) (f : Formula) : (A.push n f).Extends A := by
  rw [Extends, push, Array.toList_push]
  exact List.prefix_append A.entries.toList [⟨n, f⟩]

lemma node?_push_self (A : Arena) (n : Node NodeId) (f : Formula) :
    (A.push n f).node? A.size = some n := by
  rw [node?_push, if_pos rfl]

lemma formula?_push_self (A : Arena) (n : Node NodeId) (f : Formula) :
    (A.push n f).formula? A.size = some f := by
  rw [formula?_push, if_pos rfl]

lemma extends_of_add (h : A.add n = .ok (id, A')) : A'.Extends A := by
  rcases add_cases h with ⟨name, -, -, rfl⟩ | ⟨name, -, -, -, rfl⟩ | ⟨layer, -, -, -, rfl⟩
  · -- the registry and the table of atoms take no part in what is stored
    exact Extends.refl A
  · exact A.extends_push n (.atom name)
  · exact A.extends_push n (.ofNode layer)

/-- **Histories only extend** an arena. -/
lemma extends_build (A : Arena) (history : List Call) : (A.build history).Extends A :=
  build_induction (fun h added => (extends_of_add added).trans h) (Extends.refl A) history

/-! ### Well-formed arenas -/

/-- Operands come before the nodes that use them, and the formula at an id is
spelled out by its node over the formulas of the operands. -/
structure WellFormed (A : Arena) : Prop where
  operand_lt : ∀ {id n}, A.node? id = some n → ∀ p ∈ n.operands, p < id
  spelled : ∀ {id n}, A.node? id = some n →
    ∃ layer, n.mapM A.formula? = some layer ∧ A.formula? id = some (.ofNode layer)

lemma wellFormed_empty : (∅ : Arena).WellFormed where
  operand_lt h := by cases h
  spelled h := by cases h

/-- What is stored has a formula. -/
lemma WellFormed.exists_formula? (wf : A.WellFormed) (stored : id < A.size) :
    ∃ f, A.formula? id = some f := by
  obtain ⟨n, hn⟩ := exists_node? stored
  obtain ⟨layer, -, hf⟩ := wf.spelled hn
  exact ⟨_, hf⟩

/-- A node over stored operands can be appended. -/
lemma WellFormed.push (wf : A.WellFormed) {layer : Node Formula}
    (h : n.mapM A.formula? = some layer) : (A.push n (.ofNode layer)).WellFormed := by
  have kept : ∀ p f, A.formula? p = some f → (A.push n (.ofNode layer)).formula? p = some f :=
    fun p f hp => (A.extends_push n (.ofNode layer)).formula?_eq_some hp
  constructor
  · intro id m hm p hp
    rw [node?_push] at hm
    split at hm
    · rename_i new
      cases hm
      obtain ⟨f, hf⟩ := Node.exists_of_mapM_eq_some h hp
      exact new ▸ lt_size_of_formula? hf
    · exact wf.operand_lt hm p hp
  · intro id m hm
    rw [node?_push] at hm
    split at hm
    · rename_i new
      cases hm
      exact ⟨layer, Node.mapM_mono kept h, by rw [formula?_push, if_pos new]⟩
    · obtain ⟨l, hl, hid⟩ := wf.spelled hm
      exact ⟨l, Node.mapM_mono kept hl, kept id _ hid⟩

/-- **Every arena that was built is well-formed.** -/
theorem Built.wellFormed (built : A.Built) : A.WellFormed := by
  refine built.induction wellFormed_empty ?_
  intro A A' n id wf h
  rcases add_cases h with ⟨name, -, -, rfl⟩ | ⟨name, rfl, -, -, rfl⟩ | ⟨layer, -, hl, -, rfl⟩
  · -- the registry and the table of atoms take no part in what is stored
    exact ⟨wf.operand_lt, wf.spelled⟩
  · have new : (A.push (.atom name) (.ofNode (.atom name))).WellFormed := wf.push rfl
    exact ⟨new.operand_lt, new.spelled⟩
  · exact wf.push hl

/-! ### What stored formulas say -/

/-- **The text of a node**: a stored formula is written as its node is over the texts of
the operands. -/
lemma WellFormed.text_eq (wf : A.WellFormed) (h : A.node? id = some n) :
    A.text id = (n.map A.text).text := by
  obtain ⟨layer, hl, hid⟩ := wf.spelled h
  have operands : n.map A.text = layer.map Formula.text :=
    Node.map_eq_of_mapM hl fun p f hp => text_of_formula? hp
  rw [text_of_formula? hid, Formula.text_ofNode, operands]

/-- Whether the formula at an id holds at a tick of a trace; a missing formula does
not hold. -/
def value (A : Arena) (tr : Trace) (id : NodeId) (t : Nat) : Bool :=
  (A.holds? id tr t).getD false

lemma value_of_formula? {f : Formula} (h : A.formula? id = some f) (tr : Trace) :
    A.value tr id = f.holds tr := by
  funext t
  rw [value, holds?_of_formula? h, Option.getD_some]

lemma holds?_eq_some_value {f : Formula} (h : A.formula? id = some f) (tr : Trace) (t : Nat) :
    A.holds? id tr t = some (A.value tr id t) := by
  rw [value_of_formula? h, holds?_of_formula? h]

/-- What is stored has a truth value at every tick of every trace. -/
lemma WellFormed.holds?_eq_value (wf : A.WellFormed) (stored : id < A.size) (tr : Trace)
    (t : Nat) : A.holds? id tr t = some (A.value tr id t) := by
  obtain ⟨f, hf⟩ := wf.exists_formula? stored
  exact holds?_eq_some_value hf tr t

/-- **The meaning of a node**: a stored formula holds as its node does over the
meanings of the operands. -/
lemma WellFormed.value_eq (wf : A.WellFormed) (h : A.node? id = some n) (tr : Trace) (t : Nat) :
    A.value tr id t = (n.map (A.value tr)).holds tr t := by
  obtain ⟨layer, hl, hid⟩ := wf.spelled h
  have operands : n.map (A.value tr) = layer.map (Formula.holds tr) :=
    Node.map_eq_of_mapM hl fun p f hp => value_of_formula? hp tr
  rw [value_of_formula? hid, Formula.holds_ofNode, operands]

end Arena

end BoundedTemporal
