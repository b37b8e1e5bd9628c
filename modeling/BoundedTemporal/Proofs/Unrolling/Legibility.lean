/-
Definitions and constraints can be read back from their texts.

* `Node.builtFrom_condition?`: conditions are built by negation, conjunction and disjunction
  alone;
* `Unrolling.Answers`: the literals of an unrolling. `Plan.Accepted.legible`: they can be told
  apart if the scope and the atoms of the formula have identifiers as names;
* `Constraint.text_inj`: a constraint is read up to its sign of equivalence, and then on;
* `Unrolling.texts_injective`: expressions over the literals of an unrolling with one text are
  equal, and so are its constraints.
-/
import BoundedTemporal.Proofs.Encoding.Spelling
import BoundedTemporal.Proofs.Expr.Legibility
import BoundedTemporal.Proofs.Unrolling.Totality

namespace BoundedTemporal

open BoundedTemporal.Expr

/-! ### Conditions -/

namespace Node

variable {α : Type} {n : Node α} {last t : Nat}

/-- The operand at the ticks of a window. -/
lemma builtFrom_operandOver (p : α) (w : Window) :
    ∀ e ∈ operandOver p w, BuiltFrom (fun _ => True) e :=
  List.forall_mem_map.mpr fun _ _ => .lit trivial

/-- An operand at the ticks of a window, and another one at a tick. -/
lemma builtFrom_case (p q : α) (w : Window) (s : Nat) :
    BuiltFrom (fun _ => True) (.all (operandOver p w ++ [.lit (q, s)])) :=
  .all (List.forall_mem_append.mpr ⟨builtFrom_operandOver p w,
    List.forall_mem_singleton.mpr (.lit trivial)⟩)

/-- The condition of a node is built from its operands. -/
lemma builtFrom_condition? {condition : Expr (α × Nat)}
    (h : n.condition? last t = some condition) : BuiltFrom (fun _ => True) condition := by
  have pair (p q : α) : ∀ e ∈ [Expr.lit (p, t), Expr.lit (q, t)], BuiltFrom (fun _ => True) e :=
    List.forall_mem_cons.mpr ⟨.lit trivial, List.forall_mem_singleton.mpr (.lit trivial)⟩
  cases n with
  | atom a => cases h
  | not p =>
      cases h
      exact .negate (.lit trivial)
  | and p q =>
      cases h
      exact .all (pair p q)
  | or p q =>
      cases h
      exact .any (pair p q)
  | next p =>
      cases h
      split
      · exact .lit trivial
      · exact .bot
  | globally I p =>
      cases h
      exact .all (builtFrom_operandOver p _)
  | eventually I p =>
      cases h
      exact .any (builtFrom_operandOver p _)
  | «until» I p q =>
      cases h
      exact .any (List.forall_mem_map.mpr fun s _ => builtFrom_case p q _ s)
  | since I p q =>
      cases h
      exact .any (List.forall_mem_map.mpr fun s _ => builtFrom_case p q _ s)

end Node

/-! ### Literals -/

/-- The literals that an unrolling answers with. -/
def Unrolling.Answers (U : Unrolling) (l : Literal) : Prop :=
  ∃ id t, U.theta id t = .ok l

variable {P : Plan} {E : Encoding}

lemma Encoding.FilledBy.answers_iff (filled : FilledBy P E P.slots) {l : Literal} :
    Unrolling.Answers ⟨P, some E⟩ l
      ↔ ∃ id ∈ P.nodes, ∃ t ≤ P.horizon.last, P.literal id t = l := by
  simp only [Unrolling.Answers, Unrolling.theta_eq_ok_iff filled, exists_and_left]

namespace Plan.Accepted

variable (accepted : P.Accepted) (filled : Encoding.FilledBy P E P.slots)
include accepted filled

/-- A definition is built from literals of the unrolling. -/
lemma builtFrom_definition? {id : NodeId} {t : Nat}
    (hid : id ∈ P.nodes) (ht : t ≤ P.horizon.last) {d : Expr Literal}
    (hd : P.definition? id t = some d) : BuiltFrom (Unrolling.Answers ⟨P, some E⟩) d := by
  obtain ⟨n, hn⟩ := accepted.exists_node? hid
  have built : BuiltFrom (fun _ => True) d := by
    rw [definition?_of_node? hn, Option.map_eq_some_iff] at hd
    obtain ⟨condition, hc, rfl⟩ := hd
    exact (Node.builtFrom_condition? hc).map fun _ _ => trivial
  refine built.of_lits fun l hl => ?_
  obtain ⟨p, hp, s, hs, same⟩ := exists_operand_of_mem_lits hn ht hd hl
  exact filled.answers_iff.mpr ⟨p, (accepted.operand_mem hid hn hp).1, s, hs, same⟩

/-- Constraints are between literals of the unrolling and what is built from them. -/
lemma answers_of_mem_constraints {c : Constraint} (hc : c ∈ E.constraints.toList) :
    Unrolling.Answers ⟨P, some E⟩ c.theta
      ∧ BuiltFrom (Unrolling.Answers ⟨P, some E⟩) c.definition := by
  obtain ⟨id, hid, t, ht, h⟩ := filled.mem_constraints_iff.mp hc
  rw [constraint?_slotCell, Option.map_eq_some_iff] at h
  obtain ⟨d, hd, rfl⟩ := h
  exact ⟨filled.answers_iff.mpr ⟨id, hid, t, ht, rfl⟩,
    accepted.builtFrom_definition? filled hid ht hd⟩

omit filled in
/-- The proposition of a node has an identifier as its name, if the scope and the atoms have. -/
lemma isIdentifier_proposition (scope : IsIdentifier P.scope)
    (atoms : ∀ a ∈ P.arena.atomsOf P.root, IsIdentifier a) {id : NodeId} (hid : id ∈ P.nodes)
    (t : Nat) : IsIdentifier (P.literal id t).proposition.text := by
  rcases P.proposition_literal_cases id t with ⟨a, hn, atom⟩ | symbol
  · rw [atom]
    rw [accepted.nodes_eq] at hid
    exact atoms a (Arena.mem_atomsOf.mpr ⟨id, hid, hn⟩)
  · rw [symbol]
    exact scope.append_toString id

/-- **The literals of an unrolling can be told apart** in a text. -/
lemma legible (scope : IsIdentifier P.scope)
    (atoms : ∀ a ∈ P.arena.atomsOf P.root, IsIdentifier a) :
    Legible (Unrolling.Answers ⟨P, some E⟩) Literal.text where
  written l hl := by
    obtain ⟨id, hid, t, -, rfl⟩ := filled.answers_iff.mp hl
    have name := accepted.isIdentifier_proposition scope atoms hid t
    refine ⟨_, Literal.toList_text _, by simp, name.isWord.append ?_, name.opens.append _⟩
    exact List.forall_mem_cons.mpr ⟨by decide, isWord_toString _⟩
  inj l l' hl hl' texts := by
    obtain ⟨id, hid, t, -, rfl⟩ := filled.answers_iff.mp hl
    obtain ⟨id', hid', t', -, rfl⟩ := filled.answers_iff.mp hl'
    obtain ⟨rfl, rfl⟩ := accepted.text_literal_inj hid hid' texts
    rfl

end Plan.Accepted

/-! ### Constraints -/

/-- A constraint is read up to its sign of equivalence, and from there on. -/
lemma Constraint.text_inj {S : Literal → Prop} (legible : Legible S Literal.text)
    {c c' : Constraint} (theta : S c.theta) (definition : BuiltFrom S c.definition)
    (theta' : S c'.theta) (definition' : BuiltFrom S c'.definition) (h : c.text = c'.text) :
    c = c' := by
  have chars (c : Constraint) : c.text.toList = operandChars Literal.text (.lit c.theta)
      ++ ' ' :: ("<-> ".toList ++ (c.definition.text Literal.text).toList) := by
    simp only [text, String.toList_append, List.append_assoc]
    rfl
  have lists := congrArg String.toList h
  rw [chars, chars] at lists
  obtain ⟨literals, rest⟩ := operandChars_append_inj legible (.leaf (.lit _ theta))
    (.leaf (.lit _ theta')) (endsWord_blank _) (endsWord_blank _) lists
  have texts := List.append_cancel_left (List.cons.inj rest).2
  have definitions := definition.text_inj legible definition' (String.toList_inj.mp texts)
  cases c
  cases c'
  exact congrArg₂ Constraint.mk (Expr.lit.inj literals) definitions

namespace Unrolling

/-- **The texts of an unrolling are unambiguous**, if the scope and the atoms of the formula
have identifiers as names. Expressions built over its literals by negation, conjunction and
disjunction are equal once they have one text; its definitions are such expressions, and its
constraints are equal once they have one text. -/
theorem texts_injective {A : Arena} {root : NodeId} {H : Horizon} {scope : String} {P : Plan}
    (built : A.Built) (made : Plan.make A root H scope = .ok P) (name : IsIdentifier scope)
    (names : ∀ a ∈ A.atomsOf root, IsIdentifier a) (n : Nat) :
    let U := apply^[n + 1] (ofPlan P)
    (∀ d e, BuiltFrom U.Answers d → BuiltFrom U.Answers e →
        d.text Literal.text = e.text Literal.text → d = e)
      ∧ ∃ cs, U.constraints = .ok cs
        ∧ (∀ c ∈ cs, U.Answers c.theta ∧ BuiltFrom U.Answers c.definition)
        ∧ ∀ c ∈ cs, ∀ c' ∈ cs, c.text = c'.text → c = c' := by
  intro U
  have accepted : P.Accepted := ⟨A, root, H, scope, built, made⟩
  obtain ⟨-, -, -, rfl⟩ := Plan.make_eq_ok_iff.mp made
  obtain ⟨E, filled, applied⟩ := accepted.apply_iterate
  have legible := accepted.legible filled name names
  have hU : U = ⟨_, some E⟩ := applied n
  rw [hU]
  refine ⟨fun d e hd he => hd.text_inj legible he, E.constraints.toList, rfl,
    fun c hc => accepted.answers_of_mem_constraints filled hc, fun c hc c' hc' texts => ?_⟩
  obtain ⟨theta, definition⟩ := accepted.answers_of_mem_constraints filled hc
  obtain ⟨theta', definition'⟩ := accepted.answers_of_mem_constraints filled hc'
  exact Constraint.text_inj legible theta definition theta' definition' texts

/-- `(true U[0,1] b)` over an atom that is named like a constant: the literal and the constant
are written differently, and so are all constraints. -/
theorem texts_injective_until :
    let I : Interval := ⟨0, .finite 1, by decide⟩
    let A := Arena.build ∅ [.add (.atom "true"), .add (.atom "b"), .add (.until I 0 1)]
    ∃ P, Plan.make A 2 ⟨1⟩ "theta" = .ok P ∧ IsIdentifier "theta"
      ∧ (∀ a ∈ A.atomsOf 2, IsIdentifier a)
      ∧ (∃ l, (ofPlan P).apply.theta 0 0 = .ok l
        ∧ (Expr.lit l).text Literal.text ≠ Expr.top.text Literal.text)
      ∧ ∃ cs, (ofPlan P).apply.constraints = .ok cs
        ∧ ∀ c ∈ cs, ∀ c' ∈ cs, c.text = c'.text → c = c' := by
  intro I A
  let P : Plan := ⟨A, 2, ⟨1⟩, "theta", A.descendants 2⟩
  have made : Plan.make A 2 ⟨1⟩ "theta" = .ok P :=
    Plan.make_eq_ok (by decide) (by decide) (by decide)
  have accepted : P.Accepted := ⟨A, 2, ⟨1⟩, "theta", ⟨_, rfl⟩, made⟩
  have operand : 0 ∈ P.nodes := accepted.mem_nodes_iff.mpr (.single ⟨_, rfl, by decide⟩)
  have names : ∀ a ∈ A.atomsOf 2, IsIdentifier a := Arena.forall_mem_atomsOf (by decide)
  obtain ⟨different, cs, constraints, -, unique⟩ :=
    texts_injective ⟨_, rfl⟩ made (by decide) names 0
  have literal := accepted.theta_apply 0 operand (Nat.zero_le _)
  refine ⟨P, made, by decide, names, ⟨_, literal, fun same => ?_⟩, cs, constraints, unique⟩
  cases different _ _ (.lit ⟨0, 0, literal⟩) .top same

end Unrolling

end BoundedTemporal
