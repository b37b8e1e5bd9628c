/-
How literals are written.

A literal is written as its proposition with the tick in parentheses, a symbol as its
scope with the position of its node, and nothing stands in between.

* `Literal.text_eq_iff`: a text tells the tick, and the text of the proposition;
* `Proposition.Alike`, `Proposition.text_eq_iff`: the ways in which two different
  propositions are written alike;
* `Plan.isSymbolName_iff`: the names that a scope keeps for its symbols;
* `Plan.text_literal_inj`: in an accepted plan, the text of a literal tells the node and
  the tick that it stands for.
-/
import BoundedTemporal.Proofs.Arena.Records
import BoundedTemporal.Proofs.Encoding.ClosedForm
import BoundedTemporal.Proofs.Text.Words

namespace BoundedTemporal

lemma eq_nil_of_eq_append_ofList {s : String} {ds : List Char} (h : s = s ++ String.ofList ds) :
    ds = [] := by
  have lists := congrArg String.toList h
  rwa [String.toList_append, String.toList_ofList, List.self_eq_append_right] at lists

/-! ### Literals -/

namespace Literal

lemma toList_text (l : Literal) :
    l.text.toList = l.proposition.text.toList ++ '(' :: (toString l.tick).toList ++ [')'] := by
  simp only [text, String.toList_append, List.append_assoc, List.append_cancel_left_eq]
  rfl

/-- **The text of a literal** tells its tick, and how its proposition is written: whatever
stands in the name of an atom, the tick follows the last opening parenthesis. -/
lemma text_eq_iff {l l' : Literal} :
    l.text = l'.text ↔ l.proposition.text = l'.proposition.text ∧ l.tick = l'.tick := by
  have no_paren : ∀ n : Nat, '(' ∉ (toString n).toList := fun n h =>
    absurd (isDigit_of_mem_toString h) (by decide)
  rw [← String.toList_inj, toList_text, toList_text, List.append_cancel_right_eq,
    append_cons_inj_of_notMem_right (no_paren _) (no_paren _), String.toList_inj,
    toString_toList_inj]

lemma eq_iff {l l' : Literal} : l = l' ↔ l.proposition = l'.proposition ∧ l.tick = l'.tick := by
  cases l
  cases l'
  rw [mk.injEq]

end Literal

/-! ### Propositions -/

lemma Symbol.toList_text (s : Symbol) :
    s.text.toList = s.scope.toList ++ (toString s.node).toList := by
  rw [text, String.toList_append]

namespace Proposition

/-- **The ways in which different propositions are written alike**: an atom has the name of
a symbol, or the scope of one symbol goes on with the digits that the position of the other
begins with. -/
inductive Alike : Proposition → Proposition → Prop
  | name (s : Symbol) : Alike (theta s) (atom s.text)
  | digits (s s' : Symbol) (ds : List Char) (nonempty : ds ≠ [])
      (scope : s'.scope = s.scope ++ String.ofList ds)
      (node : toString s.node = String.ofList ds ++ toString s'.node) :
      Alike (theta s) (theta s')

variable {p q : Proposition}

/-- Propositions that are written alike have one text and are different. -/
lemma Alike.text_eq (alike : Alike p q) : p.text = q.text ∧ p ≠ q := by
  cases alike with
  | name s => exact ⟨rfl, by simp⟩
  | digits s s' ds nonempty scope node =>
      refine ⟨?_, ?_⟩
      · simp only [text, Symbol.text, scope, node, String.append_assoc]
      · intro same
        obtain rfl := Proposition.theta.inj same
        exact nonempty (eq_nil_of_eq_append_ofList scope)

/-- Symbols with one text are the same, unless their scopes take different shares of it. -/
lemma alike_of_symbol_text_eq {s s' : Symbol} (h : s.text = s'.text) :
    s = s' ∨ Alike (theta s) (theta s') ∨ Alike (theta s') (theta s) := by
  -- one scope is the other one followed by digits of the position
  have share : ∀ {s s' : Symbol} (ds : List Char), s'.scope.toList = s.scope.toList ++ ds →
      (toString s.node).toList = ds ++ (toString s'.node).toList →
      s = s' ∨ Alike (theta s) (theta s') := by
    intro s s' ds scope node
    rcases eq_or_ne ds [] with rfl | nonempty
    · rw [List.append_nil, String.toList_inj] at scope
      rw [List.nil_append, toString_toList_inj] at node
      cases s
      cases s'
      exact Or.inl (congrArg₂ Symbol.mk scope.symm node)
    · refine Or.inr (.digits s s' ds nonempty ?_ ?_)
      · rw [← String.toList_inj, scope, String.toList_append, String.toList_ofList]
      · rw [← String.toList_inj, node, String.toList_append, String.toList_ofList]
  rw [← String.toList_inj, Symbol.toList_text, Symbol.toList_text] at h
  rcases List.append_eq_append_iff.mp h with ⟨ds, scope, node⟩ | ⟨ds, scope, node⟩
  · exact (share ds scope node).imp_right Or.inl
  · exact (share ds scope node).imp Eq.symm Or.inr

/-- **When two propositions have one text**: they are the same, or are written alike. -/
lemma text_eq_iff : p.text = q.text ↔ p = q ∨ Alike p q ∨ Alike q p := by
  constructor
  · intro h
    cases p with
    | atom a =>
        cases q with
        | atom b => exact Or.inl (congrArg atom h)
        | theta s =>
            have name : a = s.text := h
            exact Or.inr (Or.inr (name ▸ .name s))
    | theta s =>
        cases q with
        | atom b =>
            have name : s.text = b := h
            exact Or.inr (Or.inl (name ▸ .name s))
        | theta s' => exact (alike_of_symbol_text_eq h).imp_left (congrArg theta)
  · rintro (rfl | alike | alike)
    · rfl
    · exact alike.text_eq.1
    · exact alike.text_eq.1.symm

end Proposition

/-! ### Names kept for symbols -/

namespace Plan

variable {P : Plan} {id p : NodeId} {t s : Nat} {scope : String} {name : Atom}

/-- **A scope keeps the names** that consist of it and at least one digit. -/
lemma isSymbolName_iff : isSymbolName scope name = true ↔
    ∃ ds : List Char, ds ≠ [] ∧ (∀ d ∈ ds, d.isDigit = true)
      ∧ name = scope ++ String.ofList ds := by
  have split : ∀ ds, name = scope ++ String.ofList ds
      ↔ scope.toList.isPrefixOf? name.toList = some ds := by
    intro ds
    rw [List.isPrefixOf?_eq_some_iff_append_eq, ← String.toList_inj, String.toList_append,
      String.toList_ofList, eq_comm]
  simp only [split, isSymbolName]
  cases scope.toList.isPrefixOf? name.toList with
  | none => simp
  | some ds => simp

/-- The names of symbols are kept for them. -/
lemma isSymbolName_text (s : Symbol) : isSymbolName s.scope s.text = true := by
  refine isSymbolName_iff.mpr ⟨_, toString_toList_ne_nil s.node, fun d hd => ?_, ?_⟩
  · exact isDigit_of_mem_toString hd
  · rw [String.ofList_toList]
    rfl

/-- A scope that goes on with digits of a position looks like the name of a symbol. -/
lemma isSymbolName_of_digits {s s' : Symbol} {ds : List Char} (nonempty : ds ≠ [])
    (scope : s'.scope = s.scope ++ String.ofList ds)
    (node : toString s.node = String.ofList ds ++ toString s'.node) :
    isSymbolName s.scope s'.scope = true := by
  refine isSymbolName_iff.mpr ⟨ds, nonempty, fun d hd => ?_, scope⟩
  refine isDigit_of_mem_toString (n := s.node) ?_
  rw [node, String.toList_append, String.toList_ofList]
  exact List.mem_append_left _ hd

/-- The proposition of a literal is the atom at its node, or the symbol of the node. -/
lemma proposition_literal_cases (P : Plan) (id : NodeId) (t : Nat) :
    (∃ a, P.arena.node? id = some (.atom a) ∧ (P.literal id t).proposition = .atom a)
      ∨ (P.literal id t).proposition = .theta ⟨P.scope, id⟩ := by
  unfold literal
  cases h : P.arena.atom? id with
  | none => exact Or.inr rfl
  | some a => exact Or.inl ⟨a, Arena.atom?_eq_some_iff.mp h, rfl⟩

/-- No atom of an accepted plan has a name that the scope keeps. -/
lemma Accepted.isSymbolName_eq_false (accepted : P.Accepted) (hid : id ∈ P.nodes)
    (hn : P.arena.node? id = some (.atom name)) : isSymbolName P.scope name = false := by
  rw [accepted.nodes_eq] at hid
  have atom : name ∈ P.arena.atomsOf P.root := Arena.mem_atomsOf.mpr ⟨id, hid, hn⟩
  obtain ⟨A, root, H, scope, -, h⟩ := accepted
  obtain ⟨-, -, clear, rfl⟩ := make_eq_ok_iff.mp h
  exact clear name atom

/-- The literals of an accepted plan are never written alike. -/
lemma Accepted.not_alike (accepted : P.Accepted) (hp : p ∈ P.nodes) :
    ¬ Proposition.Alike (P.literal id t).proposition (P.literal p s).proposition := by
  intro alike
  rcases P.proposition_literal_cases id t with ⟨a, -, hid⟩ | hid <;> rw [hid] at alike
  · cases alike
  · rcases P.proposition_literal_cases p s with ⟨b, hn, hps⟩ | hps <;> rw [hps] at alike
    · have clear := accepted.isSymbolName_eq_false hp hn
      cases alike
      rw [isSymbolName_text ⟨P.scope, id⟩] at clear
      cases clear
    · cases alike with
      | digits s s' ds nonempty scope node =>
          -- both symbols have the scope of the plan
          exact nonempty (eq_nil_of_eq_append_ofList scope)

/-- Different nodes have different propositions. -/
lemma Accepted.eq_of_proposition_eq (accepted : P.Accepted)
    (h : (P.literal id t).proposition = (P.literal p s).proposition) : id = p := by
  rcases P.proposition_literal_cases id t with ⟨a, hn, hid⟩ | hid <;>
    rcases P.proposition_literal_cases p s with ⟨b, hn', hps⟩ | hps <;>
    rw [hid, hps] at h
  · rw [← Proposition.atom.inj h] at hn'
    exact accepted.built.atom_unique hn hn'
  · cases h
  · cases h
  · exact (Symbol.mk.inj (Proposition.theta.inj h)).2

/-- **The text of a literal tells its node and its tick.** -/
lemma Accepted.text_literal_inj (accepted : P.Accepted) (hid : id ∈ P.nodes) (hp : p ∈ P.nodes)
    (h : (P.literal id t).text = (P.literal p s).text) : id = p ∧ t = s := by
  obtain ⟨texts, ticks⟩ := Literal.text_eq_iff.mp h
  rw [tick_literal, tick_literal] at ticks
  refine ⟨?_, ticks⟩
  rcases Proposition.text_eq_iff.mp texts with same | alike | alike
  · exact accepted.eq_of_proposition_eq same
  · exact absurd alike (accepted.not_alike hp)
  · exact absurd alike (accepted.not_alike hid)

end Plan

end BoundedTemporal
