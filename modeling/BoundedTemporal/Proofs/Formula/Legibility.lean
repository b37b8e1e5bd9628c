/-
Formulas can be read back from their texts.

Signs stand before an operand without parentheses, symbols between two operands, and atoms may
be named like either. Still the text of a formula tells the formula, if the names of its atoms
are identifiers.

* `Interval.text_inj`, `Node.eq_of_symbol_eq`: intervals and symbols are told by their texts;
* `Formula.Form`: the ways in which formulas are written, and what they open with;
* `Formula.Follows`: what may stand behind a formula. `Formula.chars_append_ne_symbol`: it is
  never mistaken for the beginning of a formula;
* `Formula.chars_append_inj`: a text tells the formula that it begins with, and the rest;
* `Arena.text_eq_iff_formula?_eq`: stored formulas have one text exactly when they are the same.
-/
import BoundedTemporal.Proofs.Arena.Reachable
import BoundedTemporal.Proofs.Text.Words

namespace BoundedTemporal

/-! ### Intervals -/

lemma Bound.text_inj {b c : Bound} (h : b.text = c.text) : b = c := by
  have digits : ∀ n : Nat, toString n ≠ "inf" := by
    intro n h
    have letter : 'i' ∈ (toString n).toList := by rw [h]; decide
    exact absurd (isDigit_of_mem_toString letter) (by decide)
  cases b with
  | finite u =>
      cases c with
      | finite v => exact congrArg finite (toString_toList_inj.mp (congrArg String.toList h))
      | infinite => exact absurd h (digits u)
  | infinite =>
      cases c with
      | finite v => exact absurd h.symm (digits v)
      | infinite => rfl

lemma Bound.isWord_text (b : Bound) : IsWord b.text.toList := by
  cases b with
  | finite u => exact isWord_toString u
  | infinite => decide

namespace Interval

lemma toList_text (I : Interval) :
    I.text.toList = '[' :: (toString I.lower).toList ++ ',' :: I.upper.text.toList ++ [']'] := by
  simp only [text, String.toList_append, List.append_assoc]
  rfl

/-- Different intervals are written differently: the lower bound ends at the comma. -/
lemma text_inj {I J : Interval} (h : I.text.toList = J.text.toList) : I = J := by
  have digits (n : Nat) : ∀ c ∈ (toString n).toList, c.isDigit = true :=
    fun _ hc => isDigit_of_mem_toString hc
  rw [toList_text, toList_text, List.append_cancel_right_eq, List.cons_append, List.cons_append,
    List.cons.injEq] at h
  obtain ⟨lower, upper⟩ := append_inj_of_stop (digits _) (digits _) (by rintro _ ⟨⟩; rfl)
    (by rintro _ ⟨⟩; rfl) h.2
  cases I
  cases J
  cases toString_toList_inj.mp lower
  cases Bound.text_inj (String.toList_inj.mp (List.cons.inj upper).2)
  rfl

lemma isWord_text (I : Interval) : IsWord I.text.toList := by
  rw [toList_text]
  have lower : IsWord ('[' :: (toString I.lower).toList) :=
    List.forall_mem_cons.mpr ⟨by decide, isWord_toString I.lower⟩
  have upper : IsWord (',' :: I.upper.text.toList) :=
    List.forall_mem_cons.mpr ⟨by decide, I.upper.isWord_text⟩
  exact (lower.append upper).append (by decide)

end Interval

/-! ### Symbols -/

namespace Node

variable {α : Type} {n m : Node α} {p q : α}

/-- The character that the symbol of a connective begins with. -/
def sign : Node α → Char
  | atom _ => ' '
  | not _ => '!'
  | and _ _ => '&'
  | or _ _ => '|'
  | next _ => 'X'
  | globally _ _ => 'G'
  | eventually _ _ => 'F'
  | .until _ _ _ => 'U'
  | since _ _ _ => 'S'

/-- The interval of a connective as it is written. -/
def timing (n : Node α) : List Char :=
  match n.interval? with
  | some I => I.text.toList
  | none => []

lemma toList_symbol (operator : n.isAtom = false) : n.symbol.toList = n.sign :: n.timing := by
  cases n with
  | atom name => cases operator
  | not _ | and _ _ | or _ _ | next _ => simp [symbol, sign, timing, interval?]
  | globally I _ | eventually I _ | «until» I _ _ | since I _ _ =>
      rw [symbol, String.toList_append]
      rfl

lemma interval?_eq_of_timing_eq (h : n.timing = m.timing) : n.interval? = m.interval? := by
  unfold timing at h
  cases hn : n.interval? with
  | none =>
      cases hm : m.interval? with
      | none => rfl
      | some J =>
          rw [hn, hm] at h
          simp [Interval.toList_text] at h
  | some I =>
      cases hm : m.interval? with
      | none =>
          rw [hn, hm] at h
          simp [Interval.toList_text] at h
      | some J =>
          rw [hn, hm] at h
          rw [Interval.text_inj h]

/-- **The symbol tells the connective**, once the operands are known. -/
lemma eq_of_symbol_eq (hn : n.isAtom = false) (hm : m.isAtom = false)
    (symbols : n.symbol.toList = m.symbol.toList) (operands : n.operands = m.operands) :
    n = m := by
  rw [toList_symbol hn, toList_symbol hm, List.cons.injEq] at symbols
  obtain ⟨signs, timings⟩ := symbols
  have intervals := interval?_eq_of_timing_eq timings
  cases n <;> cases m <;> simp_all [sign, interval?, Node.operands, isAtom]

lemma isWord_symbol (operator : n.isAtom = false) : IsWord n.symbol.toList := by
  rw [toList_symbol operator, timing]
  have sign : IsWord [n.sign] := by
    cases n with
    | atom name => cases operator
    | _ => simp [IsWord, Node.sign, isWordChar]
  cases n.interval? with
  | none => exact sign
  | some I => exact sign.append I.isWord_text

lemma isAtom_of_operands {ps : List α} (h : n.operands = p :: ps) : n.isAtom = false := by
  cases n with
  | atom name => cases h
  | _ => rfl

lemma sign_of_operand (h : n.operands = [p]) : n.sign ∈ ['!', 'X', 'G', 'F'] := by
  cases n <;> simp_all [operands, sign]

lemma sign_of_operands (h : n.operands = [p, q]) : n.sign ∈ ['&', '|', 'U', 'S'] := by
  cases n <;> simp_all [operands, sign]

/-- The symbols between two operands are no identifiers. -/
lemma exists_mem_symbol (h : n.operands = [p, q]) :
    ∃ c ∈ n.symbol.toList, isIdentifierChar c = false := by
  have bracket (I : Interval) : '[' ∈ I.text.toList := by simp [Interval.toList_text]
  rw [toList_symbol (isAtom_of_operands h)]
  cases n with
  | and p q => exact ⟨'&', by simp [sign], by decide⟩
  | or p q => exact ⟨'|', by simp [sign], by decide⟩
  | «until» I p q => exact ⟨'[', List.mem_cons_of_mem _ (bracket I), by decide⟩
  | since I p q => exact ⟨'[', List.mem_cons_of_mem _ (bracket I), by decide⟩
  | _ => cases h

end Node

/-! ### Formulas -/

namespace Formula

variable {f g : Formula} {cs r r' : List Char}

/-- The text of a formula as a list of characters. -/
def chars (f : Formula) : List Char :=
  f.text.toList

lemma chars_not (f : Formula) : (not f).chars = '!' :: f.chars := by
  simp [chars, text]

lemma chars_of_operand {n : Node Formula} (operand : n.operands = [f]) (sign : n.sign ≠ '!') :
    (ofNode n).chars = n.symbol.toList ++ ' ' :: f.chars := by
  cases n <;> simp_all [Node.operands, Node.sign, ofNode, chars, text, Node.symbol]

lemma chars_of_operands {n : Node Formula} (operands : n.operands = [f, g]) :
    (ofNode n).chars
      = '(' :: (f.chars ++ ' ' :: (n.symbol.toList ++ ' ' :: (g.chars ++ [')']))) := by
  cases n <;> simp_all [Node.operands, ofNode, chars, text, Node.symbol]

/-- How a formula is written: as a name, behind the sign of negation, behind another symbol and
a blank, or as two operands with a symbol between them. The sign or parenthesis that it opens
with is part of the form; the others begin with a character of an identifier. -/
inductive Form : Option Char → Formula → Prop
  | name (a : Atom) : Form none (atom a)
  | negation (f : Formula) : Form (some '!') (not f)
  | behind (n : Node Formula) (f : Formula) (operand : n.operands = [f]) (sign : n.sign ≠ '!') :
      Form none (ofNode n)
  | between (n : Node Formula) (f g : Formula) (operands : n.operands = [f, g]) :
      Form (some '(') (ofNode n)

lemma exists_form (f : Formula) : ∃ opening, Form opening f := by
  cases f with
  | atom a => exact ⟨_, .name a⟩
  | not f => exact ⟨_, .negation f⟩
  | and f g => exact ⟨_, .between (.and f g) f g rfl⟩
  | or f g => exact ⟨_, .between (.or f g) f g rfl⟩
  | next f => exact ⟨_, .behind (.next f) f rfl (by simp [Node.sign])⟩
  | globally I f => exact ⟨_, .behind (.globally I f) f rfl (by simp [Node.sign])⟩
  | eventually I f => exact ⟨_, .behind (.eventually I f) f rfl (by simp [Node.sign])⟩
  | «until» I f g => exact ⟨_, .between (.until I f g) f g rfl⟩
  | since I f g => exact ⟨_, .between (.since I f g) f g rfl⟩

/-- All atoms have identifiers as names. -/
def Legible (f : Formula) : Prop :=
  ∀ a ∈ f.atoms, IsIdentifier a

lemma Legible.name {a : Atom} (h : (atom a).Legible) : IsIdentifier a :=
  h a (List.mem_singleton_self a)

lemma Legible.operand {n : Node Formula} (h : (ofNode n).Legible) (hf : f ∈ n.operands) :
    f.Legible :=
  fun a ha => h a (mem_atoms_ofNode.mpr (Or.inr ⟨f, hf, ha⟩))

/-- The texts that may stand behind a formula: nothing, a closing parenthesis, or a symbol
between blanks. -/
inductive Follows : List Char → Prop
  | nothing : Follows []
  | close (r : List Char) : Follows (')' :: r)
  | symbol (n : Node Formula) (f g : Formula) (operands : n.operands = [f, g]) (r : List Char) :
      Follows (' ' :: (n.symbol.toList ++ ' ' :: r))

lemma Follows.endsWord (h : Follows r) : EndsWord r := by
  cases h with
  | nothing => exact endsWord_nil
  | close r => exact endsWord_close r
  | symbol n f g operands r => exact endsWord_blank _

lemma opens_symbol {n : Node Formula} (operand : n.operands = [f]) (sign : n.sign ≠ '!') :
    Opens none n.symbol.toList := by
  have letters : ∀ c ∈ ['!', 'X', 'G', 'F'], c ≠ '!' → isIdentifierChar c = true := by
    simp [isIdentifierChar]
  rw [Node.toList_symbol (Node.isAtom_of_operands operand)]
  exact opens_of_isIdentifierChar (letters _ (Node.sign_of_operand operand) sign) n.timing

/-- What a formula opens with is seen in its text. -/
lemma Form.opens {opening : Option Char} (form : Form opening f) (legible : f.Legible) :
    Opens opening f.chars := by
  cases form with
  | name a => exact legible.name.opens
  | negation f => exact chars_not f ▸ opens_sign rfl f.chars
  | behind n f operand sign =>
      rw [chars_of_operand operand sign]
      exact (opens_symbol operand sign).append _
  | between n f g operands =>
      rw [chars_of_operands operands]
      exact opens_sign rfl _

/-- **No formula begins with a symbol that stands between operands.** -/
lemma chars_append_ne_symbol {n : Node Formula} {p q : Formula} (operands : n.operands = [p, q])
    (legible : f.Legible) (hr : EndsWord r) :
    f.chars ++ r ≠ n.symbol.toList ++ ' ' :: r' := by
  intro h
  have operator := Node.isAtom_of_operands operands
  have symbol := Node.toList_symbol operator
  have sign := Node.sign_of_operands operands
  obtain ⟨_, form⟩ := f.exists_form
  cases form with
  | name a =>
      -- the symbol would be an identifier
      obtain ⟨same, -⟩ := word_append_inj legible.name.isWord (Node.isWord_symbol operator) hr
        (endsWord_blank _) h
      obtain ⟨c, hc, other⟩ := Node.exists_mem_symbol operands
      rw [← same] at hc
      rw [legible.name.2 c hc] at other
      cases other
  | negation f =>
      rw [chars_not, symbol] at h
      rw [← (List.cons.inj h).1] at sign
      revert sign
      decide
  | behind m f operand _ =>
      -- the symbol would have one operand and two
      have other := Node.isAtom_of_operands operand
      rw [chars_of_operand operand ‹_›, List.append_assoc] at h
      obtain ⟨same, -⟩ := word_append_inj (Node.isWord_symbol other) (Node.isWord_symbol operator)
        (endsWord_blank _) (endsWord_blank _) h
      rw [symbol, Node.toList_symbol other] at same
      have disjoint : ∀ c ∈ ['!', 'X', 'G', 'F'], c ∉ ['&', '|', 'U', 'S'] := by simp
      exact disjoint _ (Node.sign_of_operand operand) ((List.cons.inj same).1 ▸ sign)
  | between m f g operands' =>
      rw [chars_of_operands operands', symbol] at h
      rw [← (List.cons.inj h).1] at sign
      revert sign
      decide

/-- A name is never read as a symbol that stands before its operand. -/
lemma name_append_ne {n : Node Formula} {a : Atom} (name : IsIdentifier a) (hr : Follows r)
    (operand : n.operands = [f]) (legible : f.Legible) (hr' : EndsWord r') :
    a.toList ++ r ≠ n.symbol.toList ++ ' ' :: f.chars ++ r' := by
  intro h
  rw [List.append_assoc] at h
  obtain ⟨-, rest⟩ := word_append_inj name.isWord
    (Node.isWord_symbol (Node.isAtom_of_operands operand)) hr.endsWord (endsWord_blank _) h
  cases hr with
  | nothing => cases rest
  | close r => cases rest
  | symbol m p q operands r =>
      exact chars_append_ne_symbol operands legible hr' (List.cons.inj rest).2.symm

/-- Induction over formulas by their operands. -/
@[elab_as_elim]
lemma operandInd {P : Formula → Prop} (step : ∀ f, (∀ g ∈ f.node.operands, P g) → P f)
    (f : Formula) : P f := by
  induction f using layerInd with
  | layer n ih => exact step (ofNode n) (by rwa [node_ofNode])

/-- **The text of a formula tells the formula**, and what stands behind it. -/
theorem chars_append_inj (hf : f.Legible) (hg : g.Legible) (hr : Follows r) (hr' : Follows r')
    (h : f.chars ++ r = g.chars ++ r') : f = g ∧ r = r' := by
  induction f using operandInd generalizing g r r' with
  | step f ih =>
      obtain ⟨k, form⟩ := f.exists_form
      obtain ⟨k', form'⟩ := g.exists_form
      obtain rfl := (form.opens hf).unique (form'.opens hg) h
      cases form with
      | name a =>
          cases form' with
          | name b =>
              obtain ⟨names, rest⟩ := word_append_inj hf.name.isWord hg.name.isWord hr.endsWord
                hr'.endsWord h
              exact ⟨congrArg atom (String.toList_inj.mp names), rest⟩
          | behind m g operand sign =>
              rw [chars_of_operand operand sign] at h
              exact absurd h (name_append_ne hf.name hr operand (hg.operand (by simp [operand]))
                hr'.endsWord)
      | negation f =>
          cases form' with
          | negation g =>
              have legible : g.Legible := hg
              rw [chars_not, chars_not, List.cons_append, List.cons_append, List.cons.injEq] at h
              obtain ⟨rfl, rest⟩ := ih f (by simp [node, Node.operands]) hf legible hr hr' h.2
              exact ⟨rfl, rest⟩
      | behind n f operand sign =>
          have legible : f.Legible := hf.operand (by simp [operand])
          rw [chars_of_operand operand sign] at h
          cases form' with
          | name b => exact absurd h.symm (name_append_ne hg.name hr' operand legible hr.endsWord)
          | behind m g operand' sign' =>
              have operator := Node.isAtom_of_operands operand
              have operator' := Node.isAtom_of_operands operand'
              rw [chars_of_operand operand' sign', List.append_assoc, List.append_assoc] at h
              obtain ⟨symbols, tails⟩ := word_append_inj (Node.isWord_symbol operator)
                (Node.isWord_symbol operator') (endsWord_blank _) (endsWord_blank _) h
              obtain ⟨rfl, rest⟩ := ih f (by simp [operand]) legible
                (hg.operand (by simp [operand'])) hr hr' (List.cons.inj tails).2
              rw [Node.eq_of_symbol_eq operator operator' symbols (operand.trans operand'.symm)]
              exact ⟨rfl, rest⟩
      | between n f f' operands =>
          cases form' with
          | between m g g' operands' =>
              have operator := Node.isAtom_of_operands operands
              have operator' := Node.isAtom_of_operands operands'
              have legible : f.Legible := hf.operand (by simp [operands])
              have legible' : f'.Legible := hf.operand (by simp [operands])
              have legible₁ : g.Legible := hg.operand (by simp [operands'])
              have legible₁' : g'.Legible := hg.operand (by simp [operands'])
              rw [chars_of_operands operands, chars_of_operands operands'] at h
              simp only [List.cons_append, List.append_assoc, List.nil_append, List.cons.injEq,
                true_and] at h
              -- the left operands end at the symbols, and the right ones at the parentheses
              obtain ⟨rfl, tails⟩ := ih f (by simp [operands]) legible legible₁
                (.symbol n f f' operands _) (.symbol m g g' operands' _) h
              obtain ⟨symbols, rights⟩ := word_append_inj (Node.isWord_symbol operator)
                (Node.isWord_symbol operator') (endsWord_blank _) (endsWord_blank _)
                (List.cons.inj tails).2
              obtain ⟨rfl, rest⟩ := ih f' (by simp [operands]) legible' legible₁'
                (.close _) (.close _) (List.cons.inj rights).2
              rw [Node.eq_of_symbol_eq operator operator' symbols (operands.trans operands'.symm)]
              exact ⟨rfl, (List.cons.inj rest).2⟩

lemma text_inj (hf : f.Legible) (hg : g.Legible) (h : f.text = g.text) : f = g := by
  refine (chars_append_inj hf hg .nothing .nothing ?_).1
  rw [List.append_nil, List.append_nil, chars, chars, h]

end Formula

/-! ### Stored formulas -/

namespace Arena

variable {A : Arena} {i p : NodeId}

/-- What is stored has a formula, which is legible if the names of its atoms are. -/
lemma WellFormed.exists_legible (wf : A.WellFormed) (stored : i < A.size)
    (names : ∀ a ∈ A.atomsOf i, IsIdentifier a) : ∃ f, A.formula? i = some f ∧ f.Legible := by
  obtain ⟨f, h⟩ := wf.exists_formula? stored
  exact ⟨f, h, fun a ha => names a (wf.mem_atomsOf_of_mem_atoms h ha)⟩

/-- **The text of a stored formula tells the formula**, whatever nodes are shared: if their
atoms have identifiers as names, two stored formulas have one text exactly when they are the
same formula, and then they hold at the same ticks of all traces. -/
theorem text_eq_iff_formula?_eq (built : A.Built) (hi : i < A.size) (hp : p < A.size)
    (names : ∀ a ∈ A.atomsOf i, IsIdentifier a) (names' : ∀ a ∈ A.atomsOf p, IsIdentifier a) :
    (A.text i = A.text p ↔ ∃ f, A.formula? i = some f ∧ A.formula? p = some f)
      ∧ (A.text i = A.text p →
          ∀ tr t, ∃ b, A.holds? i tr t = some b ∧ A.holds? p tr t = some b) := by
  obtain ⟨f, hf, legible⟩ := built.wellFormed.exists_legible hi names
  obtain ⟨g, hg, legible'⟩ := built.wellFormed.exists_legible hp names'
  have same : A.text i = A.text p ↔ f = g := by
    rw [text_of_formula? hf, text_of_formula? hg]
    exact ⟨Formula.text_inj legible legible', congrArg Formula.text⟩
  rw [same]
  constructor
  · constructor
    · rintro rfl
      exact ⟨f, hf, hg⟩
    · rintro ⟨h, hi, hp⟩
      rw [← Option.some_inj, ← hf, ← hg, hi, hp]
  · rintro rfl tr t
    exact ⟨f.holds tr t, holds?_of_formula? hf tr t, holds?_of_formula? hg tr t⟩

/-- The formula `(X X U[0,1] U)` over atoms that are named like signs, stored twice over
different nodes. -/
theorem text_eq_iff_formula?_eq_until :
    let I : Interval := ⟨0, .finite 1, by decide⟩
    let A := build ∅ [.add (.atom "X"), .add (.atom "U"), .add (.next 0), .add (.next 0),
      .add (.until I 2 1), .add (.until I 3 1)]
    A.text 4 = "(X X U[0,1] U)" ∧ A.text 5 = "(X X U[0,1] U)"
      ∧ (∃ f, A.formula? 4 = some f ∧ A.formula? 5 = some f)
      ∧ ∀ tr t, ∃ b, A.holds? 4 tr t = some b ∧ A.holds? 5 tr t = some b := by
  intro I A
  have names (i : NodeId) : ∀ a ∈ A.atomsOf i, IsIdentifier a := forall_mem_atomsOf (by decide)
  have text : A.text 4 = "(X X U[0,1] U)" := by decide +kernel
  have text' : A.text 5 = "(X X U[0,1] U)" := by decide +kernel
  obtain ⟨same, alike⟩ := text_eq_iff_formula?_eq (A := A) ⟨_, rfl⟩ (i := 4) (p := 5) (by decide)
    (by decide) (names 4) (names 5)
  have texts := text.trans text'.symm
  exact ⟨text, text', same.mp texts, alike texts⟩

end Arena

end BoundedTemporal
