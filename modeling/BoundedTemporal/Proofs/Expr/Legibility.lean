/-
Expressions can be read back from their texts.

Parentheses stand around conjunctions and disjunctions only where they are operands. Still the
text of an expression tells the expression, if it was built by `negate`, `all` and `any` over
literals that can be told apart.

* `BuiltFrom`: expressions built from constants and the literals of a set, and `Proper`: what
  they look like, since a conjunction or disjunction is left with at least two operands;
* `Connective`: conjunction and disjunction as one thing, `Connective.toList_text_join`: how
  the joined operands are written;
* `Legible`: literals that are read off the front of a text;
* `operandChars_append_inj`: a text tells the operand that it begins with, and the rest;
* `BuiltFrom.text_inj`: expressions with one text are equal.
-/
import BoundedTemporal.Proofs.Expr.Literals
import BoundedTemporal.Proofs.Text.Words

namespace BoundedTemporal

namespace Expr

variable {α β : Type} {S T : α → Prop} {f : α → String} {d e : Expr α}
  {r r' : List Char}

/-! ### Construction -/

/-- Built by negation, conjunction and disjunction from constants and the literals in `S`. -/
inductive BuiltFrom (S : α → Prop) : Expr α → Prop
  | top : BuiltFrom S top
  | bot : BuiltFrom S bot
  | lit {x : α} (mem : S x) : BuiltFrom S (lit x)
  | negate {e : Expr α} (operand : BuiltFrom S e) : BuiltFrom S e.negate
  | all {es : List (Expr α)} (operands : ∀ e ∈ es, BuiltFrom S e) : BuiltFrom S (all es)
  | any {es : List (Expr α)} (operands : ∀ e ∈ es, BuiltFrom S e) : BuiltFrom S (any es)

/-- Only the literals that occur matter. -/
lemma BuiltFrom.of_lits (h : BuiltFrom S e) (literals : ∀ x ∈ e.lits, T x) : BuiltFrom T e := by
  induction h with
  | top => exact .top
  | bot => exact .bot
  | lit mem => exact .lit (literals _ (List.mem_singleton_self _))
  | negate operand ih => exact .negate (ih (by rwa [lits_negate] at literals))
  | all operands ih =>
      rw [lits_all] at literals
      exact .all fun e he => ih e he fun x hx => literals x (List.mem_flatMap.mpr ⟨e, he, hx⟩)
  | any operands ih =>
      rw [lits_any] at literals
      exact .any fun e he => ih e he fun x hx => literals x (List.mem_flatMap.mpr ⟨e, he, hx⟩)

lemma BuiltFrom.map {U : β → Prop} {g : α → β} (h : BuiltFrom S e)
    (literals : ∀ x, S x → U (g x)) : BuiltFrom U (e.map g) := by
  induction h with
  | top => exact .top
  | bot => exact .bot
  | lit mem => exact .lit (literals _ mem)
  | negate operand ih => exact map_negate g _ ▸ .negate ih
  | all operands ih => exact map_all g _ ▸ .all (List.forall_mem_map.mpr ih)
  | any operands ih => exact map_any g _ ▸ .any (List.forall_mem_map.mpr ih)

/-! ### Connectives -/

/-- Conjunction or disjunction. -/
inductive Connective where
  | conj
  | disj

namespace Connective

/-- The sign between the operands. -/
def sign : Connective → Char
  | conj => '&'
  | disj => '|'

/-- The operands with the connective between them. -/
def join : Connective → List (Expr α) → Expr α
  | conj => .and
  | disj => .or

lemma sign_inj {c c' : Connective} (h : c.sign = c'.sign) : c = c' := by
  cases c <;> cases c' <;> first | rfl | cases h

end Connective

/-- A constant, or a literal in `S`. -/
inductive Leaf (S : α → Prop) : Expr α → Prop
  | top : Leaf S top
  | bot : Leaf S bot
  | lit (x : α) (mem : S x) : Leaf S (lit x)

/-- What can be built: constants, literals in `S`, negations, and conjunctions and disjunctions
of at least two operands. -/
inductive Proper (S : α → Prop) : Expr α → Prop
  | leaf {e : Expr α} (leaf : Leaf S e) : Proper S e
  | not (e : Expr α) (operand : Proper S e) : Proper S (not e)
  | join (c : Connective) (e : Expr α) (es : List (Expr α)) (more : es ≠ [])
      (operands : ∀ d ∈ e :: es, Proper S d) : Proper S (c.join (e :: es))

lemma Proper.negate (h : Proper S e) : Proper S e.negate := by
  cases h with
  | leaf leaf =>
      cases leaf with
      | top => exact .leaf .bot
      | bot => exact .leaf .top
      | lit x mem => exact .not _ (.leaf (.lit x mem))
  | not e operand => exact .not _ (.not e operand)
  | join c e es more operands =>
      cases c <;> exact .not _ (.join _ e es more operands)

lemma proper_all {es : List (Expr α)} (h : ∀ e ∈ es, Proper S e) : Proper S (all es) := by
  match es, h with
  | [], _ => exact .leaf .top
  | [e], h => exact h e (List.mem_singleton_self e)
  | e :: e' :: es, h => exact .join .conj e (e' :: es) (List.cons_ne_nil e' es) h

lemma proper_any {es : List (Expr α)} (h : ∀ e ∈ es, Proper S e) : Proper S (any es) := by
  match es, h with
  | [], _ => exact .leaf .bot
  | [e], h => exact h e (List.mem_singleton_self e)
  | e :: e' :: es, h => exact .join .disj e (e' :: es) (List.cons_ne_nil e' es) h

lemma BuiltFrom.proper (h : BuiltFrom S e) : Proper S e := by
  induction h with
  | top => exact .leaf .top
  | bot => exact .leaf .bot
  | lit mem => exact .leaf (.lit _ mem)
  | negate operand ih => exact ih.negate
  | all operands ih => exact proper_all ih
  | any operands ih => exact proper_any ih

/-! ### How expressions are written -/

/-- An operand as a list of characters, with its parentheses if it has any. -/
def operandChars (f : α → String) (e : Expr α) : List Char :=
  (enclose e.isCompound (e.text f)).toList

/-- The operands after the first one, each behind the sign of the connective. -/
def tailChars (f : α → String) (c : Connective) (es : List (Expr α)) : List Char :=
  es.flatMap fun e => ' ' :: c.sign :: ' ' :: operandChars f e

lemma tailChars_cons (c : Connective) (es : List (Expr α)) :
    tailChars f c (e :: es) = ' ' :: c.sign :: ' ' :: (operandChars f e ++ tailChars f c es) :=
  rfl

lemma operandTexts_eq_map (es : List (Expr α)) :
    operandTexts f es = es.map fun e => enclose e.isCompound (e.text f) := by
  induction es with
  | nil => rfl
  | cons e es ih => rw [operandTexts, ih, List.map_cons]

lemma toList_intercalate_operandTexts {sep : String} {c : Connective}
    (hsep : sep.toList = [' ', c.sign, ' ']) (e : Expr α) (es : List (Expr α)) :
    (sep.intercalate (operandTexts f (e :: es))).toList
      = operandChars f e ++ tailChars f c es := by
  rw [operandTexts_eq_map, String.toList_intercalate, List.map_map, hsep]
  induction es generalizing e with
  | nil => simp [tailChars, operandChars]
  | cons e' es ih =>
      have tail := ih e'
      rw [List.map_cons] at tail
      rw [List.map_cons, List.map_cons, List.intercalate_cons_cons, tail, tailChars_cons,
        List.append_assoc]
      rfl

namespace Connective

variable (c : Connective) (es : List (Expr α))

lemma isCompound_join : (c.join es).isCompound = true := by
  cases c <;> rfl

/-- Joined operands are written with the sign of the connective between them. -/
lemma toList_text_join :
    ((c.join (e :: es)).text f).toList = operandChars f e ++ tailChars f c es := by
  cases c with
  | conj => exact toList_intercalate_operandTexts rfl e es
  | disj => exact toList_intercalate_operandTexts rfl e es

lemma operandChars_join :
    operandChars f (c.join (e :: es)) = '(' :: (operandChars f e ++ tailChars f c es ++ [')']) := by
  rw [← toList_text_join, operandChars, isCompound_join, enclose, if_pos rfl]
  simp only [String.toList_append]
  rfl

end Connective

lemma operandChars_of_not_isCompound (h : e.isCompound = false) :
    operandChars f e = (e.text f).toList := by
  rw [operandChars, h]
  rfl

lemma operandChars_top : operandChars f (Expr.top : Expr α) = "true".toList :=
  rfl

lemma operandChars_bot : operandChars f (Expr.bot : Expr α) = "false".toList :=
  rfl

lemma operandChars_lit (x : α) : operandChars f (Expr.lit x) = (f x).toList :=
  rfl

lemma operandChars_not (e : Expr α) : operandChars f (not e) = '!' :: operandChars f e := by
  rw [operandChars_of_not_isCompound rfl, text, String.toList_append]
  rfl

/-! ### Constants and literals -/

/-- Literals are written as a word with an opening parenthesis in it and a closing one behind
it, and different literals differently. -/
structure Legible (S : α → Prop) (f : α → String) : Prop where
  written : ∀ x, S x →
    ∃ w, (f x).toList = w ++ [')'] ∧ '(' ∈ w ∧ IsWord w ∧ Opens none w
  inj : ∀ x y, S x → S y → f x = f y → x = y

/-- Constants and literals are written as a word, behind which a parenthesis is closed if one
was opened. -/
lemma Leaf.exists_word (leaf : Leaf S e) (legible : Legible S f) :
    ∃ w, operandChars f e = w ++ (if '(' ∈ w then [')'] else []) ∧ IsWord w ∧ Opens none w := by
  cases leaf with
  | top =>
      rw [operandChars_top]
      exact ⟨"true".toList, by decide, by decide, opens_of_isIdentifierChar (by decide) _⟩
  | bot =>
      rw [operandChars_bot]
      exact ⟨"false".toList, by decide, by decide, opens_of_isIdentifierChar (by decide) _⟩
  | lit x mem =>
      obtain ⟨w, chars, opened, word, start⟩ := legible.written x mem
      rw [operandChars_lit]
      exact ⟨w, by rw [chars, if_pos opened], word, start⟩

lemma Leaf.operandChars_inj (leaf : Leaf S e) (leaf' : Leaf S d) (legible : Legible S f)
    (h : operandChars f e = operandChars f d) : e = d := by
  -- literals have a parenthesis, and constants have none
  have opened {x : α} (mem : S x) : '(' ∈ operandChars f (Expr.lit x) := by
    obtain ⟨w, chars, opened, -⟩ := legible.written x mem
    rw [operandChars_lit, chars]
    exact List.mem_append_left _ opened
  have unopened : '(' ∉ operandChars f Expr.top ∧ '(' ∉ operandChars f Expr.bot := by
    rw [operandChars_top, operandChars_bot]
    decide
  have different : operandChars f Expr.top ≠ operandChars f Expr.bot := by
    rw [operandChars_top, operandChars_bot]
    decide
  cases leaf with
  | top =>
      cases leaf' with
      | top => rfl
      | bot => exact absurd h different
      | lit y mem => exact absurd (h ▸ opened mem) unopened.1
  | bot =>
      cases leaf' with
      | top => exact absurd h.symm different
      | bot => rfl
      | lit y mem => exact absurd (h ▸ opened mem) unopened.2
  | lit x mem =>
      cases leaf' with
      | top => exact absurd (h ▸ opened mem) unopened.1
      | bot => exact absurd (h ▸ opened mem) unopened.2
      | lit y mem' => exact congrArg Expr.lit (legible.inj x y mem mem' (String.toList_inj.mp h))

lemma Leaf.append_inj (leaf : Leaf S e) (leaf' : Leaf S d) (legible : Legible S f)
    (hr : EndsWord r) (hr' : EndsWord r') (h : operandChars f e ++ r = operandChars f d ++ r') :
    e = d ∧ r = r' := by
  have closed (w : List Char) {r : List Char} (hr : EndsWord r) :
      EndsWord ((if '(' ∈ w then [')'] else []) ++ r) := by
    split
    · exact endsWord_close r
    · exact hr
  obtain ⟨w, chars, word, -⟩ := leaf.exists_word legible
  obtain ⟨w', chars', word', -⟩ := leaf'.exists_word legible
  rw [chars, chars', List.append_assoc, List.append_assoc] at h
  obtain ⟨rfl, rest⟩ := word_append_inj word word' (closed w hr) (closed w' hr') h
  exact ⟨leaf.operandChars_inj leaf' legible (chars.trans chars'.symm),
    List.append_cancel_left rest⟩

/-! ### Operands -/

/-- The sign or parenthesis that an operand opens with; constants and literals open with a
character of an identifier. -/
def opening : Expr α → Option Char
  | not _ => some '!'
  | and _ | or _ => some '('
  | _ => none

lemma Leaf.opening_eq (leaf : Leaf S e) : e.opening = none := by
  cases leaf <;> rfl

lemma Connective.opening_join (c : Connective) (es : List (Expr α)) :
    (c.join es).opening = some '(' := by
  cases c <;> rfl

/-- What an operand opens with is seen in its text. -/
lemma Proper.opens (proper : Proper S e) (legible : Legible S f) :
    Opens e.opening (operandChars f e) := by
  cases proper with
  | leaf leaf =>
      obtain ⟨w, chars, -, opens⟩ := leaf.exists_word legible
      rw [leaf.opening_eq, chars]
      exact opens.append _
  | not e operand =>
      rw [operandChars_not]
      exact opens_sign rfl _
  | join c e es more operands =>
      rw [c.opening_join, c.operandChars_join]
      exact opens_sign rfl _

/-- A text that ends the expression before it: nothing, or a closing parenthesis. -/
def Closes (r : List Char) : Prop :=
  ∀ c ∈ r.head?, c = ')'

lemma closes_nil : Closes [] := by
  rintro c ⟨⟩

lemma closes_close (r : List Char) : Closes (')' :: r) := by
  rintro c ⟨⟩
  rfl

lemma Closes.endsWord_tailChars (hr : Closes r) (c : Connective) (es : List (Expr α)) :
    EndsWord (tailChars f c es ++ r) := by
  cases es with
  | nil =>
      intro c hc
      rw [hr c hc]
      rfl
  | cons e es => exact endsWord_blank _

/-- Where the operands after the first one can be read off, a text tells all of them and the
rest; if there are any, it tells the connective. -/
lemma tailChars_append_inj {c c' : Connective} {es es' : List (Expr α)}
    (read : ∀ e ∈ es, ∀ e' ∈ es', ∀ {r r'}, EndsWord r → EndsWord r' →
      operandChars f e ++ r = operandChars f e' ++ r' → e = e' ∧ r = r')
    (hr : Closes r) (hr' : Closes r') (h : tailChars f c es ++ r = tailChars f c' es' ++ r') :
    es = es' ∧ r = r' ∧ (es ≠ [] → c = c') := by
  -- an operand is announced by a blank, which closes nothing
  have announced {r s : List Char} (hr : Closes r) (h : r = ' ' :: s) : False := by
    have blank := hr ' ' (by rw [h]; rfl)
    exact absurd blank (by decide)
  induction es generalizing es' with
  | nil =>
      cases es' with
      | nil => exact ⟨rfl, h, fun more => absurd rfl more⟩
      | cons e' es' => exact (announced hr h).elim
  | cons e es ih =>
      cases es' with
      | nil => exact (announced hr' h.symm).elim
      | cons e' es' =>
          simp only [tailChars_cons, List.cons_append, List.cons.injEq, true_and,
            List.append_assoc] at h
          obtain ⟨sign, h⟩ := h
          obtain ⟨rfl, tails⟩ := read e (by simp) e' (by simp) (hr.endsWord_tailChars c es)
            (hr'.endsWord_tailChars c' es') h
          have later : ∀ d ∈ es, ∀ d' ∈ es', ∀ {r r'}, EndsWord r → EndsWord r' →
              operandChars f d ++ r = operandChars f d' ++ r' → d = d' ∧ r = r' :=
            fun d hd d' hd' => read d (List.mem_cons_of_mem e hd) d' (List.mem_cons_of_mem e hd')
          obtain ⟨rfl, rest, -⟩ := ih later tails
          exact ⟨rfl, rest, fun _ => Connective.sign_inj sign⟩

/-- **A text tells the operand that it begins with**, and what stands behind it. -/
theorem operandChars_append_inj (legible : Legible S f) (he : Proper S e) (hd : Proper S d)
    (hr : EndsWord r) (hr' : EndsWord r') (h : operandChars f e ++ r = operandChars f d ++ r') :
    e = d ∧ r = r' := by
  -- an operand of `e` has other texts behind it than `e` itself
  induction he generalizing d r r' with
  | leaf leaf =>
      have same := ((Proper.leaf leaf).opens legible).unique (hd.opens legible) h
      rw [leaf.opening_eq] at same
      cases hd with
      | leaf leaf' => exact leaf.append_inj leaf' legible hr hr' h
      | not d _ => cases same
      | join c d ds _ _ =>
          rw [c.opening_join] at same
          cases same
  | not e operand ih =>
      have same := (operand.not.opens legible).unique (hd.opens legible) h
      cases hd with
      | leaf leaf =>
          rw [leaf.opening_eq] at same
          cases same
      | not d operand' =>
          rw [operandChars_not, operandChars_not, List.cons_append, List.cons_append,
            List.cons.injEq] at h
          obtain ⟨rfl, rest⟩ := ih operand' hr hr' h.2
          exact ⟨rfl, rest⟩
      | join c d ds _ _ =>
          rw [c.opening_join] at same
          cases same
  | join c e es more operands ih =>
      have same := ((Proper.join c e es more operands).opens legible).unique (hd.opens legible) h
      rw [c.opening_join] at same
      cases hd with
      | leaf leaf =>
          rw [leaf.opening_eq] at same
          cases same
      | not d _ => cases same
      | join c' d ds more' operands' =>
          rw [Connective.operandChars_join, Connective.operandChars_join] at h
          simp only [List.cons_append, List.append_assoc, List.nil_append, List.cons.injEq,
            true_and] at h
          -- the first operands end at a blank, and the last ones at the parenthesis
          have closed {r : List Char} := closes_close r
          obtain ⟨rfl, tails⟩ := ih e List.mem_cons_self (operands' d List.mem_cons_self)
            (closed.endsWord_tailChars c es) (closed.endsWord_tailChars c' ds) h
          obtain ⟨rfl, rest, connective⟩ := tailChars_append_inj
            (fun a ha b hb => ih a (List.mem_cons_of_mem e ha)
              (operands' b (List.mem_cons_of_mem e hb))) closed closed tails
          rw [connective more]
          exact ⟨rfl, (List.cons.inj rest).2⟩

/-! ### Whole expressions -/

/-- Every expression is written as an operand with others behind it, of which there are none
unless it is a conjunction or a disjunction. -/
lemma Proper.exists_operands (h : Proper S e) :
    ∃ c d ds, (e.text f).toList = operandChars f d ++ tailChars f c ds
      ∧ (∀ a ∈ d :: ds, Proper S a)
      ∧ e = if ds = [] then d else c.join (d :: ds) := by
  have single {e : Expr α} (h : Proper S e) (simple : e.isCompound = false) :
      ∃ c d ds, (e.text f).toList = operandChars f d ++ tailChars f c ds
        ∧ (∀ a ∈ d :: ds, Proper S a)
        ∧ e = if ds = [] then d else c.join (d :: ds) := by
    refine ⟨.conj, e, [], ?_, List.forall_mem_singleton.mpr h, rfl⟩
    rw [operandChars_of_not_isCompound simple]
    exact (List.append_nil _).symm
  cases h with
  | leaf leaf => exact single (.leaf leaf) (by cases leaf <;> rfl)
  | not e operand => exact single operand.not rfl
  | join c d ds more operands =>
      exact ⟨c, d, ds, c.toList_text_join ds, operands, (if_neg more).symm⟩

lemma Proper.text_inj (legible : Legible S f) (he : Proper S e) (hd : Proper S d)
    (h : e.text f = d.text f) : e = d := by
  obtain ⟨c, a, as, chars, operands, rfl⟩ := he.exists_operands (f := f)
  obtain ⟨c', b, bs, chars', operands', rfl⟩ := hd.exists_operands (f := f)
  have h : operandChars f a ++ (tailChars f c as ++ [])
      = operandChars f b ++ (tailChars f c' bs ++ []) := by
    rw [List.append_nil, List.append_nil, ← chars, ← chars', h]
  obtain ⟨rfl, tails⟩ := operandChars_append_inj legible (operands a List.mem_cons_self)
    (operands' b List.mem_cons_self) (closes_nil.endsWord_tailChars c as)
    (closes_nil.endsWord_tailChars c' bs) h
  obtain ⟨rfl, -, connective⟩ := tailChars_append_inj
    (fun x hx y hy => operandChars_append_inj legible (operands x (List.mem_cons_of_mem a hx))
      (operands' y (List.mem_cons_of_mem a hy)))
    closes_nil closes_nil tails
  split
  · rfl
  · rw [connective ‹_›]

/-- **Expressions with one text are equal**, if they are built over literals that can be told
apart. -/
theorem BuiltFrom.text_inj (legible : Legible S f) (he : BuiltFrom S e) (hd : BuiltFrom S d)
    (h : e.text f = d.text f) : e = d :=
  he.proper.text_inj legible hd.proper h

end Expr

end BoundedTemporal
