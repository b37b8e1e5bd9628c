/-
Words in texts.

* `isDigit_of_mem_toString`, `toString_toList_inj`: numbers are written with digits, and
  different numbers differently;
* `append_cons_inj_of_notMem_right`, `append_inj_of_stop`: where a list can be taken apart;
* `IsIdentifier`: names made of letters, digits and underscores; `Opens`: whether a text begins
  with one or with a sign;
* `IsWord`, `EndsWord`: a word goes on until a blank or a closing parenthesis, so that
  `word_append_inj` reads a word off the front of a text.
-/
import BoundedTemporal.Basic
import Mathlib.Data.List.Infix
import Std.Data.String.ToNat

namespace BoundedTemporal

/-! ### Numbers in texts -/

/-- A number is written with digits. -/
lemma isDigit_of_mem_toString {n : Nat} {d : Char} (h : d ∈ (toString n).toList) :
    d.isDigit = true := by
  rw [Nat.toString_eq_repr, Nat.toList_repr] at h
  exact Nat.isDigit_of_mem_toDigits (by decide) (by decide) h

lemma toString_toList_ne_nil (n : Nat) : (toString n).toList ≠ [] := by
  rw [Nat.toString_eq_repr, Nat.toList_repr]
  exact Nat.toDigits_ne_nil

/-- Different numbers are written differently. -/
lemma toString_toList_inj {m n : Nat} : (toString m).toList = (toString n).toList ↔ m = n := by
  rw [String.toList_inj, Nat.toString_eq_repr, Nat.toString_eq_repr, Nat.repr_inj]

/-! ### Taking lists apart -/

/-- A list is taken apart at the last occurrence of an element. -/
lemma append_cons_inj_of_notMem_right {α : Type} {c : α} {xs xs' ys ys' : List α} (hys : c ∉ ys)
    (hys' : c ∉ ys') : xs ++ c :: ys = xs' ++ c :: ys' ↔ xs = xs' ∧ ys = ys' := by
  refine ⟨fun h => ?_, by rintro ⟨rfl, rfl⟩; rfl⟩
  -- what one side has more before `c` would have to stand after `c` on the other
  rcases List.append_eq_append_iff.mp h with ⟨zs, hx, hy⟩ | ⟨zs, hx, hy⟩
  · cases zs with
    | nil => exact ⟨by rw [hx, List.append_nil], List.tail_eq_of_cons_eq hy⟩
    | cons z zs =>
        rw [List.cons_append, List.cons.injEq] at hy
        exact absurd (by rw [hy.2]; simp) hys
  · cases zs with
    | nil => exact ⟨by rw [hx, List.append_nil], (List.tail_eq_of_cons_eq hy).symm⟩
    | cons z zs =>
        rw [List.cons_append, List.cons.injEq] at hy
        exact absurd (by rw [hy.2]; simp) hys'

section

variable {α : Type} {p : α → Bool} {xs xs' r r' : List α}

/-- What is taken from the front ends where the condition fails first. -/
lemma takeWhile_append_of_stop (hxs : ∀ x ∈ xs, p x = true) (hr : ∀ x ∈ r.head?, p x = false) :
    (xs ++ r).takeWhile p = xs := by
  have rest : r.takeWhile p = [] := by
    cases r with
    | nil => rfl
    | cons x r => exact List.takeWhile_cons_of_neg (by simp [hr x rfl])
  rw [List.takeWhile_append_of_pos hxs, rest, List.append_nil]

/-- A list is taken apart at the first element that fails a condition. -/
lemma append_inj_of_stop (hxs : ∀ x ∈ xs, p x = true) (hxs' : ∀ x ∈ xs', p x = true)
    (hr : ∀ x ∈ r.head?, p x = false) (hr' : ∀ x ∈ r'.head?, p x = false)
    (h : xs ++ r = xs' ++ r') : xs = xs' ∧ r = r' := by
  have front : xs = xs' := by
    rw [← takeWhile_append_of_stop hxs hr, h, takeWhile_append_of_stop hxs' hr']
  exact ⟨front, List.append_cancel_left (front ▸ h)⟩

end

/-! ### Identifiers -/

/-- The characters that identifiers are made of. -/
def isIdentifierChar (c : Char) : Bool :=
  c.isAlphanum || c == '_'

/-- A name that is not empty and has ASCII letters, digits and underscores only. -/
def IsIdentifier (name : String) : Prop :=
  name.toList ≠ [] ∧ ∀ c ∈ name.toList, isIdentifierChar c = true

-- The characters of the name are looked at one by one; there are too many characters to go
-- through all of them.
instance (name : String) : Decidable (IsIdentifier name) :=
  have := List.decidableBAll (fun c => isIdentifierChar c = true) name.toList
  inferInstanceAs (Decidable (_ ∧ _))

lemma isIdentifierChar_of_isDigit {c : Char} (h : c.isDigit = true) :
    isIdentifierChar c = true := by
  simp [isIdentifierChar, Char.isAlphanum, h]

/-- An identifier may be continued by a number. -/
lemma IsIdentifier.append_toString {name : String} (h : IsIdentifier name) (n : Nat) :
    IsIdentifier (name ++ toString n) := by
  rw [IsIdentifier, String.toList_append]
  refine ⟨fun empty => h.1 (List.append_eq_nil_iff.mp empty).1, fun c hc => ?_⟩
  rcases List.mem_append.mp hc with hc | hc
  · exact h.2 c hc
  · exact isIdentifierChar_of_isDigit (isDigit_of_mem_toString hc)

/-- The sign that a text opens with: its first character, unless that may begin an
identifier. -/
def Opens (opening : Option Char) (cs : List Char) : Prop :=
  ∃ c ds, cs = c :: ds ∧ opening = if isIdentifierChar c then none else some c

lemma opens_of_isIdentifierChar {c : Char} (hc : isIdentifierChar c = true) (ds : List Char) :
    Opens none (c :: ds) :=
  ⟨c, ds, rfl, (if_pos hc).symm⟩

lemma opens_sign {c : Char} (hc : isIdentifierChar c = false) (ds : List Char) :
    Opens (some c) (c :: ds) :=
  ⟨c, ds, rfl, by rw [hc]; rfl⟩

lemma IsIdentifier.opens {name : String} (h : IsIdentifier name) : Opens none name.toList := by
  obtain ⟨c, ds, hcs⟩ := List.exists_cons_of_ne_nil h.1
  rw [hcs]
  exact opens_of_isIdentifierChar (h.2 c (by simp [hcs])) ds

lemma Opens.append {k : Option Char} {cs : List Char} (h : Opens k cs) (ds : List Char) :
    Opens k (cs ++ ds) := by
  obtain ⟨c, es, rfl, hk⟩ := h
  exact ⟨c, es ++ ds, rfl, hk⟩

/-- What a text opens with is seen whatever stands behind it. -/
lemma Opens.unique {k k' : Option Char} {cs cs' r r' : List Char} (h : Opens k cs)
    (h' : Opens k' cs') (same : cs ++ r = cs' ++ r') : k = k' := by
  obtain ⟨c, ds, rfl, rfl⟩ := h
  obtain ⟨c', ds', rfl, rfl⟩ := h'
  rw [List.cons_append, List.cons_append, List.cons.injEq] at same
  rw [same.1]

/-! ### Words -/

/-- Words go on until a blank or a closing parenthesis. -/
def isWordChar (c : Char) : Bool :=
  c != ' ' && c != ')'

/-- A text without blanks and closing parentheses. -/
def IsWord (cs : List Char) : Prop :=
  ∀ c ∈ cs, isWordChar c = true

/-- A text before which a word ends. -/
def EndsWord (r : List Char) : Prop :=
  ∀ c ∈ r.head?, isWordChar c = false

instance (cs : List Char) : Decidable (IsWord cs) :=
  List.decidableBAll (fun c => isWordChar c = true) cs

lemma endsWord_nil : EndsWord [] := by
  rintro c ⟨⟩

lemma endsWord_blank (r : List Char) : EndsWord (' ' :: r) := by
  rintro c ⟨⟩
  rfl

lemma endsWord_close (r : List Char) : EndsWord (')' :: r) := by
  rintro c ⟨⟩
  rfl

lemma IsWord.append {cs ds : List Char} (hcs : IsWord cs) (hds : IsWord ds) : IsWord (cs ++ ds) :=
  List.forall_mem_append.mpr ⟨hcs, hds⟩

lemma isWordChar_of_isIdentifierChar {c : Char} (h : isIdentifierChar c = true) :
    isWordChar c = true := by
  have blank : c ≠ ' ' := by rintro rfl; revert h; decide
  have close : c ≠ ')' := by rintro rfl; revert h; decide
  simp [isWordChar, blank, close]

lemma IsIdentifier.isWord {name : String} (h : IsIdentifier name) : IsWord name.toList :=
  fun c hc => isWordChar_of_isIdentifierChar (h.2 c hc)

lemma isWord_toString (n : Nat) : IsWord (toString n).toList :=
  fun _ hc =>
    isWordChar_of_isIdentifierChar (isIdentifierChar_of_isDigit (isDigit_of_mem_toString hc))

/-- **A word is read off the front of a text.** -/
lemma word_append_inj {cs cs' r r' : List Char} (hcs : IsWord cs) (hcs' : IsWord cs')
    (hr : EndsWord r) (hr' : EndsWord r') (h : cs ++ r = cs' ++ r') : cs = cs' ∧ r = r' :=
  append_inj_of_stop hcs hcs' hr hr' h

end BoundedTemporal
