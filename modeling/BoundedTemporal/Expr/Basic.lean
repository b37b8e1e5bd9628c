/-
Propositional expressions over literals of any kind.

* `Expr`: constants, literals, negation, and conjunctions and disjunctions of
  any number of operands;
* `Expr.negate`, `Expr.all`, `Expr.any`: build an expression without constants
  under a negation and without conjunctions or disjunctions of fewer than two
  operands;
* `Expr.eval`: the value under an assignment;
* `Expr.lits`: the literal occurrences, left to right;
* `Expr.mapM?`: replaces the literals, if each of them has a replacement;
* `Expr.text`: the written form.
-/

namespace BoundedTemporal

/-- Propositional expressions with literals in `α`. -/
inductive Expr (α : Type) where
  | top
  | bot
  | lit (x : α)
  | not (e : Expr α)
  | and (es : List (Expr α))
  | or (es : List (Expr α))

namespace Expr

variable {α β : Type}

/-! ### Construction -/

/-- Negation; that of a constant is the other constant. -/
def negate : Expr α → Expr α
  | top => bot
  | bot => top
  | e => not e

/-- Conjunction; that of one expression is the expression itself. -/
def all : List (Expr α) → Expr α
  | [] => top
  | [e] => e
  | es => and es

/-- Disjunction; that of one expression is the expression itself. -/
def any : List (Expr α) → Expr α
  | [] => bot
  | [e] => e
  | es => or es

/-! ### Evaluation -/

mutual

/-- The value of an expression when the literals have the values `v`. -/
def eval (v : α → Bool) : Expr α → Bool
  | top => true
  | bot => false
  | lit x => v x
  | not e => !e.eval v
  | and es => evalAll v es
  | or es => evalAny v es

/-- Whether all expressions are true. -/
def evalAll (v : α → Bool) : List (Expr α) → Bool
  | [] => true
  | e :: es => e.eval v && evalAll v es

/-- Whether some expression is true. -/
def evalAny (v : α → Bool) : List (Expr α) → Bool
  | [] => false
  | e :: es => e.eval v || evalAny v es

end

theorem evalAll_eq_all (v : α → Bool) (es : List (Expr α)) :
    evalAll v es = es.all (eval v) := by
  induction es with
  | nil => rfl
  | cons e es ih => simp [evalAll, ih]

theorem evalAny_eq_any (v : α → Bool) (es : List (Expr α)) :
    evalAny v es = es.any (eval v) := by
  induction es with
  | nil => rfl
  | cons e es ih => simp [evalAny, ih]

@[simp] theorem eval_negate (v : α → Bool) (e : Expr α) : e.negate.eval v = !e.eval v := by
  cases e <;> simp [negate, eval]

@[simp] theorem eval_all (v : α → Bool) (es : List (Expr α)) :
    (all es).eval v = es.all (eval v) := by
  match es with
  | [] => simp [all, eval]
  | [e] => simp [all]
  | e :: e' :: es => simp [all, eval, evalAll_eq_all]

@[simp] theorem eval_any (v : α → Bool) (es : List (Expr α)) :
    (any es).eval v = es.any (eval v) := by
  match es with
  | [] => simp [any, eval]
  | [e] => simp [any]
  | e :: e' :: es => simp [any, eval, evalAny_eq_any]

/-! ### Literals -/

mutual

/-- The literal occurrences, left to right. -/
def lits : Expr α → List α
  | top => []
  | bot => []
  | lit x => [x]
  | not e => e.lits
  | and es => litsOf es
  | or es => litsOf es

/-- The literal occurrences of several expressions. -/
def litsOf : List (Expr α) → List α
  | [] => []
  | e :: es => e.lits ++ litsOf es

end

mutual

/-- Replaces each literal by what `f` finds for it, if it finds something for
all of them. -/
def mapM? (f : α → Option β) : Expr α → Option (Expr β)
  | top => some top
  | bot => some bot
  | lit x => (f x).map lit
  | not e => (e.mapM? f).map not
  | and es => (mapAllM? f es).map and
  | or es => (mapAllM? f es).map or

/-- Replaces the literals of several expressions. -/
def mapAllM? (f : α → Option β) : List (Expr α) → Option (List (Expr β))
  | [] => some []
  | e :: es => do return (← e.mapM? f) :: (← mapAllM? f es)

end

/-! ### Written form -/

/-- Whether an expression is a conjunction or a disjunction. -/
def isCompound : Expr α → Bool
  | and _ => true
  | or _ => true
  | _ => false

/-- Puts a text between parentheses where they are needed. -/
def enclose (needed : Bool) (s : String) : String :=
  if needed then "(" ++ s ++ ")" else s

mutual

/-- The written form, with literals written by `f`. Conjunctions and
disjunctions stand between parentheses when they are operands. -/
def text (f : α → String) : Expr α → String
  | top => "true"
  | bot => "false"
  | lit x => f x
  | not e => "!" ++ enclose e.isCompound (e.text f)
  | and es => " & ".intercalate (operandTexts f es)
  | or es => " | ".intercalate (operandTexts f es)

/-- The written forms of operands. -/
def operandTexts (f : α → String) : List (Expr α) → List String
  | [] => []
  | e :: es => enclose e.isCompound (e.text f) :: operandTexts f es

end

end Expr

end BoundedTemporal
