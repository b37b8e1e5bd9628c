/-
Evaluation from left to right, with a record of the literals it asks for.

* `Expr.ask`: the value of an expression and the literals whose values were
  asked for, in order; a conjunction asks no more after a false operand, and a
  disjunction no more after a true one.
-/
import BoundedTemporal.Expr.Basic

namespace BoundedTemporal

namespace Expr

variable {α : Type}

mutual

/-- The value of an expression, and the literals asked for. -/
def ask (v : α → Bool) : Expr α → Bool × List α
  | top => (true, [])
  | bot => (false, [])
  | lit x => (v x, [x])
  | not e => let (value, asked) := e.ask v; (!value, asked)
  | and es => askAll v es
  | or es => askAny v es

/-- Asks until an expression is false. -/
def askAll (v : α → Bool) : List (Expr α) → Bool × List α
  | [] => (true, [])
  | e :: es =>
    match e.ask v with
    | (false, asked) => (false, asked)
    | (true, asked) => let (value, more) := askAll v es; (value, asked ++ more)

/-- Asks until an expression is true. -/
def askAny (v : α → Bool) : List (Expr α) → Bool × List α
  | [] => (false, [])
  | e :: es =>
    match e.ask v with
    | (true, asked) => (true, asked)
    | (false, asked) => let (value, more) := askAny v es; (value, asked ++ more)

end

end Expr

end BoundedTemporal
