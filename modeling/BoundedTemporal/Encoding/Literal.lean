/-
The literals of an encoding: propositions at ticks.

* `Symbol`: a fresh proposition for a node, named by a scope and the node's
  position;
* `Proposition`: an atom or a fresh symbol;
* `Literal`: a proposition at a tick, written `a(3)` or `theta2(0)`;
* `Constraint`: the definition of a literal by an expression.

Atoms are ordered before symbols, atoms by name, symbols by scope and then by
position, and literals by proposition and then by tick.
-/
import BoundedTemporal.Basic
import BoundedTemporal.Expr.Equality
import Std.Data.TreeSet

namespace BoundedTemporal

/-- The fresh proposition that stands for a node in a scope. -/
structure Symbol where
  scope : String
  node : NodeId
deriving DecidableEq, Ord, Repr

/-- Symbols are written as the scope followed by the position of the node. -/
def Symbol.text (s : Symbol) : String :=
  s.scope ++ toString s.node

/-- A proposition of the encoding. -/
inductive Proposition where
  | atom (name : Atom)
  | theta (symbol : Symbol)
deriving DecidableEq, Ord, Repr

namespace Proposition

/-- The name of an atom. -/
def atom? : Proposition → Option Atom
  | atom name => some name
  | theta _ => none

/-- The symbol of a proposition that is not an atom. -/
def symbol? : Proposition → Option Symbol
  | atom _ => none
  | theta symbol => some symbol

/-- Propositions are written as their names. -/
def text : Proposition → String
  | atom name => name
  | theta symbol => symbol.text

end Proposition

/-- A proposition at a tick. -/
structure Literal where
  proposition : Proposition
  tick : Nat
deriving DecidableEq, Ord, Repr

namespace Literal

/-- Literals are written as the proposition with the tick in parentheses. -/
def text (l : Literal) : String :=
  l.proposition.text ++ "(" ++ toString l.tick ++ ")"

/-- The distinct literals of a list, in order. -/
def sortDistinct (ls : List Literal) : List Literal :=
  (Std.TreeSet.ofList ls).toList

end Literal

/-- The ticks that an expression mentions, in ascending order. -/
def Expr.ticks (e : Expr Literal) : List Nat :=
  (Std.TreeSet.ofList (e.lits.map (·.tick))).toList

/-- A literal that holds exactly when its definition does. -/
structure Constraint where
  theta : Literal
  definition : Expr Literal
deriving DecidableEq

namespace Constraint

/-- Constraints are written as equivalences. -/
def text (c : Constraint) : String :=
  c.theta.text ++ " <-> " ++ c.definition.text Literal.text

/-- Whether the two sides have the same value under an assignment. -/
def Holds (v : Literal → Bool) (c : Constraint) : Prop :=
  v c.theta = c.definition.eval v

instance (v : Literal → Bool) (c : Constraint) : Decidable (c.Holds v) :=
  inferInstanceAs (Decidable (_ = _))

end Constraint

end BoundedTemporal
