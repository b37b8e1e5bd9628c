/-
The vocabulary of bounded temporal formulas.

* ticks, the steps of discrete time, are natural numbers; `largestTick` is the
  largest one that signed input may name;
* `Atom`: a proposition, identified by its name;
* `NodeId`: the position of a stored formula node, written `#7`.
-/

namespace BoundedTemporal

/-- The largest tick that a horizon or an interval bound may name. -/
def largestTick : Nat := Nat.pow 2 32 - 1

/-- A proposition is identified by its name, which may be any text. -/
abbrev Atom := String

/-- The position of a node in the order in which nodes were stored. -/
abbrev NodeId := Nat

/-- Ids are written with a leading hash sign. -/
def NodeId.text (id : NodeId) : String :=
  "#" ++ toString id

end BoundedTemporal
