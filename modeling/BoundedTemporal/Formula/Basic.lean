/-
Formulas as trees.

* `Formula`: a formula with all its subformulas spelled out;
* `Formula.ofNode`, `Formula.node`: a formula is a node over formulas;
* `Formula.text`: the written form, in which binary connectives stand between
  parentheses.
-/
import BoundedTemporal.Formula.Node

namespace BoundedTemporal

/-- Metric temporal formulas over discrete time. -/
inductive Formula where
  | atom (name : Atom)
  | not (f : Formula)
  | and (f g : Formula)
  | or (f g : Formula)
  | next (f : Formula)
  | globally (interval : Interval) (f : Formula)
  | eventually (interval : Interval) (f : Formula)
  | until (interval : Interval) (f g : Formula)
  | since (interval : Interval) (f g : Formula)
deriving DecidableEq

namespace Formula

/-- Builds a formula from its outermost node. -/
def ofNode : Node Formula → Formula
  | .atom name => atom name
  | .not f => not f
  | .and f g => and f g
  | .or f g => or f g
  | .next f => next f
  | .globally I f => globally I f
  | .eventually I f => eventually I f
  | .until I f g => .until I f g
  | .since I f g => since I f g

/-- The outermost node of a formula. -/
def node : Formula → Node Formula
  | atom name => .atom name
  | not f => .not f
  | and f g => .and f g
  | or f g => .or f g
  | next f => .next f
  | globally I f => .globally I f
  | eventually I f => .eventually I f
  | .until I f g => .until I f g
  | since I f g => .since I f g

@[simp] theorem node_ofNode (n : Node Formula) : (ofNode n).node = n := by
  cases n <;> rfl

/-- The written form. -/
def text : Formula → String
  | atom name => name
  | not f => "!" ++ f.text
  | and f g => "(" ++ f.text ++ " & " ++ g.text ++ ")"
  | or f g => "(" ++ f.text ++ " | " ++ g.text ++ ")"
  | next f => "X " ++ f.text
  | globally I f => "G" ++ I.text ++ " " ++ f.text
  | eventually I f => "F" ++ I.text ++ " " ++ f.text
  | .until I f g => "(" ++ f.text ++ " U" ++ I.text ++ " " ++ g.text ++ ")"
  | since I f g => "(" ++ f.text ++ " S" ++ I.text ++ " " ++ g.text ++ ")"

end Formula

end BoundedTemporal
