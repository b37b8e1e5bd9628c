/-
The encoding of a formula: a literal for each node and tick, and a constraint
for each literal that is not an atom.

* `Cell`: the literal of a node at a tick, with its definition;
* `Encoding`: the cells, and the constraints in the order in which they were
  found;
* `Plan.cell?`: the cell of a node at a tick, in which the literals of the
  operands are taken from the cells that are already there;
* `Plan.encode?`: fills all cells in order; there is no encoding if an operand
  is ever missing.
-/
import BoundedTemporal.Encoding.Plan
import BoundedTemporal.Encoding.Condition
import BoundedTemporal.Encoding.Literal

namespace BoundedTemporal

/-- The literal of a node at a tick. An atom has no definition. -/
structure Cell where
  theta : Literal
  definition? : Option (Expr Literal)

/-- The constraint that a definition amounts to. -/
def Cell.constraint? (c : Cell) : Option Constraint :=
  c.definition?.map fun definition => ⟨c.theta, definition⟩

/-- Cells by node and tick, and constraints in order. -/
structure Encoding where
  cells : Std.HashMap (NodeId × Nat) Cell
  constraints : Array Constraint

namespace Encoding

/-- The encoding of nothing. -/
def empty : Encoding :=
  ⟨∅, #[]⟩

/-- The cell of a node at a tick. -/
def cell? (E : Encoding) (id : NodeId) (t : Nat) : Option Cell :=
  E.cells[(id, t)]?

/-- Adds a cell, and its constraint if it has one. -/
def record (E : Encoding) (id : NodeId) (t : Nat) (c : Cell) : Encoding where
  cells := E.cells.insert (id, t) c
  constraints := match c.constraint? with
    | some constraint => E.constraints.push constraint
    | none => E.constraints

theorem cell?_record (E : Encoding) (id p : NodeId) (t s : Nat) (c : Cell) :
    (E.record id t c).cell? p s = if (id, t) = (p, s) then some c else E.cell? p s := by
  simp only [cell?, record, Std.HashMap.getElem?_insert]
  by_cases h : (id, t) = (p, s) <;> simp [h]

theorem constraints_record (E : Encoding) (id : NodeId) (t : Nat) (c : Cell) :
    (E.record id t c).constraints.toList = E.constraints.toList ++ c.constraint?.toList := by
  cases h : c.constraint? <;> simp [record, h]

end Encoding

namespace Plan

/-- The literal that stands for a node at a tick: the atom itself, or the symbol
of the node. -/
def theta (P : Plan) (id : NodeId) (node : Node NodeId) (t : Nat) : Literal :=
  match node with
  | .atom name => ⟨.atom name, t⟩
  | _ => ⟨.theta ⟨P.scope, id⟩, t⟩

/-- The cell of a node at a tick, over the literals of its operands. -/
def cell? (P : Plan) (E : Encoding) (id : NodeId) (t : Nat) : Option Cell := do
  let node ← P.arena.node? id
  match node.condition? P.horizon.last t with
  | none => return ⟨P.theta id node t, none⟩
  | some condition =>
    let definition ← condition.mapM? fun (p, s) => (E.cell? p s).map (·.theta)
    return ⟨P.theta id node t, some definition⟩

/-- Fills one more cell. -/
def fill? (P : Plan) (E : Encoding) (slot : NodeId × Nat) : Option Encoding :=
  (P.cell? E slot.1 slot.2).map (E.record slot.1 slot.2)

/-- Fills the cells of all nodes at all ticks. -/
def encode? (P : Plan) : Option Encoding :=
  P.slots.foldlM P.fill? .empty

end Plan

end BoundedTemporal
