/-
Stored formulas: an append-only sequence of nodes.

* `Arena`: the stored nodes; each refers to operands by the ids of nodes that
  were stored before it, and an atom is stored once;
* `Arena.node?`, `Arena.formula?`: the node at an id, and the whole formula
  below it;
* `Arena.text`, `Arena.holds?`: its written form and its meaning.
-/
import BoundedTemporal.Formula.Semantics
import Std.Data.TreeMap

namespace BoundedTemporal

/-- A stored node. The formula is the one that the node and its operands spell
out; it is kept because subformulas are shared. -/
structure Entry where
  node : Node NodeId
  formula : Formula

/-- The stored nodes in order, the registered atoms, and the node of each atom. -/
structure Arena where
  entries : Array Entry
  registry : AtomSet
  atomIds : Std.TreeMap Atom NodeId

namespace Arena

/-- The arena without nodes. -/
def empty : Arena :=
  ⟨#[], ∅, ∅⟩

instance : EmptyCollection Arena where
  emptyCollection := empty

/-- The number of stored nodes, which is also the next id. -/
def size (A : Arena) : Nat :=
  A.entries.size

/-- Whether no node is stored. -/
def isEmpty (A : Arena) : Bool :=
  A.size == 0

/-- Whether a node is stored at an id. -/
def contains (A : Arena) (id : NodeId) : Bool :=
  id < A.size

/-- The ids of the stored nodes, in order. -/
def ids (A : Arena) : List NodeId :=
  List.range A.size

/-- The node at an id. -/
def node? (A : Arena) (id : NodeId) : Option (Node NodeId) :=
  A.entries[id]?.map (·.node)

/-- The formula below an id. -/
def formula? (A : Arena) (id : NodeId) : Option Formula :=
  A.entries[id]?.map (·.formula)

/-- The atom at an id. -/
def atom? (A : Arena) (id : NodeId) : Option Atom :=
  match A.node? id with
  | some (.atom name) => some name
  | _ => none

/-- The registered atoms, in the order of their names. -/
def atoms (A : Arena) : List Atom :=
  A.registry.toList

/-- The written form of a formula; a missing one is shown as `<#7>`. -/
def text (A : Arena) (id : NodeId) : String :=
  match A.formula? id with
  | some f => f.text
  | none => "<" ++ id.text ++ ">"

/-- Whether the formula at an id holds at a tick of a trace. -/
def holds? (A : Arena) (id : NodeId) (tr : Trace) (t : Nat) : Option Bool :=
  (A.formula? id).map fun f => f.holds tr t

section

variable {A : Arena} {id : NodeId} {f : Formula}

theorem node?_isSome_iff : (A.node? id).isSome ↔ id < A.size := by
  simp [node?, size]

theorem text_of_formula? (h : A.formula? id = some f) : A.text id = f.text := by
  simp only [text, h]

theorem holds?_of_formula? (h : A.formula? id = some f) (tr : Trace) (t : Nat) :
    A.holds? id tr t = some (f.holds tr t) := by
  rw [holds?, h, Option.map_some]

end

end Arena

end BoundedTemporal
