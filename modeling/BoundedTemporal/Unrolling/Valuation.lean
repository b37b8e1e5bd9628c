/-
The values that a trace gives to an encoding.

* `Valuation`: the value of each node at each tick;
* `Encoding.propagate`: the values on a trace, found from the definitions one
  after the other;
* `Unrolling.evaluate`: the values of an applied unrolling on a trace with the
  same horizon.
-/
import BoundedTemporal.Unrolling.Basic

namespace BoundedTemporal

/-- Values by node and tick. -/
structure Valuation where
  values : Std.HashMap (NodeId × Nat) Bool

namespace Valuation

/-- No values. -/
def empty : Valuation :=
  ⟨∅⟩

/-- The value of a node at a tick. -/
def get? (V : Valuation) (id : NodeId) (t : Nat) : Option Bool :=
  V.values[(id, t)]?

/-- The number of values. -/
def size (V : Valuation) : Nat :=
  V.values.size

/-- Whether there are no values. -/
def isEmpty (V : Valuation) : Bool :=
  V.values.isEmpty

/-- Adds the value of a node at a tick. -/
def insert (V : Valuation) (id : NodeId) (t : Nat) (value : Bool) : Valuation :=
  ⟨V.values.insert (id, t) value⟩

theorem get?_insert (V : Valuation) (id p : NodeId) (t s : Nat) (value : Bool) :
    (V.insert id t value).get? p s = if (id, t) = (p, s) then some value else V.get? p s := by
  simp only [get?, insert, Std.HashMap.getElem?_insert]
  by_cases h : (id, t) = (p, s) <;> simp [h]

/-- The value of a literal: the trace knows the atoms, and the symbols have the
values of their nodes. A symbol without a value counts as `unset`. -/
def read (V : Valuation) (tr : Trace) (unset : Bool) (l : Literal) : Bool :=
  match l.proposition with
  | .atom name => tr.holds name l.tick
  | .theta symbol => (V.get? symbol.node l.tick).getD unset

end Valuation

namespace Encoding

/-- The value of a cell: that of its definition, or of the atom. -/
def value (V : Valuation) (tr : Trace) (unset : Bool) (c : Cell) : Bool :=
  match c.definition? with
  | some definition => definition.eval (V.read tr unset)
  | none => V.read tr unset c.theta

/-- Adds the value of the cell of a node at a tick. -/
def evaluateSlot (E : Encoding) (tr : Trace) (unset : Bool) (V : Valuation)
    (slot : NodeId × Nat) : Valuation :=
  match E.cell? slot.1 slot.2 with
  | some c => V.insert slot.1 slot.2 (value V tr unset c)
  | none => V

/-- The values of cells on a trace, in the given order. -/
def propagate (E : Encoding) (tr : Trace) (unset : Bool) (slots : List (NodeId × Nat)) :
    Valuation :=
  slots.foldl (E.evaluateSlot tr unset) .empty

end Encoding

/-- The nodes at all ticks, the ticks of each node in ascending order. -/
def Plan.grid (P : Plan) : List (NodeId × Nat) :=
  P.nodes.flatMap fun id => P.horizon.ticks.map (id, ·)

/-- The values of all nodes at all ticks of a trace, which has to end at the
horizon of the unrolling. -/
def Unrolling.evaluate (U : Unrolling) (tr : Trace) : Except Error Valuation := do
  let E ← U.encoding
  if tr.horizon = U.plan.horizon then
    return E.propagate tr false U.plan.grid
  else
    throw (.horizonMismatch tr.horizon.last U.plan.horizon.last)

end BoundedTemporal
