/-
What is to be encoded, and in which order.

* `Plan`: a stored formula, a horizon, and a scope for the fresh symbols;
* `Plan.make`: accepts a stored formula and a scope that is not empty, unless
  an atom of the formula is named like a symbol of the scope;
* `Plan.slots`: the nodes of the formula at each tick, operands first; nodes
  that look into the future are taken from the last tick backward.
-/
import BoundedTemporal.Arena.Reach

namespace BoundedTemporal

/-- A formula to encode. The nodes are those below the root, operands before
the nodes that use them. -/
structure Plan where
  arena : Arena
  root : NodeId
  horizon : Horizon
  scope : String
  nodes : List NodeId

namespace Plan

/-- The scope of symbols where none is chosen. -/
def defaultScope : String := "theta"

/-- Whether a name consists of the scope and at least one digit, and nothing
else. -/
def isSymbolName (scope : String) (name : Atom) : Bool :=
  match scope.toList.isPrefixOf? name.toList with
  | some digits => !digits.isEmpty && digits.all Char.isDigit
  | none => false

/-- Checks the formula, then the scope, then the atoms of the formula in the
order of their names. -/
def make (A : Arena) (root : NodeId) (H : Horizon) (scope : String) : Except Error Plan :=
  if !A.contains root then .error (.missingFormula root)
  else if scope.isEmpty then .error .emptyScope
  else match (A.atomsOf root).toList.find? (isSymbolName scope) with
    | some name => .error (.scopeClash name scope)
    | none => .ok ⟨A, root, H, scope, A.descendants root⟩

/-- The ticks at which a node is encoded, in order. -/
def ticksOf (P : Plan) (id : NodeId) : List Nat :=
  if (P.arena.node? id).any (·.isFuture) then P.horizon.ticks.reverse else P.horizon.ticks

/-- The nodes and ticks in the order in which they are encoded. -/
def slots (P : Plan) : List (NodeId × Nat) :=
  P.nodes.flatMap fun id => (P.ticksOf id).map (id, ·)

/-- The nodes that are not atoms. -/
def operators (P : Plan) : List NodeId :=
  P.nodes.filter fun id => (P.arena.atom? id).isNone

end Plan

end BoundedTemporal
