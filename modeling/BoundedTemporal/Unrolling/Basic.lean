/-
Unrollings: a plan, and its encoding once it has been applied.

* `Unrolling.apply`: encodes the formula, once;
* `Unrolling.events`: what applying it would tell;
* `Unrolling.cell`, `theta`, `thetas`, `definition?`: the literals of a node
  and their definitions;
* `Unrolling.constraints`, `symbols`, `stats`: the encoding as a whole.

A question about an unrolling that has not been applied has no answer yet;
after that the node is checked first, and the tick second.
-/
import BoundedTemporal.Encoding.Event

namespace BoundedTemporal

/-- A plan with the encoding it leads to, once that has been asked for. -/
structure Unrolling where
  plan : Plan
  encoding? : Option Encoding

/-- The size of an encoding. -/
structure Unrolling.Stats where
  /-- Nodes of the formula. -/
  nodes : Nat
  /-- Literals that stand for a node at a tick, atoms included. -/
  thetas : Nat
  /-- Different symbols that are defined. -/
  freshSymbols : Nat
  /-- Constraints, one for each defined literal. -/
  constraints : Nat
  /-- Occurrences of literals in all definitions. -/
  literalOccurrences : Nat
deriving DecidableEq, Repr

namespace Unrolling

/-- The unrolling of a plan, not applied yet. -/
def ofPlan (P : Plan) : Unrolling :=
  ⟨P, none⟩

/-- Whether the formula has been encoded. -/
def isApplied (U : Unrolling) : Bool :=
  U.encoding?.isSome

/-- Encodes the formula, unless that has been done. -/
def apply (U : Unrolling) : Unrolling :=
  match U.encoding? with
  | some _ => U
  | none => { U with encoding? := U.plan.encode? }

/-- What there is to tell about the next application. -/
def events (U : Unrolling) : List Event :=
  match U.encoding? with
  | some _ => [.skipped U.plan.root]
  | none => (U.plan.encode?.map U.plan.events).getD []

/-- The encoding, once there is one. -/
def encoding (U : Unrolling) : Except Error Encoding :=
  match U.encoding? with
  | some E => .ok E
  | none => .error .notReady

/-! ### Questions about a node -/

/-- The cell of a node at a tick. Where there is none, either the node or the
tick is at fault. -/
def cell (U : Unrolling) (id : NodeId) (t : Nat) : Except Error Cell := do
  let E ← U.encoding
  match E.cell? id t with
  | some c => return c
  | none =>
    if id ∈ U.plan.nodes then throw (.tickOutOfRange t U.plan.horizon.last)
    else throw (.unknownFormula id)

/-- The literal of a node at a tick. -/
def theta (U : Unrolling) (id : NodeId) (t : Nat) : Except Error Literal :=
  return (← U.cell id t).theta

/-- The literals of a node at all ticks. The ticks are only listed once there is
an encoding, since a horizon may be far away. -/
def thetas (U : Unrolling) (id : NodeId) : Except Error (List Literal) := do
  let _ ← U.encoding
  U.plan.horizon.ticks.mapM (U.theta id)

/-- The definition of the literal of a node at a tick; an atom has none. -/
def definition? (U : Unrolling) (id : NodeId) (t : Nat) : Except Error (Option (Expr Literal)) :=
  return (← U.cell id t).definition?

/-! ### Questions about the encoding -/

/-- The constraints, operands before the nodes that use them. -/
def constraints (U : Unrolling) : Except Error (List Constraint) :=
  return (← U.encoding).constraints.toList

/-- The symbols that the constraints define. -/
def symbols (U : Unrolling) : Except Error (List Symbol) := do
  let _ ← U.encoding
  return U.plan.operators.map fun id => ⟨U.plan.scope, id⟩

/-- The nodes whose symbol is defined by a constraint. -/
def definedNodes (E : Encoding) : NodeSet :=
  .ofList (E.constraints.toList.filterMap fun c => c.theta.proposition.symbol?.map (·.node))

/-- The size of the encoding; before it is made only the nodes are counted. -/
def stats (U : Unrolling) : Stats :=
  let E := U.encoding?.getD .empty
  { nodes := U.plan.nodes.length
    thetas := E.cells.size
    freshSymbols := (definedNodes E).size
    constraints := E.constraints.size
    literalOccurrences := (E.constraints.toList.flatMap fun c => c.definition.lits).length }

end Unrolling

end BoundedTemporal
