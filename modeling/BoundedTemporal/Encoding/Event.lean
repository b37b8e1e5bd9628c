/-
What happens while a formula is encoded, for a log.

* `Event`: the steps that are worth telling;
* `Event.level`, `Event.message`: how important a step is, and how it is told;
* `Plan.events`: the steps that lead to an encoding.
-/
import BoundedTemporal.Encoding.Table

namespace BoundedTemporal

/-- The importance of an event. -/
inductive Event.Level where
  | debug
  | trace
deriving DecidableEq, Repr

/-- A step of the encoding. -/
inductive Event where
  /-- The formula has been encoded before. -/
  | skipped (root : NodeId)
  /-- A formula with so many nodes is about to be encoded. -/
  | started (formula : String) (nodes last : Nat)
  /-- A literal has been defined. -/
  | defined (constraint : Constraint)
  /-- A node has been encoded at all ticks. -/
  | translated (id : NodeId) (formula : String)
  /-- All nodes have been encoded. -/
  | finished (thetas constraints : Nat)

namespace Event

/-- Only the single definitions are of the lower level. -/
def level : Event → Level
  | defined _ => .trace
  | _ => .debug

/-- The name of a level. -/
def Level.text : Level → String
  | debug => "DEBUG"
  | trace => "TRACE"

/-- The event in words. -/
def message : Event → String
  | skipped root => s!"apply: {root.text} already translated, skipping"
  | started formula nodes last =>
    s!"apply: translating {formula} ({nodes} nodes) up to tick {last}"
  | defined constraint => constraint.text
  | translated id formula => s!"translated {id.text} = {formula}"
  | finished thetas constraints => s!"apply: done, {thetas} thetas, {constraints} constraints"

/-- A line of the log. -/
def line (e : Event) : String :=
  e.level.text ++ " " ++ e.message

end Event

namespace Plan

/-- The definitions of a node in the order in which they were found, and the
end of its encoding. Atoms take no steps. -/
def nodeEvents (P : Plan) (E : Encoding) (id : NodeId) : List Event :=
  if (P.arena.atom? id).isSome then []
  else
    (P.ticksOf id).filterMap (fun t => ((E.cell? id t).bind Cell.constraint?).map .defined) ++
      [.translated id (P.arena.text id)]

/-- The steps that lead to an encoding. -/
def events (P : Plan) (E : Encoding) : List Event :=
  .started (P.arena.text P.root) P.nodes.length P.horizon.last ::
    (P.nodes.flatMap (P.nodeEvents E) ++ [.finished E.cells.size E.constraints.size])

end Plan

end BoundedTemporal
