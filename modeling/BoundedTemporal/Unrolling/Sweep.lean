/-
Comparison of the encoding with the meaning on all small traces.

* `Sweep`: the values of the root on each trace, and whether they are those of
  the formula;
* `Unrolling.sweep`: goes through all traces over a list of atoms.
-/
import BoundedTemporal.Unrolling.Valuation
import BoundedTemporal.Trace.Enumeration

namespace BoundedTemporal

/-- The values of the root at each tick of each trace. -/
structure Sweep where
  agree : Bool
  rows : List (List Bool)

namespace Unrolling

/-- The values of the root at each tick of a trace. -/
def rootValues (U : Unrolling) (tr : Trace) : Except Error (List Bool) := do
  let V ← U.evaluate tr
  return U.plan.horizon.ticks.map fun t => (V.get? U.plan.root t).getD false

/-- Whether the formula holds at each tick of a trace. -/
def rootMeaning (U : Unrolling) (tr : Trace) : List (Option Bool) :=
  U.plan.horizon.ticks.map fun t => U.plan.arena.holds? U.plan.root tr t

/-- The values of the root on all traces over the atoms, unless there are too
many of them. The traces are made one by one, once there is an encoding. -/
def sweep (U : Unrolling) (atoms : List Atom) : Except Error (Option Sweep) :=
  match Enumeration.make? U.plan.horizon atoms with
  | none => return none
  | some traces => do
    let _ ← U.encoding
    let rows ← (List.range traces.size).mapM fun n => do
      let tr := traces.get n
      let row ← U.rootValues tr
      return (row, row.map some == U.rootMeaning tr)
    return some { agree := rows.all (·.2), rows := rows.map (·.1) }

end Unrolling

end BoundedTemporal
