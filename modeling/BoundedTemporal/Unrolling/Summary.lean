/-
A short description of an unrolling.

* `Unrolling.summary`: root, horizon, scope, sizes and state, on one line.
-/
import BoundedTemporal.Unrolling.Basic
import BoundedTemporal.Text.Quoted

namespace BoundedTemporal.Unrolling

/-- Root, horizon, scope, sizes and state of an unrolling. -/
def summary (U : Unrolling) : String :=
  s!"Converter \x7b root: FormulaId({U.plan.root}), horizon: Horizon({U.plan.horizon.last}), " ++
    s!"namespace: {Text.quoted U.plan.scope}, nodes: {U.plan.nodes.length}, " ++
    s!"constraints: {U.stats.constraints}, applied: {U.isApplied} \x7d"

end BoundedTemporal.Unrolling
