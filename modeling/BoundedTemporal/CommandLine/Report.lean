/-
What a run prints.

* `Options.report`: the settings, the formula, its drawing if asked for, the
  constraints, the literals of the formula, and the size of the encoding;
* `Outcome`, `run`: how a run ends.
-/
import BoundedTemporal.CommandLine.Options
import BoundedTemporal.Unrolling.Basic
import BoundedTemporal.Drawing
import BoundedTemporal.Text.Quoted

namespace BoundedTemporal.CommandLine

/-- The settings on one line. -/
def Options.text (o : Options) : String :=
  s!"Cli \x7b preset: {o.preset.title}, horizon: {o.horizon}, " ++
    s!"namespace: {Text.quoted o.scope}, dot: {o.dot} \x7d"

/-- The size of an encoding on one line. -/
def statsText (s : Unrolling.Stats) : String :=
  s!"ConverterStats \x7b nodes: {s.nodes}, thetas: {s.thetas}, fresh_symbols: {s.freshSymbols}, " ++
    s!"constraints: {s.constraints}, literal_occurrences: {s.literalOccurrences} \x7d"

/-- What there is to print, each entry to be followed by a new line. -/
def Options.report (o : Options) : Except Error (List String) := do
  let horizon ← Horizon.ofInt o.horizon
  let arena := Arena.build ∅ o.preset.calls
  let root := arena.size - 1
  let unrolling := (Unrolling.ofPlan (← Plan.make arena root horizon o.scope)).apply
  let constraints ← unrolling.constraints
  let top ← unrolling.thetas root
  let drawing := if o.dot then [(arena.draw [root] {}).text] else []
  return ["args = " ++ o.text, "formula = " ++ arena.text root] ++ drawing ++
    constraints.map Constraint.text ++
    ["top = " ++ ", ".intercalate (top.map Literal.text), "stats = " ++ statsText unrolling.stats]

/-- How a run ends. -/
inductive Outcome where
  /-- The arguments cannot be read. -/
  | misused
  /-- The settings cannot be served. -/
  | failed (error : Error)
  /-- There is something to print. -/
  | printed (text : String)

/-- The exit code of an outcome. -/
def Outcome.code : Outcome → Nat
  | printed _ => 0
  | failed _ => 1
  | misused => 2

/-- The outcome of a run with the given arguments. -/
def run (args : List String) : Outcome :=
  match Options.ofArgs? args with
  | none => .misused
  | some o =>
    match o.report with
    | .error e => .failed e
    | .ok entries => .printed (String.join (entries.map (· ++ "\n")))

end BoundedTemporal.CommandLine
