/-
The formulas that the command line knows by name.

* `Preset`: one formula for each timed operator, and a response property;
* `Preset.calls`: the requests that store a preset, whose root comes last.
-/
import BoundedTemporal.Arena.Build

namespace BoundedTemporal.CommandLine

/-- The known formulas. -/
inductive Preset where
  /-- `G[1,2] a` -/
  | globally
  /-- `F[0,1] a` -/
  | eventually
  /-- `(a U[0,2] b)` -/
  | until
  /-- `(a S[1,2] b)` -/
  | since
  /-- `G[0,inf] (!req | F[1,3] ack)` -/
  | response
deriving DecidableEq, Repr

namespace Preset

/-- The preset with a name. -/
def ofName? : String → Option Preset
  | "globally" => some globally
  | "eventually" => some eventually
  | "until" => some .until
  | "since" => some since
  | "response" => some response
  | _ => none

/-- The preset as a heading. -/
def title : Preset → String
  | globally => "Globally"
  | eventually => "Eventually"
  | .until => "Until"
  | since => "Since"
  | response => "Response"

/-- The requests that store a preset. All presets begin with the atoms `a` and
`b`. -/
def calls (p : Preset) : List Call :=
  [.add (.atom "a"), .add (.atom "b")] ++
    match p with
    | globally => [.add (.globally ⟨1, .finite 2, by decide⟩ 0)]
    | eventually => [.add (.eventually ⟨0, .finite 1, by decide⟩ 0)]
    | .until => [.add (.until ⟨0, .finite 2, by decide⟩ 0 1)]
    | since => [.add (.since ⟨1, .finite 2, by decide⟩ 0 1)]
    | response =>
      [.add (.atom "req"), .add (.atom "ack"), .add (.eventually ⟨1, .finite 3, by decide⟩ 3),
        .implies 2 4, .add (.globally (.unbounded 0) 6)]

end Preset

end BoundedTemporal.CommandLine
