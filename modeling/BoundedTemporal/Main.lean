/-
The command line.

* `main`: prints the encoding of a preset formula, and how long it took.
-/
import BoundedTemporal.CommandLine.Report

namespace BoundedTemporal.CommandLine

/-- How the program is called. -/
def usage : String :=
  "Usage: [globally|eventually|until|since|response] [--horizon INT] [--namespace TEXT] [--dot]"

/-- A number of milliseconds as seconds with three places. -/
def secondsText (ms : Nat) : String :=
  let places := toString (ms % 1000)
  toString (ms / 1000) ++ "." ++ "".pushn '0' (3 - places.length) ++ places

end BoundedTemporal.CommandLine

open BoundedTemporal.CommandLine in
/-- Prints the encoding that the arguments ask for. -/
def main (args : List String) : IO UInt32 := do
  let start ← IO.monoMsNow
  let outcome := run args
  match outcome with
  | .printed text =>
    IO.print text
    IO.println ("\nAll done in " ++ secondsText ((← IO.monoMsNow) - start) ++ " s")
  | .failed error => IO.eprintln ("Error: " ++ error.message)
  | .misused => IO.eprintln usage
  return outcome.code.toUInt32
