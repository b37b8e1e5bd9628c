/-
What is said on the command line.

* `Options`: a preset, a horizon, a scope, and whether to draw the formula;
* `Options.ofArgs?`: reads the arguments. Options start with two hyphens, their
  values follow as the next argument or after an equals sign, nothing is said
  twice, and after a bare `--` there are no more options.
-/
import BoundedTemporal.CommandLine.Preset
import BoundedTemporal.Encoding.Plan

namespace BoundedTemporal.CommandLine

/-- The settings of a run. -/
structure Options where
  preset : Preset
  horizon : Int
  scope : String
  dot : Bool
deriving DecidableEq, Repr

/-! ### Numbers -/

/-- The number that decimal digits stand for, if there are any and nothing
else. -/
def readDigits? (digits : List Char) : Option Nat :=
  if !digits.isEmpty && digits.all Char.isDigit then
    some (digits.foldl (fun n c => 10 * n + (c.toNat - '0'.toNat)) 0)
  else none

/-- A whole number with an optional sign, before its size is checked. -/
def readSigned? : List Char → Option Int
  | '-' :: digits => (readDigits? digits).map fun n => -(n : Int)
  | '+' :: digits => (readDigits? digits).map Int.ofNat
  | digits => (readDigits? digits).map Int.ofNat

/-- A whole number with an optional sign that fits into 64 bits. -/
def readInt? (s : String) : Option Int :=
  (readSigned? s.toList).filter fun n => -Int.pow 2 63 ≤ n && n < Int.pow 2 63

/-! ### Arguments -/

/-- An argument by its form. -/
inductive Token where
  /-- Options end here. -/
  | stop
  /-- An option by itself. -/
  | option (name : String)
  /-- An option with a value after an equals sign. -/
  | assignment (name value : String)
  /-- A cluster of one-letter options. -/
  | letters
  /-- Anything else. -/
  | word (text : String)
deriving DecidableEq, Repr

/-- The form of an argument; a single hyphen is a word. -/
def Token.ofArg (arg : String) : Token :=
  match arg.toList with
  | ['-', '-'] => .stop
  | '-' :: '-' :: body =>
    match body.span (· != '=') with
    | (name, []) => .option (String.ofList name)
    | (name, _ :: value) => .assignment (String.ofList name) (String.ofList value)
  | '-' :: _ :: _ => .letters
  | _ => .word arg

/-- The options that take a value. -/
inductive Key where
  | horizon
  | scope
deriving DecidableEq, Repr

/-- The option with a name. -/
def Key.ofName? : String → Option Key
  | "horizon" => some horizon
  | "namespace" => some scope
  | _ => none

/-- Whether an argument can be the value of the option before it: it must not
look like an option, but a horizon may be a negative number. -/
def Key.accepts (k : Key) (arg : String) : Bool :=
  match Token.ofArg arg with
  | .word _ => true
  | .letters => k == .horizon && (readInt? arg).isSome
  | _ => false

/-- What has been said so far. -/
structure Given where
  preset : Option Preset := none
  horizon : Option Int := none
  scope : Option String := none
  dot : Bool := false

namespace Given

/-- Names the preset, once. -/
def setPreset (g : Given) (word : String) : Option Given :=
  if g.preset.isSome then none
  else (Preset.ofName? word).map fun p => { g with preset := some p }

/-- Gives an option its value, once. -/
def setValue (g : Given) (k : Key) (value : String) : Option Given :=
  match k with
  | .horizon =>
    if g.horizon.isSome then none else (readInt? value).map fun n => { g with horizon := some n }
  | .scope => if g.scope.isSome then none else some { g with scope := some value }

/-- Asks for a drawing, once. -/
def setDot (g : Given) : Option Given :=
  if g.dot then none else some { g with dot := true }

/-- Reads the remaining arguments. -/
def readArgs (g : Given) : List String → Option Given
  | [] => some g
  | arg :: rest =>
    match Token.ofArg arg with
    | .stop => rest.foldlM setPreset g
    | .letters => none
    | .word text => do (← g.setPreset text).readArgs rest
    | .assignment name value => do
      let key ← Key.ofName? name
      (← g.setValue key value).readArgs rest
    | .option "dot" => do (← g.setDot).readArgs rest
    | .option name =>
      match Key.ofName? name, rest with
      | some key, value :: rest =>
        if key.accepts value then do (← g.setValue key value).readArgs rest else none
      | _, _ => none

/-- The settings, with what has not been said filled in. -/
def options (g : Given) : Options where
  preset := g.preset.getD .response
  horizon := g.horizon.getD 5
  scope := g.scope.getD Plan.defaultScope
  dot := g.dot

end Given

/-- The settings that the arguments ask for, if they can be read. -/
def Options.ofArgs? (args : List String) : Option Options :=
  (Given.readArgs {} args).map Given.options

end BoundedTemporal.CommandLine
