/-
All traces over a list of atoms.

* `Enumeration`: the traces of a horizon on which only the listed atoms may
  hold, each given by the bits of its position;
* `Enumeration.make?`: refuses to list more than `2 ^ 20` traces.
-/
import BoundedTemporal.Trace.Basic

namespace BoundedTemporal

/-- The traces of a horizon over the listed atoms. -/
structure Enumeration where
  horizon : Horizon
  atoms : List Atom

namespace Enumeration

/-- The number of bits that tell the traces apart. -/
def bits (E : Enumeration) : Nat :=
  E.horizon.size * E.atoms.length

/-- The most bits that are enumerated. -/
def maxBits : Nat := 20

/-- The enumeration, unless it is too long. -/
def make? (H : Horizon) (atoms : List Atom) : Option Enumeration :=
  let E : Enumeration := ⟨H, atoms⟩
  if E.bits ≤ maxBits then some E else none

/-- The number of traces. -/
def size (E : Enumeration) : Nat :=
  Nat.pow 2 E.bits

/-- The trace whose bits are those of `n`. -/
def get (E : Enumeration) (n : Nat) : Trace :=
  .ofBits E.horizon E.atoms n

/-- The trace at a position, if there is one. -/
def get? (E : Enumeration) (n : Nat) : Option Trace :=
  if n < E.size then some (E.get n) else none

/-- The traces in order. -/
def toList (E : Enumeration) : List Trace :=
  (List.range E.size).map E.get

theorem getElem?_toList (E : Enumeration) (n : Nat) : E.toList[n]? = E.get? n := by
  by_cases h : n < E.size <;> simp [toList, get?, h]

end Enumeration

end BoundedTemporal
