/-
Finite sets of atoms.

* `AtomSet`: two sets with the same members are equal, and the members are
  listed in the order of their names by code point.
-/
import BoundedTemporal.Basic
import Std.Data.ExtTreeSet

namespace BoundedTemporal

/-- A finite set of atoms, ordered by name. -/
abbrev AtomSet := Std.ExtTreeSet Atom

namespace AtomSet

/-- Puts an atom into a set or takes it out. -/
def assign (s : AtomSet) (a : Atom) (value : Bool) : AtomSet :=
  if value then s.insert a else s.erase a

theorem mem_assign {s : AtomSet} {a b : Atom} {value : Bool} :
    b ∈ s.assign a value ↔ if a = b then value = true else b ∈ s := by
  by_cases h : a = b <;> cases value <;> simp [assign, h]

end AtomSet

end BoundedTemporal
