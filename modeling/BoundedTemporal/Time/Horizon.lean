/-
Horizons: the last tick that is looked at.

* `Horizon`: the ticks `0, ..., last`, so that even horizon `0` has one tick;
* `Horizon.ofInt`: reads a horizon from a signed number.
-/
import BoundedTemporal.Error

namespace BoundedTemporal

/-- A horizon is given by its last tick. -/
structure Horizon where
  last : Nat
deriving DecidableEq, Repr

namespace Horizon

/-- A signed number is a horizon if it is a tick. -/
def ofInt (value : Int) : Except Error Horizon :=
  if value < 0 then .error (.negativeHorizon value)
  else if value > largestTick then .error (.oversizedHorizon value)
  else .ok ⟨value.toNat⟩

/-- The number of ticks. -/
def size (H : Horizon) : Nat :=
  H.last + 1

/-- Whether a tick is at most the last one. -/
def contains (H : Horizon) (t : Nat) : Bool :=
  t ≤ H.last

/-- The ticks of a horizon, in order. -/
def ticks (H : Horizon) : List Nat :=
  List.range H.size

/-- Horizons are written as `H5`. -/
def text (H : Horizon) : String :=
  "H" ++ toString H.last

theorem mem_ticks {H : Horizon} {t : Nat} : t ∈ H.ticks ↔ t ≤ H.last := by
  simp only [ticks, size, List.mem_range, Nat.lt_succ_iff]

@[simp] theorem length_ticks (H : Horizon) : H.ticks.length = H.size :=
  List.length_range

end Horizon

end BoundedTemporal
