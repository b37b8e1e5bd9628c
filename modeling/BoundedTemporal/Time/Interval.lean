/-
Timing intervals of the temporal operators, relative to the present tick.

* `Bound`: a tick or infinity;
* `Interval`: a lower tick and an upper bound that is not below it;
* `Interval.ofInts`: reads an interval from signed numbers;
* `Interval.future`, `Interval.past`: the ticks that lie in the interval after
  the present one, cut at the last tick, or before it, cut at tick zero.
-/
import BoundedTemporal.Time.Window
import BoundedTemporal.Error

namespace BoundedTemporal

/-- The upper end of an interval. -/
inductive Bound where
  | finite (tick : Nat)
  | infinite
deriving DecidableEq, Repr

namespace Bound

/-- Whether a tick is at most the bound. -/
def Admits : Bound → Nat → Prop
  | finite u, t => t ≤ u
  | infinite, _ => True

instance : (b : Bound) → (t : Nat) → Decidable (b.Admits t)
  | finite u, t => inferInstanceAs (Decidable (t ≤ u))
  | infinite, _ => isTrue trivial

/-- The tick of a finite bound. -/
def finite? : Bound → Option Nat
  | finite u => some u
  | infinite => none

/-- Infinity is written as `inf`. -/
def text : Bound → String
  | finite u => toString u
  | infinite => "inf"

@[simp] theorem admits_finite {u t : Nat} : (finite u).Admits t ↔ t ≤ u :=
  Iff.rfl

@[simp] theorem admits_infinite {t : Nat} : infinite.Admits t :=
  trivial

end Bound

/-- The distances from `lower` to `upper`, both included. -/
structure Interval where
  lower : Nat
  upper : Bound
  admits_lower : upper.Admits lower
deriving DecidableEq

namespace Interval

/-- The interval `[lower, upper]`. -/
def ofTicks (lower upper : Nat) : Except Error Interval :=
  if h : lower ≤ upper then .ok ⟨lower, .finite upper, h⟩
  else .error (.reversedBounds lower upper)

/-- The interval of all distances from `lower` on. -/
def unbounded (lower : Nat) : Interval :=
  ⟨lower, .infinite, trivial⟩

/-- A signed number is a bound if it is a tick. -/
def tickOfInt (value : Int) : Except Error Nat :=
  if value < 0 then .error (.negativeBound value)
  else if value > largestTick then .error (.oversizedBound value)
  else .ok value.toNat

/-- The interval between two signed numbers, the lower one read first; no
upper number stands for infinity. -/
def ofInts (lower : Int) (upper : Option Int) : Except Error Interval := do
  let l ← tickOfInt lower
  match upper with
  | none => return unbounded l
  | some upper => ofTicks l (← tickOfInt upper)

/-- Intervals are written as `[1,3]` and `[2,inf]`. -/
def text (I : Interval) : String :=
  "[" ++ toString I.lower ++ "," ++ I.upper.text ++ "]"

/-- The ticks `t + lower, ..., t + upper` that are at most `last`. -/
def future (I : Interval) (t last : Nat) : Window where
  start := t + I.lower
  stop := match I.upper with
    | .finite u => min (t + u) last + 1
    | .infinite => last + 1

/-- The ticks `t - upper, ..., t - lower` that are at least zero. -/
def past (I : Interval) (t : Nat) : Window where
  start := match I.upper with
    | .finite u => t - u
    | .infinite => 0
  stop := t + 1 - I.lower

/-! ### The windows as sets of ticks -/

theorem mem_future {I : Interval} {t last s : Nat} :
    s ∈ I.future t last ↔ t + I.lower ≤ s ∧ I.upper.Admits (s - t) ∧ s ≤ last := by
  rcases I with ⟨l, u | _, h⟩ <;>
    simp only [future, Window.mem_def, Bound.admits_finite, Bound.admits_infinite, true_and] <;>
    omega

theorem mem_past {I : Interval} {t s : Nat} :
    s ∈ I.past t ↔ s + I.lower ≤ t ∧ I.upper.Admits (t - s) := by
  rcases I with ⟨l, u | _, h⟩ <;>
    simp only [past, Window.mem_def, Bound.admits_finite, Bound.admits_infinite, and_true] <;>
    omega

theorem le_last_of_mem_future {I : Interval} {t last s : Nat} (h : s ∈ I.future t last) :
    s ≤ last :=
  (mem_future.mp h).2.2

theorem le_of_mem_past {I : Interval} {t s : Nat} (h : s ∈ I.past t) : s ≤ t :=
  Nat.le_trans (Nat.le_add_right s I.lower) (mem_past.mp h).1

end Interval

end BoundedTemporal
