/-
Windows: stretches of consecutive ticks.

* `Window`: the ticks from `start` up to, but not including, `stop`; it is
  empty when `stop` does not lie after `start`;
* `Window.ticks`: the ticks of a window, in order;
* `Window.all`, `Window.any`: tests over a window that look at no more ticks
  than they need;
* `Window.bounds?`: the first and the last tick, if there is one.
-/
import BoundedTemporal.Basic

namespace BoundedTemporal

/-- The ticks `t` with `start ≤ t < stop`. -/
structure Window where
  start : Nat
  stop : Nat
deriving DecidableEq, Repr

namespace Window

instance : Membership Nat Window where
  mem w t := w.start ≤ t ∧ t < w.stop

theorem mem_def {w : Window} {t : Nat} : t ∈ w ↔ w.start ≤ t ∧ t < w.stop :=
  Iff.rfl

instance (t : Nat) (w : Window) : Decidable (t ∈ w) :=
  decidable_of_iff _ mem_def.symm

/-- The number of ticks. -/
def size (w : Window) : Nat :=
  w.stop - w.start

/-- The ticks of a window, in order. -/
def ticks (w : Window) : List Nat :=
  List.range' w.start w.size

/-- The first and the last tick of a window that is not empty. -/
def bounds? (w : Window) : Option (Nat × Nat) :=
  if w.start < w.stop then some (w.start, w.stop - 1) else none

/-- Whether `p` holds at each of `n` ticks from `t` on. -/
def allFrom (p : Nat → Bool) : Nat → Nat → Bool
  | 0, _ => true
  | n + 1, t => p t && allFrom p n (t + 1)

/-- Whether `p` holds at one of `n` ticks from `t` on. -/
def anyFrom (p : Nat → Bool) : Nat → Nat → Bool
  | 0, _ => false
  | n + 1, t => p t || anyFrom p n (t + 1)

/-- Whether `p` holds at every tick of the window. -/
def all (w : Window) (p : Nat → Bool) : Bool :=
  allFrom p w.size w.start

/-- Whether `p` holds at some tick of the window. -/
def any (w : Window) (p : Nat → Bool) : Bool :=
  anyFrom p w.size w.start

/-! ### The tests in terms of the ticks -/

theorem mem_ticks {w : Window} {t : Nat} : t ∈ w.ticks ↔ t ∈ w := by
  simp only [ticks, size, List.mem_range'_1, mem_def]
  omega

@[simp] theorem length_ticks (w : Window) : w.ticks.length = w.size :=
  List.length_range'

theorem allFrom_eq (p : Nat → Bool) (n : Nat) (t : Nat) :
    allFrom p n t = (List.range' t n).all p := by
  induction n generalizing t with
  | zero => rfl
  | succ n ih => simp [allFrom, ih, List.range'_succ]

theorem anyFrom_eq (p : Nat → Bool) (n : Nat) (t : Nat) :
    anyFrom p n t = (List.range' t n).any p := by
  induction n generalizing t with
  | zero => rfl
  | succ n ih => simp [anyFrom, ih, List.range'_succ]

theorem all_eq_ticks (w : Window) (p : Nat → Bool) : w.all p = w.ticks.all p :=
  allFrom_eq p w.size w.start

theorem any_eq_ticks (w : Window) (p : Nat → Bool) : w.any p = w.ticks.any p :=
  anyFrom_eq p w.size w.start

theorem all_iff {w : Window} {p : Nat → Bool} :
    w.all p = true ↔ ∀ t ∈ w, p t = true := by
  simp [all_eq_ticks, List.all_eq_true, mem_ticks]

theorem any_iff {w : Window} {p : Nat → Bool} :
    w.any p = true ↔ ∃ t ∈ w, p t = true := by
  simp [any_eq_ticks, List.any_eq_true, mem_ticks]

end Window

end BoundedTemporal
