/-
Traces: which atoms hold at each tick up to a horizon.

* `Trace`: one set of atoms for each tick; two traces are equal when they have
  the same horizon and the same atoms hold at the same ticks;
* `Trace.holds`: nothing holds past the horizon;
* `Trace.set`: changes one atom at one tick;
* `Trace.ofBits`: reads a trace from a number, one bit for each atom and tick.
-/
import BoundedTemporal.Atoms
import BoundedTemporal.Time.Horizon

namespace BoundedTemporal

/-- The atoms that hold at each tick of the horizon. -/
structure Trace where
  horizon : Horizon
  states : Vector AtomSet horizon.size
deriving DecidableEq

namespace Trace

/-- The trace on which no atom ever holds. -/
def empty (H : Horizon) : Trace :=
  ⟨H, Vector.replicate H.size ∅⟩

/-- Whether an atom holds at a tick. -/
def holds (tr : Trace) (a : Atom) (t : Nat) : Bool :=
  match tr.states[t]? with
  | some state => state.contains a
  | none => false

/-- Makes an atom hold, or not hold, at one tick. -/
def set (tr : Trace) (a : Atom) (t : Nat) (value : Bool) : Except Error Trace :=
  if h : t < tr.horizon.size then
    .ok ⟨tr.horizon, tr.states.set t (tr.states[t].assign a value) h⟩
  else
    .error (.tickOutOfRange t tr.horizon.last)

/-- The number of bits in a word; a pattern has no bits beyond. -/
def wordSize : Nat := 64

/-- The atoms whose bit is set, where the bits of a tick start at `first` and
follow the order of the atoms. -/
def stateOfBits (atoms : List Atom) (bits first : Nat) : AtomSet :=
  .ofList ((atoms.zipIdx first).filterMap fun (a, bit) =>
    if bit < wordSize && bits.testBit bit then some a else none)

/-- The trace in which `atoms[i]` holds at `t` when bit `t * n + i` is set,
where `n` is the number of atoms. -/
def ofBits (H : Horizon) (atoms : List Atom) (bits : Nat) : Trace :=
  ⟨H, Vector.ofFn fun t => stateOfBits atoms bits (t * atoms.length)⟩

/-- The atoms that hold at each tick, in order. -/
def toLists (tr : Trace) : List (List Atom) :=
  tr.states.toList.map (·.toList)

/-! ### What the operations do to the cells -/

theorem holds_of_lt {tr : Trace} {a : Atom} {t : Nat} (h : t < tr.horizon.size) :
    tr.holds a t = tr.states[t].contains a := by
  simp [holds, h]

theorem holds_of_last_lt {tr : Trace} {a : Atom} {t : Nat} (h : tr.horizon.last < t) :
    tr.holds a t = false := by
  have : ¬ t < tr.horizon.size := Nat.not_lt.mpr h
  simp [holds, this]

@[simp] theorem holds_empty (H : Horizon) (a : Atom) (t : Nat) : (empty H).holds a t = false := by
  by_cases h : t < H.size
  · rw [holds_of_lt h]; simp [empty]
  · exact holds_of_last_lt (Nat.not_lt.mp h)

/-- A change is seen at its own atom and tick, and nowhere else. -/
theorem holds_set {tr tr' : Trace} {a b : Atom} {t s : Nat} {value : Bool}
    (h : tr.set a t value = .ok tr') :
    tr'.holds b s = if a = b ∧ t = s then value else tr.holds b s := by
  unfold set at h
  split at h
  · rename_i ht
    cases h
    by_cases hts : t = s
    · subst hts
      rw [Bool.eq_iff_iff]
      by_cases hab : a = b <;> simp [holds, AtomSet.mem_assign, hab, ht]
    · simp [holds, hts]
  · cases h

/-- Two traces of one horizon are equal when the same atoms hold at the same
ticks. -/
theorem ext_holds {s t : Trace} (hH : s.horizon = t.horizon)
    (h : ∀ a k, s.holds a k = t.holds a k) : s = t := by
  obtain ⟨H, ss⟩ := s
  obtain ⟨K, ts⟩ := t
  cases hH
  congr 1
  ext i hi a
  have key := h a i
  rw [holds_of_lt hi, holds_of_lt hi] at key
  simpa using congrArg (· = true) key

end Trace

end BoundedTemporal
