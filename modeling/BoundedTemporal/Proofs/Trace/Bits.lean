/-
Traces as numbers.

* `Trace.holds_ofBits_iff`: what a trace that is read from a number shows;
* `Trace.bitsOf`: the number that says which of the listed atoms hold, and when.
  `Trace.holds_ofBits_bitsOf_iff`: what is read from it is the trace without all other
  atoms, if the bits fit into a word;
* `Enumeration.exists_mem_of_horizon_eq`: every trace of the horizon is enumerated, as far
  as the listed atoms go.
-/
import BoundedTemporal.Trace.Enumeration
import Mathlib.Data.Nat.Bitwise

namespace BoundedTemporal

namespace Trace

variable {tr : Trace} {H : Horizon} {atoms : List Atom} {a : Atom} {bits i t : Nat}

/-! ### Reading a trace from a number -/

lemma mem_stateOfBits_iff {first : Nat} : a ∈ stateOfBits atoms bits first ↔
    ∃ i, atoms[i]? = some a ∧ first + i < wordSize ∧ bits.testBit (first + i) = true := by
  simp only [stateOfBits, Std.ExtTreeSet.mem_ofList, List.contains_iff_mem, List.mem_filterMap,
    Prod.exists, List.mk_mem_zipIdx_iff_le_and_getElem?_sub, Option.ite_none_right_eq_some,
    Option.some.injEq, Bool.and_eq_true, decide_eq_true_eq]
  constructor
  · rintro ⟨a, bit, ⟨le, found⟩, ⟨inside, set⟩, rfl⟩
    refine ⟨bit - first, found, ?_⟩
    rw [Nat.add_sub_cancel' le]
    exact ⟨inside, set⟩
  · rintro ⟨i, found, inside, set⟩
    refine ⟨a, first + i, ⟨Nat.le_add_right first i, ?_⟩, ⟨inside, set⟩, rfl⟩
    rwa [Nat.add_sub_cancel_left]

/-- **The bits of a number as a trace**: an atom holds at a tick of the horizon when the bit
of that tick is set for one of its places in the list. -/
lemma holds_ofBits_iff : (ofBits H atoms bits).holds a t = true ↔
    t ≤ H.last ∧ ∃ i, atoms[i]? = some a ∧ t * atoms.length + i < wordSize
      ∧ bits.testBit (t * atoms.length + i) = true := by
  by_cases ht : t < H.size
  · have state : (ofBits H atoms bits).holds a t
        = (stateOfBits atoms bits (t * atoms.length)).contains a := by
      rw [holds_of_lt ht]
      simp [ofBits]
    rw [state, Std.ExtTreeSet.contains_iff_mem, mem_stateOfBits_iff]
    exact (and_iff_right (Nat.le_of_lt_succ ht)).symm
  · have past : (ofBits H atoms bits).holds a t = false :=
      holds_of_last_lt (Nat.lt_of_succ_le (Nat.not_lt.mp ht))
    rw [past]
    exact iff_of_false Bool.false_ne_true fun h => ht (Nat.lt_succ_of_le h.1)

/-! ### Writing a trace as a number -/

/-- The number whose bits say which of the listed atoms hold at which ticks. -/
def bitsOf (tr : Trace) (atoms : List Atom) : Nat :=
  Nat.ofBits fun bit : Fin (tr.horizon.size * atoms.length) =>
    atoms[bit.val % atoms.length]?.any fun a => tr.holds a (bit.val / atoms.length)

lemma bitsOf_lt (tr : Trace) (atoms : List Atom) :
    tr.bitsOf atoms < 2 ^ (tr.horizon.size * atoms.length) :=
  Nat.ofBits_lt_two_pow _

/-- The bits of a tick lie before those of the next one. -/
lemma bit_lt (hi : i < atoms.length) (ht : t ≤ H.last) :
    t * atoms.length + i < H.size * atoms.length := by
  calc t * atoms.length + i < t * atoms.length + atoms.length := by omega
    _ = (t + 1) * atoms.length := (Nat.succ_mul t atoms.length).symm
    _ ≤ H.size * atoms.length := Nat.mul_le_mul_right _ (Nat.succ_le_succ ht)

lemma testBit_bitsOf (found : atoms[i]? = some a) (ht : t ≤ tr.horizon.last) :
    (tr.bitsOf atoms).testBit (t * atoms.length + i) = tr.holds a t := by
  obtain ⟨hi, -⟩ := List.getElem?_eq_some_iff.mp found
  have place : (t * atoms.length + i) % atoms.length = i := by
    rw [Nat.mul_comm, Nat.mul_add_mod, Nat.mod_eq_of_lt hi]
  have tick : (t * atoms.length + i) / atoms.length = t := by
    rw [Nat.mul_comm, Nat.mul_add_div (by omega), Nat.div_eq_of_lt hi, Nat.add_zero]
  rw [bitsOf, Nat.testBit_ofBits_lt _ _ (bit_lt hi ht)]
  simp only [place, tick, found, Option.any_some]

/-- **What is written as a number is read back**, as far as the listed atoms go. An atom may be
listed more than once. -/
theorem holds_ofBits_bitsOf_iff (fits : tr.horizon.size * atoms.length ≤ wordSize) :
    (ofBits tr.horizon atoms (tr.bitsOf atoms)).holds a t = true
      ↔ a ∈ atoms ∧ tr.holds a t = true := by
  rw [holds_ofBits_iff]
  constructor
  · rintro ⟨ht, i, found, -, set⟩
    rw [testBit_bitsOf found ht] at set
    exact ⟨List.mem_of_getElem? found, set⟩
  · rintro ⟨mem, holds⟩
    have ht : t ≤ tr.horizon.last := by
      by_contra late
      rw [holds_of_last_lt (Nat.not_le.mp late)] at holds
      cases holds
    obtain ⟨i, found⟩ := List.mem_iff_getElem?.mp mem
    obtain ⟨hi, -⟩ := List.getElem?_eq_some_iff.mp found
    refine ⟨ht, i, found, Nat.lt_of_lt_of_le (bit_lt hi ht) fits, ?_⟩
    rw [testBit_bitsOf found ht, holds]

end Trace

/-! ### Enumerations -/

namespace Enumeration

variable {E : Enumeration} {H : Horizon} {atoms : List Atom} {tr : Trace}

lemma make?_eq_some_iff :
    make? H atoms = some E ↔ H.size * atoms.length ≤ maxBits ∧ E = ⟨H, atoms⟩ := by
  rw [make?, Option.ite_none_right_eq_some, Option.some.injEq, @eq_comm Enumeration E]
  rfl

lemma mem_toList_iff : tr ∈ E.toList ↔ ∃ n < 2 ^ E.bits, Trace.ofBits E.horizon E.atoms n = tr := by
  simp only [toList, List.mem_map, List.mem_range]
  rfl

lemma horizon_of_mem_toList (h : tr ∈ E.toList) : tr.horizon = E.horizon := by
  obtain ⟨n, -, rfl⟩ := mem_toList_iff.mp h
  rfl

/-- **Every trace is enumerated**, as far as the listed atoms go. -/
theorem exists_mem_of_horizon_eq (made : make? H atoms = some E) (horizon : tr.horizon = H) :
    ∃ tr' ∈ E.toList, ∀ a ∈ atoms, ∀ t, tr'.holds a t = tr.holds a t := by
  obtain ⟨short, rfl⟩ := make?_eq_some_iff.mp made
  cases horizon
  have fits : tr.horizon.size * atoms.length ≤ Trace.wordSize := Nat.le_trans short (by decide)
  refine ⟨_, mem_toList_iff.mpr ⟨tr.bitsOf atoms, tr.bitsOf_lt atoms, rfl⟩, fun a ha t => ?_⟩
  rw [Bool.eq_iff_iff, Trace.holds_ofBits_bitsOf_iff fits]
  exact and_iff_right ha

end Enumeration

end BoundedTemporal
