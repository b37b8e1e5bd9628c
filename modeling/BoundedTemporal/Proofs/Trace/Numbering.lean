/-
Traces and numbers correspond one to one.

As long as no atom is listed twice, each bit of a number belongs to one atom at one tick.

* `Trace.Over`: the traces of a horizon on which nothing but the listed atoms ever holds;
* `Trace.holds_ofBits_getElem?_iff`: an atom holds at a tick exactly when its own bit is set;
* `Trace.ofBits_inj`, `Trace.Over.ofBits_bitsOf`: different numbers are different traces, and
  every trace over the listed atoms has its number;
* `Enumeration.mem_toList_iff_over`, `Enumeration.nodup_toList`: an enumeration lists each of
  these traces once;
* `Trace.numbered`: all of this, for every horizon and every list of different atoms.
-/
import BoundedTemporal.Proofs.Trace.Bits
import Mathlib.Data.List.Nodup

namespace BoundedTemporal

namespace Trace

variable {tr : Trace} {H : Horizon} {atoms : List Atom} {a : Atom} {bits bits' bit i t : Nat}

/-- The trace has the given horizon, and nothing but the listed atoms ever holds on it. -/
structure Over (tr : Trace) (H : Horizon) (atoms : List Atom) : Prop where
  horizon : tr.horizon = H
  listed : ∀ a t, tr.holds a t = true → a ∈ atoms

/-! ### One bit for each atom and tick -/

lemma over_ofBits (H : Horizon) (atoms : List Atom) (bits : Nat) :
    (ofBits H atoms bits).Over H atoms where
  horizon := rfl
  listed a t h := by
    obtain ⟨-, i, found, -⟩ := holds_ofBits_iff.mp h
    exact List.mem_of_getElem? found

/-- An atom that is listed once holds at a tick exactly when its own bit of that tick is set. -/
lemma holds_ofBits_getElem?_iff (distinct : atoms.Nodup) (found : atoms[i]? = some a) :
    (ofBits H atoms bits).holds a t = true ↔
      t ≤ H.last ∧ t * atoms.length + i < wordSize
        ∧ bits.testBit (t * atoms.length + i) = true := by
  rw [holds_ofBits_iff]
  refine and_congr_right fun _ => ⟨?_, fun h => ⟨i, found, h⟩⟩
  rintro ⟨j, found', h⟩
  obtain ⟨hj, -⟩ := List.getElem?_eq_some_iff.mp found'
  have same : j = i := (List.getElem?_inj hj distinct).mp (found'.trans found.symm)
  rwa [same] at h

/-- Every bit that tells the traces apart is that of an atom at a tick. -/
lemma exists_cell (inside : bit < H.size * atoms.length) :
    ∃ i a t, atoms[i]? = some a ∧ t ≤ H.last ∧ t * atoms.length + i = bit := by
  have nonempty : 0 < atoms.length := by
    by_contra none
    rw [Nat.eq_zero_of_not_pos none] at inside
    exact Nat.not_lt_zero bit inside
  have place : bit % atoms.length < atoms.length := Nat.mod_lt bit nonempty
  have tick : bit / atoms.length < H.size :=
    Nat.div_lt_of_lt_mul (by rwa [Nat.mul_comm])
  exact ⟨_, _, _, List.getElem?_eq_getElem place, Nat.le_of_lt_succ tick, Nat.div_add_mod' bit _⟩

/-! ### One number for each trace -/

section

variable (fits : H.size * atoms.length ≤ wordSize)
include fits

/-- If the bits of all ticks fit into a word, none of them is cut off. -/
lemma testBit_eq_holds_ofBits (distinct : atoms.Nodup) (found : atoms[i]? = some a)
    (ht : t ≤ H.last) :
    bits.testBit (t * atoms.length + i) = (ofBits H atoms bits).holds a t := by
  obtain ⟨hi, -⟩ := List.getElem?_eq_some_iff.mp found
  have inside : t * atoms.length + i < wordSize := Nat.lt_of_lt_of_le (bit_lt hi ht) fits
  rw [Bool.eq_iff_iff, holds_ofBits_getElem?_iff distinct found]
  exact ⟨fun h => ⟨ht, inside, h⟩, fun h => h.2.2⟩

/-- **Different numbers are different traces.** -/
lemma ofBits_inj (distinct : atoms.Nodup) (hb : bits < 2 ^ (H.size * atoms.length))
    (hb' : bits' < 2 ^ (H.size * atoms.length)) :
    ofBits H atoms bits = ofBits H atoms bits' ↔ bits = bits' := by
  refine ⟨fun same => Nat.eq_of_testBit_eq fun bit => ?_, fun h => by rw [h]⟩
  by_cases inside : bit < H.size * atoms.length
  · obtain ⟨i, a, t, found, ht, rfl⟩ := exists_cell inside
    rw [testBit_eq_holds_ofBits fits distinct found ht,
      testBit_eq_holds_ofBits fits distinct found ht, same]
  · -- neither number has so many bits
    have le : 2 ^ (H.size * atoms.length) ≤ 2 ^ bit :=
      Nat.pow_le_pow_right Nat.two_pos (Nat.not_lt.mp inside)
    rw [Nat.testBit_lt_two_pow (Nat.lt_of_lt_of_le hb le),
      Nat.testBit_lt_two_pow (Nat.lt_of_lt_of_le hb' le)]

/-- **A trace over the listed atoms is the one that its number gives.** -/
lemma Over.ofBits_bitsOf (htr : tr.Over H atoms) : ofBits H atoms (tr.bitsOf atoms) = tr := by
  obtain ⟨rfl, listed⟩ := htr
  refine ext_holds rfl fun a t => ?_
  rw [Bool.eq_iff_iff, holds_ofBits_bitsOf_iff fits]
  exact and_iff_right_of_imp (listed a t)

/-- Every trace over the listed atoms has one number. -/
lemma Over.existsUnique_bits (distinct : atoms.Nodup) (htr : tr.Over H atoms) :
    ∃! bits, bits < 2 ^ (H.size * atoms.length) ∧ ofBits H atoms bits = tr := by
  have bound : tr.bitsOf atoms < 2 ^ (H.size * atoms.length) := by
    rw [← htr.horizon]
    exact tr.bitsOf_lt atoms
  refine ⟨tr.bitsOf atoms, ⟨bound, htr.ofBits_bitsOf fits⟩, ?_⟩
  rintro bits ⟨hb, h⟩
  exact (ofBits_inj fits distinct hb bound).mp (h.trans (htr.ofBits_bitsOf fits).symm)

end

end Trace

/-! ### Enumerations -/

namespace Enumeration

variable {E : Enumeration} {H : Horizon} {atoms : List Atom} {tr : Trace}

lemma make?_eq_none_iff : make? H atoms = none ↔ maxBits < H.size * atoms.length := by
  rw [make?, ite_eq_right_iff, ← Nat.not_le]
  exact forall_congr' fun _ => iff_of_false (Option.some_ne_none _) id

lemma toList_eq_map_ofBits (made : make? H atoms = some E) :
    E.toList = (List.range (2 ^ (H.size * atoms.length))).map (Trace.ofBits H atoms) := by
  obtain ⟨-, rfl⟩ := make?_eq_some_iff.mp made
  rfl

lemma fits_of_make? (made : make? H atoms = some E) :
    H.size * atoms.length ≤ Trace.wordSize :=
  Nat.le_trans (make?_eq_some_iff.mp made).1 (by decide)

/-- No trace is listed twice. -/
lemma nodup_toList (distinct : atoms.Nodup) (made : make? H atoms = some E) :
    E.toList.Nodup := by
  rw [toList_eq_map_ofBits made]
  refine List.Nodup.map_on (fun n hn n' hn' same => ?_) List.nodup_range
  rw [List.mem_range] at hn hn'
  exact (Trace.ofBits_inj (fits_of_make? made) distinct hn hn').mp same

/-- **The traces over the listed atoms are listed**, and no others. -/
lemma mem_toList_iff_over (made : make? H atoms = some E) :
    tr ∈ E.toList ↔ tr.Over H atoms := by
  rw [toList_eq_map_ofBits made, List.mem_map]
  constructor
  · rintro ⟨n, -, rfl⟩
    exact Trace.over_ofBits H atoms n
  · intro htr
    refine ⟨tr.bitsOf atoms, List.mem_range.mpr ?_, htr.ofBits_bitsOf (fits_of_make? made)⟩
    rw [← htr.horizon]
    exact tr.bitsOf_lt atoms

end Enumeration

/-- **Numbers and traces correspond one to one.** For different atoms, the trace that is read
from a number shows the bits within a word, one for each atom and tick, and nothing else. If all
bits fit into a word, every trace over the atoms has exactly one number. The traces are
enumerated in the order of their numbers, unless they have too many bits. -/
theorem Trace.numbered (H : Horizon) (atoms : List Atom) (distinct : atoms.Nodup) :
    let width := H.size * atoms.length
    (∀ bits i a t, atoms[i]? = some a →
        ((ofBits H atoms bits).holds a t = true ↔
          t ≤ H.last ∧ t * atoms.length + i < wordSize
            ∧ bits.testBit (t * atoms.length + i) = true))
      ∧ (∀ bits a t, a ∉ atoms → (ofBits H atoms bits).holds a t = false)
      ∧ (width ≤ wordSize → ∀ tr : Trace, tr.Over H atoms →
          ∃! bits, bits < 2 ^ width ∧ ofBits H atoms bits = tr)
      ∧ (Enumeration.make? H atoms = none ↔ Enumeration.maxBits < width)
      ∧ ∀ E, Enumeration.make? H atoms = some E →
          E.toList.length = 2 ^ width ∧ E.toList.Nodup
            ∧ (∀ tr, tr ∈ E.toList ↔ tr.Over H atoms)
            ∧ ∀ b < 2 ^ width, E.toList[b]? = some (ofBits H atoms b) := by
  refine ⟨fun bits i a t found => holds_ofBits_getElem?_iff distinct found,
    fun bits a t unlisted => ?_, fun fits tr htr => htr.existsUnique_bits fits distinct,
    Enumeration.make?_eq_none_iff, fun E made => ⟨?_, Enumeration.nodup_toList distinct made,
      fun tr => Enumeration.mem_toList_iff_over made, fun b hb => ?_⟩⟩
  · rw [← Bool.not_eq_true]
    exact fun h => unlisted ((over_ofBits H atoms bits).listed a t h)
  · rw [Enumeration.toList_eq_map_ofBits made, List.length_map, List.length_range]
  · obtain ⟨-, rfl⟩ := Enumeration.make?_eq_some_iff.mp made
    rw [Enumeration.getElem?_toList]
    exact if_pos hb

/-- Up to tick `32` two atoms need `66` bits: the last bit of a word is that of `b` at tick `31`,
and nothing holds after that, though all bits are set. Up to tick `9` they need `20` bits, and
all traces are listed, that of the greatest number last. -/
theorem Trace.numbered_cut :
    ["a", "b"].Nodup
      ∧ (ofBits ⟨32⟩ ["a", "b"] 18446744073709551615).holds "b" 31 = true
      ∧ (ofBits ⟨32⟩ ["a", "b"] 18446744073709551615).holds "a" 32 = false
      ∧ Enumeration.make? ⟨10⟩ ["a", "b"] = none
      ∧ ∃ E, Enumeration.make? ⟨9⟩ ["a", "b"] = some E ∧ E.toList.length = 1048576
        ∧ E.toList[1048575]? = some (ofBits ⟨9⟩ ["a", "b"] 1048575) := by
  have distinct : ["a", "b"].Nodup := by decide
  obtain ⟨cells, -⟩ := numbered ⟨32⟩ ["a", "b"] distinct
  obtain ⟨-, -, -, refused, -⟩ := numbered ⟨10⟩ ["a", "b"] distinct
  obtain ⟨-, -, -, -, listed⟩ := numbered ⟨9⟩ ["a", "b"] distinct
  obtain ⟨length, -, -, entries⟩ := listed _ rfl
  refine ⟨distinct, ?_, ?_, refused.mpr (by decide), _, rfl, length, entries _ (by decide)⟩
  · exact (cells _ 1 "b" 31 rfl).mpr (by decide)
  · rw [← Bool.not_eq_true, cells _ 0 "a" 32 rfl]
    decide

end BoundedTemporal
