/-
How many literals a condition has.

* `sumBetween`: sums over the ticks from a first to a last one; `Window.sum_ticks`: they are
  the sums over the windows with these ends;
* `Node.occurrences`: how often a node looks at its operands at a tick, from the ends of its
  window alone; `Node.length_reads`: these are the literals of its condition;
* `Node.occurrences_le`: there are at most quadratically many in the number of ticks.
-/
import BoundedTemporal.Proofs.Encoding.Shape
import Mathlib.Algebra.BigOperators.Intervals
import Mathlib.Algebra.Order.BigOperators.Group.Finset
import Mathlib.Order.Interval.Finset.Nat

namespace BoundedTemporal

/-! ### Sums over windows -/

/-- The sum over the ticks from the first to the last one; where there are no ends, there is
nothing to add. -/
def sumBetween (ends : Option (Nat × Nat)) (f : Nat → Nat) : Nat :=
  ends.elim 0 fun (lo, hi) => ∑ s ∈ Finset.Icc lo hi, f s

namespace Window

variable {w : Window} {last : Nat}

/-- The ticks of a window lie between its ends. -/
lemma sum_ticks (w : Window) (f : Nat → Nat) : (w.ticks.map f).sum = sumBetween w.bounds? f := by
  have distinct : w.ticks.Nodup := List.nodup_range'
  rw [← List.sum_toFinset f distinct, sumBetween, bounds?]
  by_cases h : w.start < w.stop
  · rw [if_pos h, Option.elim_some]
    congr 1
    ext s
    rw [List.mem_toFinset, mem_ticks, mem_def, Finset.mem_Icc]
    omega
  · have empty : w.ticks = [] := by
      rw [ticks, size, Nat.sub_eq_zero_of_le (Nat.not_lt.mp h), List.range'_zero]
    rw [if_neg h, Option.elim_none, empty]
    rfl

/-- A window has as many ticks as there are from its first to its last one. -/
lemma size_eq_elim_bounds? (w : Window) : w.size = w.bounds?.elim 0 fun (lo, hi) => hi - lo + 1 := by
  unfold size bounds?
  split <;> simp only [Option.elim_some, Option.elim_none] <;> omega

/-- A window that ends with the last tick adds up at most all ticks. -/
lemma sum_ticks_le (h : w.stop ≤ last + 1) {f g : Nat → Nat} (le : ∀ s ≤ last, f s ≤ g s) :
    (w.ticks.map f).sum ≤ ∑ s ∈ Finset.range (last + 1), g s := by
  have distinct : w.ticks.Nodup := List.nodup_range'
  have inside : w.ticks.toFinset ⊆ Finset.range (last + 1) := by
    intro s hs
    rw [List.mem_toFinset, mem_ticks, mem_def] at hs
    exact Finset.mem_range.mpr (Nat.lt_of_lt_of_le hs.2 h)
  calc (w.ticks.map f).sum
    _ = ∑ s ∈ w.ticks.toFinset, f s := (List.sum_toFinset f distinct).symm
    _ ≤ ∑ s ∈ Finset.range (last + 1), f s := Finset.sum_le_sum_of_subset inside
    _ ≤ ∑ s ∈ Finset.range (last + 1), g s :=
        Finset.sum_le_sum fun s hs => le s (Nat.lt_succ_iff.mp (Finset.mem_range.mp hs))

end Window

/-- The numbers from one to `n` add up to half of `n * (n + 1)`. -/
lemma sum_range_succ_eq (n : Nat) : ∑ s ∈ Finset.range n, (s + 1) = n * (n + 1) / 2 := by
  rw [← Nat.add_zero (∑ s ∈ Finset.range n, (s + 1)), ← Finset.sum_range_succ' (fun s => s),
    Finset.sum_range_id, Nat.add_sub_cancel, Nat.mul_comm]

/-- The same numbers, from the greatest one down. -/
lemma sum_range_sub_eq (last : Nat) :
    ∑ s ∈ Finset.range (last + 1), (last - s + 1) = (last + 1) * (last + 2) / 2 := by
  rw [← sum_range_succ_eq, ← Finset.sum_range_reflect (fun s => s + 1)]
  rfl

/-! ### Literals of conditions -/

namespace Node

variable {α : Type} {n : Node α} {t last : Nat}

/-- How many literals the condition of a node has at tick `t`, when `last` is the last tick. -/
def occurrences (last t : Nat) : Node α → Nat
  | .atom _ => 0
  | .not _ => 1
  | .and _ _ | .or _ _ => 2
  | .next _ => if t < last then 1 else 0
  | .globally I _ | .eventually I _ => (I.future t last).bounds?.elim 0 fun (lo, hi) => hi - lo + 1
  | .until I _ _ => sumBetween (I.future t last).bounds? fun s => s - t + 1
  | .since I _ _ => sumBetween (I.past t).bounds? fun s => t - s + 1

/-- **A node looks at its operands so many times.** -/
lemma length_reads (n : Node α) (last t : Nat) :
    (n.reads last t).length = n.occurrences last t := by
  cases n with
  | atom name | not p | and p q | or p q => rfl
  | next p =>
      rw [reads, occurrences]
      split <;> rfl
  | globally I p | eventually I p =>
      rw [reads, occurrences, List.length_map, ← Interval.ticks_future, Window.length_ticks,
        Window.size_eq_elim_bounds?]
  | «until» I p q =>
      rw [reads, occurrences, List.length_flatMap, ← Interval.ticks_future, ← Window.sum_ticks]
      simp
  | since I p q =>
      rw [reads, occurrences, List.length_flatMap, ← Interval.ticks_past, List.map_reverse,
        List.sum_reverse, ← Window.sum_ticks]
      simp

/-- **Conditions are at most quadratic**: the largest ones have an occurrence for each pair of
ticks in order. -/
lemma occurrences_le (n : Node α) (ht : t ≤ last) :
    n.occurrences last t ≤ max 2 ((last + 1) * (last + 2) / 2) := by
  cases n with
  | atom name | not p | and p q | or p q => exact le_max_of_le_left (by simp [occurrences])
  | next p =>
      refine le_max_of_le_left ?_
      rw [occurrences]
      split <;> omega
  | globally I p | eventually I p =>
      refine le_max_of_le_right ?_
      have ones : (I.future t last).size = ((I.future t last).ticks.map fun _ => 1).sum := by
        rw [List.map_const', List.sum_replicate_nat, Window.length_ticks, Nat.mul_one]
      rw [occurrences, ← Window.size_eq_elim_bounds?, ones, ← sum_range_succ_eq]
      exact Window.sum_ticks_le (I.stop_future_le t last) fun s _ => by omega
  | «until» I p q =>
      refine le_max_of_le_right ?_
      rw [occurrences, ← Window.sum_ticks, ← sum_range_succ_eq]
      exact Window.sum_ticks_le (I.stop_future_le t last) fun s _ => by omega
  | since I p q =>
      refine le_max_of_le_right ?_
      rw [occurrences, ← Window.sum_ticks, ← sum_range_sub_eq]
      refine Window.sum_ticks_le (Nat.le_trans (I.stop_past_le t) ?_) fun s _ => ?_ <;> omega

end Node

end BoundedTemporal
