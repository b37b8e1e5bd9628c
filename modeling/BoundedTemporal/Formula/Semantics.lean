/-
The meaning of formulas on finite traces.

* `Formula.holds`: whether a formula holds at a tick of a trace. Windows into
  the future end at the last tick of the trace, windows into the past at tick
  zero; an empty window satisfies `globally` and nothing else.
-/
import BoundedTemporal.Formula.Basic
import BoundedTemporal.Trace.Basic

namespace BoundedTemporal

namespace Formula

/-- Whether a formula holds at a tick of a trace. -/
def holds (tr : Trace) : Formula → Nat → Bool
  | atom name, t => tr.holds name t
  | not f, t => !f.holds tr t
  | and f g, t => f.holds tr t && g.holds tr t
  | or f g, t => f.holds tr t || g.holds tr t
  | next f, t => t < tr.horizon.last && f.holds tr (t + 1)
  | globally I f, t => (I.future t tr.horizon.last).all fun s => f.holds tr s
  | eventually I f, t => (I.future t tr.horizon.last).any fun s => f.holds tr s
  | .until I f g, t => (I.future t tr.horizon.last).any fun s =>
      g.holds tr s && (Window.mk t s).all fun r => f.holds tr r
  | since I f g, t => (I.past t).any fun s =>
      g.holds tr s && (Window.mk (s + 1) (t + 1)).all fun r => f.holds tr r

/-! ### The operators as statements about ticks -/

section

variable {tr : Trace} {I : Interval} {f g : Formula} {t : Nat}

theorem holds_globally : (globally I f).holds tr t = true ↔
    ∀ s ∈ I.future t tr.horizon.last, f.holds tr s = true := by
  simp only [holds, Window.all_iff]

theorem holds_eventually : (eventually I f).holds tr t = true ↔
    ∃ s ∈ I.future t tr.horizon.last, f.holds tr s = true := by
  simp only [holds, Window.any_iff]

theorem holds_until : (Formula.until I f g).holds tr t = true ↔
    ∃ s ∈ I.future t tr.horizon.last,
      g.holds tr s = true ∧ ∀ r, t ≤ r → r < s → f.holds tr r = true := by
  simp only [holds, Window.any_iff, Window.all_iff, Window.mem_def, Bool.and_eq_true, and_imp]

theorem holds_since : (since I f g).holds tr t = true ↔
    ∃ s ∈ I.past t,
      g.holds tr s = true ∧ ∀ r, s < r → r ≤ t → f.holds tr r = true := by
  simp only [holds, Window.any_iff, Window.all_iff, Window.mem_def, Nat.lt_succ_iff,
    Nat.succ_le_iff, Bool.and_eq_true, and_imp]

end

end Formula

end BoundedTemporal
