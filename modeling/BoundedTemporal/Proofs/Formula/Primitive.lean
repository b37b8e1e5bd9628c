/-
Formulas without derived operators.

Conjunction, `G` and `F` add nothing to what negation, disjunction and `U` can say: an operator
that looks into a window says that `U` finds something there with nothing demanded in between.

* `Formula.primitive`: a formula with its derived operators spelled out, and
  `Formula.isPrimitive`: formulas that have none;
* `Formula.holds_until_top`, `Formula.holds_not_eventually_not`, `Formula.holds_not_or_not`: the
  three laws that spell them out;
* `Formula.holds_primitive`: the meaning stays the same, under all operators.
-/
import BoundedTemporal.Proofs.Formula.Reversal

namespace BoundedTemporal

namespace Formula

variable {tr : Trace} {I : Interval} {f g : Formula} {t : Nat}

/-- The formula with `&`, `G` and `F` spelled out with `!`, `|` and `U`. -/
def primitive : Formula → Formula
  | atom name => atom name
  | not f => not f.primitive
  | and f g => not (or (not f.primitive) (not g.primitive))
  | or f g => or f.primitive g.primitive
  | next f => next f.primitive
  | globally I f => not (.until I (top f.primitive) (not f.primitive))
  | eventually I f => .until I (top f.primitive) f.primitive
  | .until I f g => .until I f.primitive g.primitive
  | since I f g => since I f.primitive g.primitive

/-- Whether `!`, `|`, `X`, `U` and `S` are the only operators of a formula. -/
def isPrimitive : Formula → Bool
  | atom _ => true
  | not f | next f => f.isPrimitive
  | or f g | .until _ f g | since _ f g => f.isPrimitive && g.isPrimitive
  | and _ _ | globally _ _ | eventually _ _ => false

lemma isPrimitive_primitive (f : Formula) : f.primitive.isPrimitive = true := by
  induction f with
  | atom name => rfl
  | not f ih | next f ih => exact ih
  | and f g ihf ihg | or f g ihf ihg => simp only [primitive, isPrimitive, ihf, ihg, Bool.and_self]
  | globally I f ih | eventually I f ih =>
      simp only [primitive, top, isPrimitive, ih, Bool.and_self]
  | «until» I f g ihf ihg | since I f g ihf ihg =>
      simp only [primitive, isPrimitive, ihf, ihg, Bool.and_self]

/-! ### The laws -/

/-- With nothing demanded in between, `until` looks for a tick in the future window. -/
lemma holds_until_top : (Formula.until I (top f) g).holds tr t = (eventually I g).holds tr t := by
  rw [Bool.eq_iff_iff, holds_until, holds_eventually]
  simp only [holds_top, implies_true, and_true]

/-- The window is free of violations exactly when none is found in it, and so it is if there
is nothing in it. -/
lemma holds_not_eventually_not :
    (not (eventually I (not f))).holds tr t = (globally I f).holds tr t := by
  rw [Bool.eq_iff_iff, holds, Bool.not_eq_true', ← Bool.not_eq_true, holds_eventually,
    holds_globally]
  simp only [holds, Bool.not_eq_true', not_exists, not_and, Bool.not_eq_false]

lemma holds_not_or_not : (not (or (not f) (not g))).holds tr t = (and f g).holds tr t := by
  simp only [holds, Bool.not_or, Bool.not_not]

/-! ### All operators -/

/-- **Spelling out the derived operators keeps the meaning.** -/
lemma holds_primitive (tr : Trace) (f : Formula) : f.primitive.holds tr = f.holds tr := by
  induction f with
  | atom name => rfl
  | not f ih =>
      funext t
      rw [primitive, holds, holds, ih]
  | and f g ihf ihg =>
      funext t
      rw [primitive, holds_not_or_not, holds, holds, ihf, ihg]
  | or f g ihf ihg =>
      funext t
      rw [primitive, holds, holds, ihf, ihg]
  | next f ih =>
      funext t
      rw [primitive, holds, holds, ih]
  | globally I f ih =>
      funext t
      calc (globally I f).primitive.holds tr t
        _ = (not (eventually I (not f.primitive))).holds tr t := by
            rw [primitive, holds, holds_until_top, holds]
        _ = (globally I f.primitive).holds tr t := holds_not_eventually_not
        _ = (globally I f).holds tr t := by rw [holds, holds, ih]
  | eventually I f ih =>
      funext t
      rw [primitive, holds_until_top, holds, holds, ih]
  | «until» I f g ihf ihg =>
      funext t
      rw [primitive, holds, holds, ihf, ihg]
  | since I f g ihf ihg =>
      funext t
      rw [primitive, holds, holds, ihf, ihg]

end Formula

end BoundedTemporal
