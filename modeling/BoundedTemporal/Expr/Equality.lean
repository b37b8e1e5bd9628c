/-
Structural equality of expressions.

* `Expr.same`: compares two expressions part by part;
* `Expr.same_iff`: it finds out whether they are equal, which makes equality of
  expressions decidable.
-/
import BoundedTemporal.Expr.Basic

namespace BoundedTemporal

namespace Expr

variable {α : Type} [DecidableEq α]

mutual

/-- Whether two expressions are built alike from the same literals. -/
def same : Expr α → Expr α → Bool
  | top, top => true
  | bot, bot => true
  | lit x, lit y => x = y
  | not d, not e => d.same e
  | and ds, and es => sameAll ds es
  | or ds, or es => sameAll ds es
  | _, _ => false

/-- Whether two lists hold the same expressions in the same order. -/
def sameAll : List (Expr α) → List (Expr α) → Bool
  | [], [] => true
  | d :: ds, e :: es => d.same e && sameAll ds es
  | _, _ => false

end

mutual

theorem same_iff : (d e : Expr α) → (d.same e = true ↔ d = e)
  | top, e => by cases e <;> simp [same]
  | bot, e => by cases e <;> simp [same]
  | lit x, e => by cases e <;> simp [same]
  | not d, e => by cases e <;> simp [same, same_iff d]
  | and ds, e => by cases e <;> simp [same, sameAll_iff ds]
  | or ds, e => by cases e <;> simp [same, sameAll_iff ds]

theorem sameAll_iff : (ds es : List (Expr α)) → (sameAll ds es = true ↔ ds = es)
  | [], es => by cases es <;> simp [sameAll]
  | d :: ds, es => by cases es <;> simp [sameAll, same_iff d, sameAll_iff ds]

end

instance : DecidableEq (Expr α) := fun d e =>
  decidable_of_iff (d.same e = true) (same_iff d e)

end Expr

end BoundedTemporal
