/-
When a node holds, in terms of its operands.

* `Node.condition?`: the condition under which a node holds at a tick, over
  its operands at the ticks up to the last one; atoms have none;
* `Node.untilCase`, `Node.sinceCase`: the ways in which `until` and `since`
  can hold, one for each tick of the window.
-/
import BoundedTemporal.Formula.Node
import BoundedTemporal.Expr.Basic

namespace BoundedTemporal

namespace Node

variable {α : Type}

/-- The operand `p` at the ticks of a window. -/
def operandOver (p : α) (w : Window) : List (Expr (α × Nat)) :=
  w.ticks.map fun s => .lit (p, s)

/-- `q` holds at `s`, and `p` from `t` until then. -/
def untilCase (p q : α) (t s : Nat) : Expr (α × Nat) :=
  .all (operandOver p ⟨t, s⟩ ++ [.lit (q, s)])

/-- `q` held at `s`, and `p` has held from then on until `t`. -/
def sinceCase (p q : α) (t s : Nat) : Expr (α × Nat) :=
  .all (operandOver p ⟨s + 1, t + 1⟩ ++ [.lit (q, s)])

/-- The condition under which a node holds at tick `t`, when `last` is the last
tick. The cases of `until` go forward in time, those of `since` backward. -/
def condition? (last t : Nat) : Node α → Option (Expr (α × Nat))
  | .atom _ => none
  | .not p => some (.negate (.lit (p, t)))
  | .and p q => some (.all [.lit (p, t), .lit (q, t)])
  | .or p q => some (.any [.lit (p, t), .lit (q, t)])
  | .next p => some (if t < last then .lit (p, t + 1) else .bot)
  | .globally I p => some (.all (operandOver p (I.future t last)))
  | .eventually I p => some (.any (operandOver p (I.future t last)))
  | .until I p q => some (.any ((I.future t last).ticks.map (untilCase p q t)))
  | .since I p q => some (.any ((I.past t).ticks.reverse.map (sinceCase p q t)))

theorem condition?_eq_none_iff {last t : Nat} {n : Node α} :
    n.condition? last t = none ↔ n.isAtom = true := by
  cases n <;> simp [condition?, isAtom]

end Node

end BoundedTemporal
