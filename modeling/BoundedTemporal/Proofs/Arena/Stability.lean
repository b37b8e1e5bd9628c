/-
What is stored stays as it is.

* `Arena.Extends.reaches_iff`, `Arena.Extends.descendants_eq`: an arena that extends another
  one keeps what lies below its nodes;
* `Arena.SameBelow`: two arenas tell the same about a node and the formula below it;
* `Arena.sameBelow_build`: no history of requests changes what is stored.
-/
import BoundedTemporal.Proofs.Arena.Records
import Mathlib.Data.List.Sort

namespace BoundedTemporal

/-- Steps that agree on all elements of a list lead to one result. -/
lemma foldlM_congr {α β : Type} {m : Type → Type} [Monad m] {f g : β → α → m β} {as : List α}
    (same : ∀ b, ∀ a ∈ as, f b a = g b a) (b : β) : as.foldlM f b = as.foldlM g b := by
  induction as generalizing b with
  | nil => rfl
  | cons a as ih =>
      rw [List.foldlM_cons, List.foldlM_cons, same b a List.mem_cons_self]
      exact bind_congr fun c => ih (fun b a' ha' => same b a' (List.mem_cons_of_mem a ha')) c

namespace Arena

variable {A A' : Arena} {root id p : NodeId}

namespace Extends

variable (larger : A'.Extends A)
include larger

lemma lt_size (stored : id < A.size) : id < A'.size := by
  rw [← node?_isSome_iff, larger.node?_eq stored]
  exact node?_isSome_iff.mpr stored

lemma atom?_eq (stored : id < A.size) : A'.atom? id = A.atom? id := by
  rw [atom?, atom?, larger.node?_eq stored]

/-- A stored node has the same operands. -/
lemma uses_iff (stored : id < A.size) : A'.Uses id p ↔ A.Uses id p := by
  rw [Uses, Uses, larger.node?_eq stored]

variable (wf : A.WellFormed) (stored : root < A.size)
include wf stored

/-- **What a stored node reaches** are the same nodes: new ones are not below old ones. -/
lemma reaches_iff : A'.Reaches root id ↔ A.Reaches root id := by
  constructor
  · intro h
    induction h with
    | refl => exact Relation.ReflTransGen.refl
    | tail _ huse ih =>
        have below := Nat.lt_of_le_of_lt (wf.le_of_reaches ih) stored
        exact ih.tail ((larger.uses_iff below).mp huse)
  · have uses : A.Uses ≤ A'.Uses := fun id p ⟨n, hn, hp⟩ => ⟨n, larger.node?_eq_some hn, hp⟩
    exact fun h => Relation.ReflTransGen.mono uses root id h

lemma descendants_eq : A'.descendants root = A.descendants root := by
  refine descendants_sorted.eq_of_mem_iff descendants_sorted fun id => ?_
  rw [mem_descendants, mem_descendants, larger.reaches_iff wf stored]
  refine and_congr_left fun h => ?_
  have below := Nat.lt_of_le_of_lt (wf.le_of_reaches h) stored
  exact iff_of_true (larger.lt_size below) below

lemma atomsOf_eq : A'.atomsOf root = A.atomsOf root := by
  have atoms : (A.descendants root).filterMap A'.atom? = (A.descendants root).filterMap A.atom? :=
    List.filterMap_congr fun id hid => larger.atom?_eq (mem_descendants.mp hid).1
  rw [atomsOf, atomsOf, larger.descendants_eq wf stored, atoms]

/-- The same heights are found, in the same order. -/
lemma depth_eq : A'.depth root = A.depth root := by
  have heights : A'.heights? root = A.heights? root := by
    rw [heights?, heights?, larger.descendants_eq wf stored]
    refine foldlM_congr (fun table id hid => ?_) ∅
    rw [larger.node?_eq (mem_descendants.mp hid).1]
  rw [depth, depth, heights]

end Extends

/-- Two arenas tell the same about a node, what lies below it, and the formula that it spells
out. -/
structure SameBelow (A A' : Arena) (id : NodeId) : Prop where
  node : A'.node? id = A.node? id
  descendants : A'.descendants id = A.descendants id
  depth : A'.depth id = A.depth id
  atomsOf : A'.atomsOf id = A.atomsOf id
  text : A'.text id = A.text id
  holds : ∀ tr t, A'.holds? id tr t = A.holds? id tr t

/-- **No history of requests changes what is stored.** -/
theorem sameBelow_build (built : A.Built) (stored : id < A.size) (history : List Call) :
    A.SameBelow (A.build history) id := by
  have wf := built.wellFormed
  have larger := extends_build A history
  have formula := larger.formula?_eq stored
  exact {
    node := larger.node?_eq stored
    descendants := larger.descendants_eq wf stored
    depth := larger.depth_eq wf stored
    atomsOf := larger.atomsOf_eq wf stored
    text := by rw [text, text, formula]
    holds := fun tr t => by rw [holds?, holds?, formula] }

end Arena

end BoundedTemporal
