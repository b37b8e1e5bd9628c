/-
What lies below a stored node.

* `Search`: a traversal, with the nodes still to visit and those visited;
  `Search.step?` visits one node, `Search.run` goes on until nothing is left;
* `Arena.descendants`: the nodes below a node, itself included, in the order
  in which they were stored, so that operands come before the nodes that use
  them;
* `Arena.depth`: the height of a formula, filled in from the atoms upwards;
* `Arena.atomsOf`: the atoms that occur in a formula.
-/
import BoundedTemporal.Arena.Basic
import BoundedTemporal.Atoms
import Std.Data.ExtTreeSet
import Std.Data.HashMap

namespace BoundedTemporal

/-- A finite set of ids, listed in ascending order. -/
abbrev NodeSet := Std.ExtTreeSet NodeId

/-- A traversal of an arena. An id may be pending more than once. -/
structure Search where
  pending : List NodeId
  visited : NodeSet

namespace Search

/-- Takes one id off the pending ones; if its node is there and has not been
visited, its operands become pending. -/
def step? (A : Arena) (s : Search) : Option Search :=
  match s.pending with
  | [] => none
  | id :: rest =>
    match A.node? id with
    | none => some ⟨rest, s.visited⟩
    | some node =>
      if id ∈ s.visited then some ⟨rest, s.visited⟩
      else some ⟨node.operands ++ rest, s.visited.insert id⟩

/-- The number of nodes that have not been visited. -/
def unvisited (A : Arena) (s : Search) : Nat :=
  A.ids.countP fun id => id ∉ s.visited

theorem countP_lt_of_insert {ids : List NodeId} {visited : NodeSet} {id : NodeId}
    (mem : id ∈ ids) (fresh : id ∉ visited) :
    (ids.countP fun i => i ∉ visited.insert id) < ids.countP fun i => i ∉ visited := by
  induction ids with
  | nil => simp at mem
  | cons i ids ih =>
    have rest : (ids.countP fun i => i ∉ visited.insert id) ≤ ids.countP fun i => i ∉ visited :=
      List.countP_mono_left (by simp)
    by_cases h : i = id
    · subst h
      simp [fresh] at rest ⊢
      omega
    · have := ih (by simpa [Ne.symm h] using mem)
      simp [List.countP_cons, Ne.symm h] at this ⊢
      omega

/-- A step either visits a node or shortens the list of pending ids. -/
theorem step?_decreases {A : Arena} {s s' : Search} (h : s.step? A = some s') :
    Prod.Lex (· < ·) (· < ·) (s'.unvisited A, s'.pending.length)
      (s.unvisited A, s.pending.length) := by
  obtain ⟨pending, visited⟩ := s
  cases pending with
  | nil => simp [step?] at h
  | cons id rest =>
    simp only [step?] at h
    split at h
    · cases h
      exact Prod.Lex.right _ (by simp)
    · rename_i node found
      split at h
      · cases h
        exact Prod.Lex.right _ (by simp)
      · rename_i fresh
        cases h
        have stored : id < A.size := Arena.node?_isSome_iff.mp (by simp [found])
        exact Prod.Lex.left _ _ (countP_lt_of_insert (by simpa [Arena.ids] using stored) fresh)

/-- The nodes that have been visited when nothing is pending any more. -/
def run (A : Arena) (s : Search) : NodeSet :=
  match _h : s.step? A with
  | none => s.visited
  | some s' => s'.run A
termination_by (s.unvisited A, s.pending.length)
decreasing_by exact step?_decreases _h

end Search

namespace Arena

/-- The nodes below `root`, itself included, in ascending order. -/
def descendants (A : Arena) (root : NodeId) : List NodeId :=
  (Search.run A ⟨[root], ∅⟩).toList

/-- The atoms that occur below `root`. -/
def atomsOf (A : Arena) (root : NodeId) : AtomSet :=
  .ofList ((A.descendants root).filterMap A.atom?)

/-- One more than the greatest of the given heights, and zero if there are
none. -/
def heightOver (heights : List Nat) : Nat :=
  heights.foldl (fun most h => max most (h + 1)) 0

/-- The heights of the nodes below `root`. Each is found from those of its
operands, and there is no answer if one of them is missing. -/
def heights? (A : Arena) (root : NodeId) : Option (Std.HashMap NodeId Nat) :=
  (A.descendants root).foldlM (fun table id => do
    let node ← A.node? id
    let below ← node.operands.mapM (table[·]?)
    return table.insert id (heightOver below)) ∅

/-- The height of the formula at `root`; an atom and a missing node have height
zero. -/
def depth (A : Arena) (root : NodeId) : Nat :=
  ((A.heights? root).bind (·[root]?)).getD 0

end Arena

end BoundedTemporal
