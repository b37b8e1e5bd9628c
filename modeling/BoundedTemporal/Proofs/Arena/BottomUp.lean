/-
What lies below a node is found in finitely many turns, and is listed from the bottom up.

* `Search.Turns`: the runs of a traversal, whichever pending id each turn takes;
* `Search.Turns.balance`: every id that became pending has been taken or is pending
  still, also when several nodes share an operand;
* `Search.Ends`, `Search.ends`: all traversals from a node take equally many turns and
  visit the same nodes;
* `Arena.BottomUp`, `Arena.WellFormed.bottomUp_descendants`: operands stand before the
  nodes that use them, and the node itself stands last;
* `Arena.descendants_spec`: both, for every arena that was built.
-/
import BoundedTemporal.Proofs.Arena.Reachable
import Mathlib.Algebra.BigOperators.Group.Finset.Basic
import Mathlib.Algebra.GroupWithZero.Nat
import Mathlib.Algebra.Order.BigOperators.Group.Finset
import Mathlib.Data.List.Sort

namespace BoundedTemporal

namespace Arena

/-- The number of operands of a node; a missing node has none. -/
def arity (A : Arena) (id : NodeId) : Nat :=
  (A.node? id).elim 0 (·.operands.length)

/-- The number of operands that some nodes have altogether. An operand counts once for
every node that uses it. -/
def links (A : Arena) (ids : List NodeId) : Nat :=
  (ids.map A.arity).sum

end Arena

/-! ### Runs of a traversal -/

namespace Search

variable {A : Arena} {root : NodeId} {s s' : Search} {n : Nat}

/-- The given number of turns leads from `s₀` to the other state of the traversal. -/
inductive Turns (A : Arena) (s₀ : Search) : Nat → Search → Prop where
  | none : Turns A s₀ 0 s₀
  | turn {n : Nat} {s s' : Search} : Turns A s₀ n s → Turn A s s' → Turns A s₀ (n + 1) s'

lemma Turns.sound (turns : Turns A (start root) n s) : Sound A root s := by
  induction turns with
  | none => exact sound_start
  | turn _ h ih => exact ih.turn h

lemma Turns.covers (turns : Turns A (start root) n s) : Covers A root s := by
  induction turns with
  | none => exact covers_start
  | turn _ h ih => exact ih.turn h

/-- As long as something is pending, there is a turn to take. -/
lemma exists_step? (busy : s.pending ≠ []) : ∃ s', s.step? A = some s' ∧ Turn A s s' := by
  cases h : s.step? A with
  | none => exact absurd (pending_eq_nil h) busy
  | some s' => exact ⟨s', rfl, turn_of_step? h⟩

/-- The search itself is such a run. -/
lemma exists_turns (A : Arena) (root : NodeId) :
    ∃ n, Turns A (start root) n ⟨[], run A (start root)⟩ := by
  refine run_induction (P := fun s => ∃ n, Turns A (start root) n s) ?_ _ ⟨0, .none⟩
  rintro s s' ⟨n, turns⟩ turn
  exact ⟨n + 1, turns.turn turn⟩

lemma links_eq_sum (visited : NodeSet) :
    A.links visited.toList = ∑ id ∈ visited.toList.toFinset, A.arity id :=
  (List.sum_toFinset A.arity ((toList_sorted visited).imp Nat.ne_of_lt)).symm

lemma links_insert {visited : NodeSet} {id : NodeId} (fresh : id ∉ visited) :
    A.links (visited.insert id).toList = A.arity id + A.links visited.toList := by
  have insert_eq :
      (visited.insert id).toList.toFinset = insert id visited.toList.toFinset := by
    ext p
    simp only [List.mem_toFinset, Std.ExtTreeSet.mem_toList, mem_visited_insert,
      Finset.mem_insert]
  rw [links_eq_sum, links_eq_sum, insert_eq, Finset.sum_insert (by simpa using fresh)]

lemma links_mono {visited visited' : NodeSet} (h : ∀ id ∈ visited, id ∈ visited') :
    A.links visited.toList ≤ A.links visited'.toList := by
  rw [links_eq_sum, links_eq_sum]
  refine Finset.sum_le_sum_of_subset fun id hid => ?_
  simp only [List.mem_toFinset, Std.ExtTreeSet.mem_toList] at hid ⊢
  exact h id hid

/-- A visit makes as many ids pending as the node has operands, and every turn takes one. -/
lemma Turn.balance (h : Turn A s s') :
    1 + s'.pending.length + A.links s.visited.toList
      = s.pending.length + A.links s'.visited.toList := by
  cases h with
  | drop taken old left =>
      simp only [taken.length_eq, left.length_eq, List.length_cons]
      omega
  | visit taken found fresh left =>
      simp only [taken.length_eq, left.length_eq, List.length_cons, List.length_append,
        links_insert fresh, Arena.arity, found, Option.elim_some]
      omega

/-- Every id that became pending has been taken or is pending still. -/
lemma Turns.balance (turns : Turns A (start root) n s) :
    n + s.pending.length = 1 + A.links s.visited.toList := by
  induction turns with
  | none =>
      have nothing : (∅ : NodeSet).toList = [] := Std.ExtTreeSet.toList_eq_nil_iff.mpr rfl
      simp [start, Arena.links, nothing]
  | turn _ h ih =>
      have := h.balance
      omega

/-- How the traversals from `root` end, whichever pending id each turn takes. -/
structure Ends (A : Arena) (root : NodeId) : Prop where
  /-- A traversal is not stuck before it is over. -/
  continues : ∀ {n s}, Turns A (start root) n s → s.pending ≠ [] →
    ∃ s', s.step? A = some s' ∧ Turns A (start root) (n + 1) s'
  /-- The turns that were taken and the ids that are pending are never more than the
  operands of the nodes below `root`, and `root` itself. -/
  bounded : ∀ {n s}, Turns A (start root) n s →
    n + s.pending.length ≤ 1 + A.links (A.descendants root)
  /-- Some traversal comes to an end. -/
  finishes : ∃ n s, Turns A (start root) n s ∧ s.pending = []
  /-- Every traversal that has come to an end took that many turns, and visited the nodes
  below `root`. -/
  result : ∀ {n s}, Turns A (start root) n s → s.pending = [] →
    n = 1 + A.links (A.descendants root) ∧ s.visited.toList = A.descendants root

/-- **Traversals end**: a node that is shared becomes pending once for every node that uses
it, but its operands do so only once. -/
theorem ends : Ends A root where
  continues turns busy := by
    obtain ⟨s', hs', turn⟩ := exists_step? busy
    exact ⟨s', hs', turns.turn turn⟩
  bounded {n s} turns := by
    rw [turns.balance, Arena.descendants]
    refine Nat.add_le_add_left (links_mono fun id hid => ?_) 1
    rw [← Std.ExtTreeSet.mem_toList]
    exact Arena.mem_descendants.mpr ⟨turns.sound.stored id hid, turns.sound.visited id hid⟩
  finishes := by
    obtain ⟨n, turns⟩ := exists_turns A root
    exact ⟨n, _, turns, rfl⟩
  result {n s} turns idle := by
    have visited : s.visited = run A (start root) := by
      ext id
      rw [turns.sound.mem_visited_iff turns.covers idle, ← Std.ExtTreeSet.mem_toList]
      exact Arena.mem_descendants.symm
    have balance := turns.balance
    rw [idle, visited] at balance
    exact ⟨balance, congrArg (·.toList) visited⟩

end Search

/-! ### The order of the nodes -/

namespace Arena

variable {A : Arena} {root : NodeId}

/-- The nodes that `root` reaches, from the bottom up. -/
structure BottomUp (A : Arena) (root : NodeId) (ids : List NodeId) : Prop where
  /-- They come in ascending order. -/
  ascending : ids.Pairwise (· < ·)
  /-- None is repeated. -/
  nodup : ids.Nodup
  /-- They are the nodes that `root` reaches. -/
  mem_iff : ∀ {id}, id ∈ ids ↔ A.Reaches root id
  /-- With a node, its operands are there. -/
  closed : ∀ {id p}, id ∈ ids → A.Uses id p → p ∈ ids
  /-- Every operand stands before the node. -/
  operands_first : ∀ {id p}, id ∈ ids → A.Uses id p → [p, id].Sublist ids
  /-- `root` itself stands last. -/
  last : ids.getLast? = some root

/-- Two members of an ascending list stand in it in their order. -/
lemma pair_sublist {ids : List NodeId} (ascending : ids.Pairwise (· < ·)) {p id : NodeId}
    (hp : p ∈ ids) (hid : id ∈ ids) (h : p < id) : [p, id].Sublist ids := by
  refine List.sublist_of_subperm_of_pairwise ?_ (by simpa using h) ascending
  exact List.subperm_of_subset (by simpa using h.ne) (by simp [hp, hid])

/-- A member that no other one exceeds stands last in an ascending list. -/
lemma getLast?_eq_of_greatest {ids : List NodeId} (ascending : ids.Pairwise (· < ·))
    {id : NodeId} (hid : id ∈ ids) (greatest : ∀ p ∈ ids, p ≤ id) :
    ids.getLast? = some id := by
  obtain ⟨before, after, rfl⟩ := List.append_of_mem hid
  cases after with
  | nil => exact List.getLast?_concat
  | cons p after =>
      have above : id < p := by
        have tail := (List.pairwise_append.mp ascending).2.1
        exact (List.pairwise_cons.mp tail).1 p (List.mem_cons_self ..)
      exact absurd (greatest p (by simp)) (Nat.not_le_of_gt above)

/-- Going from operand to operand ends at once where no node is stored. -/
lemma Reaches.eq_of_missing {id : NodeId} (h : A.Reaches root id) (missing : A.size ≤ root) :
    id = root := by
  induction h with
  | refl => rfl
  | tail _ huse ih =>
      subst ih
      exact absurd huse.lt_size (Nat.not_lt_of_ge missing)

/-- A missing node has nothing below it. -/
lemma descendants_eq_nil (missing : A.size ≤ root) : A.descendants root = [] := by
  refine List.eq_nil_iff_forall_not_mem.mpr fun id hid => ?_
  obtain ⟨stored, reaches⟩ := mem_descendants.mp hid
  rw [reaches.eq_of_missing missing] at stored
  exact Nat.not_lt_of_ge missing stored

/-- **The nodes below a stored node stand from the bottom up.** -/
lemma WellFormed.bottomUp_descendants (wf : A.WellFormed) (stored : root < A.size) :
    A.BottomUp root (A.descendants root) where
  ascending := descendants_sorted
  nodup := descendants_sorted.imp Nat.ne_of_lt
  mem_iff {id} := by
    rw [mem_descendants]
    exact and_iff_right_of_imp fun reaches => Nat.lt_of_le_of_lt (wf.le_of_reaches reaches) stored
  closed hid huse := wf.mem_descendants_of_uses hid huse
  operands_first {id p} hid huse := by
    have hp := wf.mem_descendants_of_uses hid huse
    obtain ⟨n, hn, hop⟩ := huse
    exact pair_sublist descendants_sorted hp hid (wf.operand_lt hn p hop)
  last := getLast?_eq_of_greatest descendants_sorted (mem_descendants_self stored)
    fun _ hid => wf.le_of_reaches (mem_descendants.mp hid).2

/-- **What lies below a node** of an arena that was built: nothing, if the node is missing;
otherwise the nodes that it reaches, from the bottom up. The traversal that finds them ends,
however often shared operands become pending and whichever pending id is taken first. -/
theorem descendants_spec (built : A.Built) (root : NodeId) :
    (A.size ≤ root → A.descendants root = [])
      ∧ (root < A.size → A.BottomUp root (A.descendants root))
      ∧ Search.Ends A root :=
  ⟨descendants_eq_nil, built.wellFormed.bottomUp_descendants, Search.ends⟩

/-- In `(a | a) & (a | a)` all operands are shared: five turns visit three nodes. The atom
that is stored between them is not visited. -/
theorem descendants_spec_shared :
    let A := build ∅ [.add (.atom "a"), .add (.atom "b"), .add (.or 0 0), .add (.and 2 2)]
    A.descendants 4 = [] ∧ [2, 3].Sublist (A.descendants 3)
      ∧ (A.descendants 3).getLast? = some 3 ∧ 1 ∉ A.descendants 3
      ∧ ∃ s, Search.Turns A (Search.start 3) 5 s ∧ s.visited.toList = [0, 2, 3] := by
  intro A
  have nodes : A.descendants 3 = [0, 2, 3] := by
    unfold A
    cbv
  obtain ⟨missing, -, -⟩ := descendants_spec (A := A) ⟨_, rfl⟩ 4
  obtain ⟨-, order, ends⟩ := descendants_spec (A := A) ⟨_, rfl⟩ 3
  have bottomUp := order (by decide)
  obtain ⟨n, s, turns, idle⟩ := ends.finishes
  obtain ⟨rfl, visited⟩ := ends.result turns idle
  rw [nodes] at turns visited
  exact ⟨missing (by decide), bottomUp.operands_first (by simp [nodes]) ⟨_, rfl, by decide⟩,
    bottomUp.last, by simp [nodes], s, turns, visited⟩

end Arena

end BoundedTemporal
