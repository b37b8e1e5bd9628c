/-
The traversal of an arena finds what lies below a node.

* `Arena.Uses`, `Arena.Reaches`: the operands of a node, and what is reached by
  going from operand to operand;
* `Search.Turn`: what one turn of a traversal does, in whichever order the pending
  ids are taken;
* `Search.Sound`, `Search.Covers`: what every turn keeps true. Everything
  visited or pending is reached from the start, and nothing is forgotten: the
  start and every operand of a visited node are visited or pending;
* `Arena.mem_descendants`: the nodes below a node are the stored nodes that it
  reaches, and `Arena.descendants_sorted` puts operands before the nodes that use
  them;
* `Formula.atoms`, `Arena.WellFormed.mem_atomsOf_of_mem_atoms`: every atom that a
  stored formula mentions is found below its node.
-/
import BoundedTemporal.Arena.Reach
import BoundedTemporal.Proofs.Arena.History
import Mathlib.Logic.Relation

namespace BoundedTemporal

/-- In an ordered list, what does not follow a member stands before it. -/
lemma mem_before_of_not_rel {α : Type} {R : α → α → Prop} {before after : List α} {a b : α}
    (ordered : (before ++ a :: after).Pairwise R) (hb : b ∈ before ++ a :: after) (ne : b ≠ a)
    (h : ¬ R a b) : b ∈ before := by
  rcases List.mem_append.mp hb with hb | hb
  · exact hb
  · rcases List.mem_cons.mp hb with rfl | hb
    · exact absurd rfl ne
    · exact absurd ((List.pairwise_cons.mp (List.pairwise_append.mp ordered).2.1).1 b hb) h

namespace Arena

/-- The node at `id` has the operand `p`. -/
def Uses (A : Arena) (id p : NodeId) : Prop :=
  ∃ n, A.node? id = some n ∧ p ∈ n.operands

/-- Going from operand to operand leads from `id` to `p`. -/
def Reaches (A : Arena) : NodeId → NodeId → Prop :=
  Relation.ReflTransGen A.Uses

lemma Uses.lt_size {A : Arena} {id p : NodeId} (h : A.Uses id p) : id < A.size := by
  obtain ⟨n, hn, -⟩ := h
  exact lt_size_of_node? hn

end Arena

/-! ### Traversals -/

namespace Search

variable {A : Arena} {root : NodeId} {s s' : Search}

/-- A traversal is over when nothing is pending. -/
lemma pending_eq_nil (h : s.step? A = none) : s.pending = [] := by
  obtain ⟨pending, visited⟩ := s
  cases pending with
  | nil => rfl
  | cons id rest =>
      simp only [step?] at h
      split at h
      · cases h
      · split at h <;> cases h

/-- One turn of a traversal, whichever of the pending ids it takes: an id that is missing or
visited is dropped; any other id is visited, and its operands become pending. -/
inductive Turn (A : Arena) (s : Search) : Search → Prop where
  | drop {id : NodeId} {rest pending : List NodeId} :
    s.pending.Perm (id :: rest) → (id < A.size → id ∈ s.visited) → pending.Perm rest →
    Turn A s ⟨pending, s.visited⟩
  | visit {id : NodeId} {n : Node NodeId} {rest pending : List NodeId} :
    s.pending.Perm (id :: rest) → A.node? id = some n → id ∉ s.visited →
    pending.Perm (n.operands ++ rest) → Turn A s ⟨pending, s.visited.insert id⟩

/-- A step is a turn that takes the first id. -/
lemma turn_of_step? (h : s.step? A = some s') : Turn A s s' := by
  obtain ⟨pending, visited⟩ := s
  cases pending with
  | nil => cases h
  | cons id rest =>
      simp only [step?] at h
      split at h
      · rename_i missing
        cases h
        refine .drop (.refl _) (fun stored => ?_) (.refl _)
        rw [← Arena.node?_isSome_iff, missing] at stored
        cases stored
      · rename_i n found
        split at h
        · rename_i old
          cases h
          exact .drop (.refl _) (fun _ => old) (.refl _)
        · rename_i fresh
          cases h
          exact .visit (.refl _) found fresh (.refl _)

/-- **Induction over traversals**: what every turn keeps still holds at the end, when
nothing is pending. -/
lemma run_induction {P : Search → Prop} (turn : ∀ {s s'}, P s → Turn A s s' → P s')
    (s : Search) (h : P s) : P ⟨[], s.run A⟩ := by
  induction s using run.induct A with
  | case1 s hs =>
      rw [run]
      split
      · have idle := pending_eq_nil hs
        obtain ⟨pending, visited⟩ := s
        cases idle
        exact h
      · rename_i s' hs'
        rw [hs] at hs'
        cases hs'
  | case2 s s' hs ih =>
      rw [run]
      split
      · rename_i idle
        rw [hs] at idle
        cases idle
      · rename_i s'' hs''
        rw [hs] at hs''
        cases hs''
        exact ih (turn h (turn_of_step? hs))

/-- Everything visited is stored, and everything visited or pending is reached from
`root`. -/
structure Sound (A : Arena) (root : NodeId) (s : Search) : Prop where
  stored : ∀ id ∈ s.visited, id < A.size
  visited : ∀ id ∈ s.visited, A.Reaches root id
  pending : ∀ id ∈ s.pending, A.Reaches root id

lemma mem_visited_insert {visited : NodeSet} {p id : NodeId} :
    p ∈ visited.insert id ↔ p = id ∨ p ∈ visited := by
  rw [Std.ExtTreeSet.mem_insert, Nat.compare_eq_eq, eq_comm]

lemma toList_sorted (visited : NodeSet) : visited.toList.Pairwise (· < ·) :=
  (Std.ExtTreeSet.ordered_toList (t := visited)).imp Nat.compare_eq_lt.mp

lemma Sound.turn (sound : Sound A root s) (h : Turn A s s') : Sound A root s' := by
  cases h with
  | drop taken old left =>
      exact ⟨sound.stored, sound.visited, fun p hp =>
        sound.pending p (taken.mem_iff.mpr (List.mem_cons_of_mem _ (left.mem_iff.mp hp)))⟩
  | @visit id n rest pending taken found fresh left =>
      have here : A.Reaches root id := sound.pending id (taken.mem_iff.mpr (List.mem_cons_self ..))
      refine ⟨fun p hp => ?_, fun p hp => ?_, fun p hp => ?_⟩
      · rcases mem_visited_insert.mp hp with rfl | hp
        · exact Arena.lt_size_of_node? found
        · exact sound.stored p hp
      · rcases mem_visited_insert.mp hp with rfl | hp
        · exact here
        · exact sound.visited p hp
      · rcases List.mem_append.mp (left.mem_iff.mp hp) with hop | hrest
        · exact here.tail ⟨n, found, hop⟩
        · exact sound.pending p (taken.mem_iff.mpr (List.mem_cons_of_mem _ hrest))

/-- The id is visited, or on the way to be. A missing node is never visited. -/
def Due (A : Arena) (s : Search) (id : NodeId) : Prop :=
  id < A.size → id ∈ s.visited ∨ id ∈ s.pending

/-- Nothing is forgotten: `root` and the operands of visited nodes are due. -/
structure Covers (A : Arena) (root : NodeId) (s : Search) : Prop where
  start : Due A s root
  operands : ∀ id ∈ s.visited, ∀ p, A.Uses id p → Due A s p

/-- What is due stays due. -/
lemma Due.turn {id : NodeId} (due : Due A s id) (h : Turn A s s') : Due A s' id := by
  intro stored
  cases h with
  | drop taken old left =>
      rcases due stored with hv | hp
      · exact Or.inl hv
      · rcases List.mem_cons.mp (taken.mem_iff.mp hp) with rfl | hrest
        · exact Or.inl (old stored)
        · exact Or.inr (left.mem_iff.mpr hrest)
  | visit taken found fresh left =>
      rcases due stored with hv | hp
      · exact Or.inl (mem_visited_insert.mpr (Or.inr hv))
      · rcases List.mem_cons.mp (taken.mem_iff.mp hp) with rfl | hrest
        · exact Or.inl (mem_visited_insert.mpr (Or.inl rfl))
        · exact Or.inr (left.mem_iff.mpr (List.mem_append_right _ hrest))

lemma Covers.turn (covers : Covers A root s) (h : Turn A s s') : Covers A root s' := by
  refine ⟨covers.start.turn h, fun id hid p hp => ?_⟩
  have kept (hid : id ∈ s.visited) : Due A s' p := (covers.operands id hid p hp).turn h
  cases h with
  | drop taken old left => exact kept hid
  | visit taken found fresh left =>
      rcases mem_visited_insert.mp hid with rfl | hid
      · -- the operands of the node that has just been visited are pending
        obtain ⟨m, hm, hop⟩ := hp
        rw [found] at hm
        cases hm
        exact fun _ => Or.inr (left.mem_iff.mpr (List.mem_append_left _ hop))
      · exact kept hid

/-- When nothing is pending, everything that `root` reaches has been visited. -/
lemma Covers.mem_visited (covers : Covers A root s) (idle : s.pending = []) {id : NodeId}
    (reaches : A.Reaches root id) (stored : id < A.size) : id ∈ s.visited := by
  induction reaches with
  | refl => simpa [idle] using covers.start stored
  | tail _ huse ih =>
      simpa [idle] using covers.operands _ (ih huse.lt_size) _ huse stored

/-- The traversal that starts at `root`. -/
def start (root : NodeId) : Search :=
  ⟨[root], ∅⟩

lemma sound_start : Sound A root (start root) where
  stored := by simp [start]
  visited := by simp [start]
  pending p hp := by
    rw [List.mem_singleton.mp hp]
    exact Relation.ReflTransGen.refl

lemma covers_start : Covers A root (start root) where
  start _ := Or.inr (List.mem_singleton_self root)
  operands := by simp [start]

/-- **What a finished traversal has visited**: the stored nodes that `root` reaches. -/
lemma Sound.mem_visited_iff (sound : Sound A root s) (covers : Covers A root s)
    (idle : s.pending = []) {id : NodeId} :
    id ∈ s.visited ↔ id < A.size ∧ A.Reaches root id :=
  ⟨fun h => ⟨sound.stored id h, sound.visited id h⟩, fun h => covers.mem_visited idle h.2 h.1⟩

end Search

namespace Arena

variable {A : Arena} {root id : NodeId}

/-- **The nodes below a node** are the stored nodes that it reaches. -/
theorem mem_descendants : id ∈ A.descendants root ↔ id < A.size ∧ A.Reaches root id := by
  have sound : Search.Sound A root ⟨[], Search.run A (.start root)⟩ :=
    Search.run_induction Search.Sound.turn _ Search.sound_start
  have covers : Search.Covers A root ⟨[], Search.run A (.start root)⟩ :=
    Search.run_induction Search.Covers.turn _ Search.covers_start
  rw [descendants, Std.ExtTreeSet.mem_toList]
  exact sound.mem_visited_iff covers rfl

/-- The nodes below a node come in ascending order. -/
theorem descendants_sorted : (A.descendants root).Pairwise (· < ·) :=
  Search.toList_sorted _

lemma mem_descendants_self (stored : root < A.size) : root ∈ A.descendants root :=
  mem_descendants.mpr ⟨stored, Relation.ReflTransGen.refl⟩

/-- Operands lie below wherever the nodes that use them do. -/
lemma WellFormed.mem_descendants_of_uses (wf : A.WellFormed) {p : NodeId}
    (h : id ∈ A.descendants root) (huse : A.Uses id p) : p ∈ A.descendants root := by
  rw [mem_descendants] at h ⊢
  obtain ⟨n, hn, hp⟩ := huse
  exact ⟨Nat.lt_trans (wf.operand_lt hn p hp) h.1, h.2.tail ⟨n, hn, hp⟩⟩

/-- A node reaches nothing that was stored after it. -/
lemma WellFormed.le_of_reaches (wf : A.WellFormed) (h : A.Reaches root id) : id ≤ root := by
  induction h with
  | refl => exact Nat.le_refl root
  | tail _ huse ih =>
      obtain ⟨n, hn, hp⟩ := huse
      exact Nat.le_trans (Nat.le_of_lt (wf.operand_lt hn _ hp)) ih

lemma atom?_eq_some_iff {name : Atom} :
    A.atom? id = some name ↔ A.node? id = some (.atom name) := by
  unfold atom?
  split <;> simp_all

lemma mem_atomsOf {name : Atom} :
    name ∈ A.atomsOf root ↔ ∃ id ∈ A.descendants root, A.node? id = some (.atom name) := by
  simp only [atomsOf, Std.ExtTreeSet.mem_ofList, List.contains_iff_mem, List.mem_filterMap,
    atom?_eq_some_iff]

/-- The atoms of a formula are stored. -/
lemma exists_atom?_of_mem_atomsOf {name : Atom} (h : name ∈ A.atomsOf root) :
    ∃ id < A.size, A.atom? id = some name := by
  obtain ⟨id, hid, hn⟩ := mem_atomsOf.mp h
  exact ⟨id, (mem_descendants.mp hid).1, atom?_eq_some_iff.mpr hn⟩

/-- What holds of all stored atoms holds of the atoms of a formula. -/
lemma forall_mem_atomsOf {P : Atom → Prop} (h : ∀ id < A.size, ∀ a ∈ A.atom? id, P a) :
    ∀ a ∈ A.atomsOf root, P a := by
  intro a ha
  obtain ⟨id, hid, hname⟩ := exists_atom?_of_mem_atomsOf ha
  exact h id hid a hname

end Arena

/-! ### Atoms -/

namespace Formula

/-- The atoms that a formula mentions, left to right. -/
def atoms : Formula → List Atom
  | atom name => [name]
  | not f => f.atoms
  | and f g => f.atoms ++ g.atoms
  | or f g => f.atoms ++ g.atoms
  | next f => f.atoms
  | globally _ f => f.atoms
  | eventually _ f => f.atoms
  | .until _ f g => f.atoms ++ g.atoms
  | since _ f g => f.atoms ++ g.atoms

lemma mem_atoms_ofNode {n : Node Formula} {a : Atom} :
    a ∈ (ofNode n).atoms ↔ n = .atom a ∨ ∃ f ∈ n.operands, a ∈ f.atoms := by
  cases n <;> simp [ofNode, atoms, Node.operands, eq_comm]

end Formula

namespace Arena

/-- Every atom that a stored formula mentions is found below its node. -/
lemma WellFormed.mem_atomsOf_of_mem_atoms {A : Arena} (wf : A.WellFormed) {id : NodeId}
    {f : Formula} (stored : A.formula? id = some f) {a : Atom} (ha : a ∈ f.atoms) :
    a ∈ A.atomsOf id := by
  have below : ∀ id f, A.formula? id = some f → a ∈ f.atoms →
      ∃ p, A.Reaches id p ∧ A.node? p = some (.atom a) := by
    intro id
    -- operands are stored before the nodes that use them
    induction id using Nat.strongRecOn with
    | ind id ih =>
        intro f stored ha
        obtain ⟨n, hn⟩ := exists_node? (lt_size_of_formula? stored)
        obtain ⟨layer, hl, hf⟩ := wf.spelled hn
        rw [stored] at hf
        cases hf
        rcases Formula.mem_atoms_ofNode.mp ha with rfl | ⟨g, hg, ha⟩
        · exact ⟨id, Relation.ReflTransGen.refl, by rw [hn, Node.eq_atom_of_mapM hl]⟩
        · obtain ⟨p, hp, hpg⟩ := Node.exists_operand_of_mapM hl hg
          obtain ⟨q, hq, hatom⟩ := ih p (wf.operand_lt hn p hp) g hpg ha
          exact ⟨q, Relation.ReflTransGen.head ⟨n, hn, hp⟩ hq, hatom⟩
  obtain ⟨p, hp, hatom⟩ := below id f stored ha
  exact mem_atomsOf.mpr ⟨p, mem_descendants.mpr ⟨lt_size_of_node? hatom, hp⟩, hatom⟩

end Arena

end BoundedTemporal
