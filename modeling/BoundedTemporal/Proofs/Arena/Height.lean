/-
The height of a formula as an arena tells it.

The heights below a node are filled into a table from the bottom up. Each is found from the heights
of the operands, which the table has to hold by then.

* `Formula.height`, `Arena.height`: the height of a formula as a tree, and of the formula at an id;
* `Arena.heightOver_le_iff`, `Arena.heightOver_eq_of_max?`: one more than the greatest of some
  heights;
* `Arena.Tabulates`, `Arena.WellFormed.exists_tabulates`: however far a table has been filled in, it
  holds the heights of the nodes so far, and no operand is missing from it;
* `Arena.WellFormed.depth_eq`: the height that is told is that of the tree;
* `Arena.pathLengths`, `Arena.WellFormed.isGreatest_height`: it is the length of a longest path from
  operand to operand, and `Arena.WellFormed.height_lt_length`: there are more nodes than that;
* `Arena.HeightsExact`, `Arena.heights_exact`: all of this, for every arena that was built.
-/
import BoundedTemporal.Proofs.Arena.BottomUp
import Mathlib.Order.Bounds.Defs

namespace BoundedTemporal

/-! ### The height of a tree -/

namespace Formula

/-- The length of the longest branch of a formula. An atom has height zero. -/
def height : Formula → Nat
  | atom _ => 0
  | not f => f.height + 1
  | and f g => max f.height g.height + 1
  | or f g => max f.height g.height + 1
  | next f => f.height + 1
  | globally _ f => f.height + 1
  | eventually _ f => f.height + 1
  | .until _ f g => max f.height g.height + 1
  | since _ f g => max f.height g.height + 1

end Formula

namespace Arena

variable {A : Arena} {root id p : NodeId} {n : Node NodeId} {heights : List Nat}
  {table : Std.HashMap NodeId Nat} {before after : List NodeId}

/-- A bound on one more than the greatest of some heights. -/
lemma heightOver_le_iff {bound : Nat} :
    heightOver heights ≤ bound ↔ ∀ h ∈ heights, h < bound := by
  have starting (most : Nat) : heights.foldl (fun most h => max most (h + 1)) most ≤ bound ↔
      most ≤ bound ∧ ∀ h ∈ heights, h < bound := by
    induction heights generalizing most with
    | nil => simp
    | cons h heights ih =>
        rw [List.foldl_cons, ih, Nat.max_le, List.forall_mem_cons, and_assoc, Nat.succ_le_iff]
  rw [heightOver, starting]
  exact and_iff_right (Nat.zero_le bound)

lemma heightOver_eq_of_max? {most : Nat} (greatest : heights.max? = some most) :
    heightOver heights = most + 1 := by
  obtain ⟨mem, le⟩ := List.max?_eq_some_iff.mp greatest
  refine Nat.le_antisymm ?_ ?_
  · exact heightOver_le_iff.mpr fun h hh => Nat.lt_succ_of_le (le h hh)
  · exact heightOver_le_iff.mp (Nat.le_refl _) most mem

/-- The height of a formula is found from those of the operands of its outermost node. -/
lemma height_ofNode (layer : Node Formula) :
    (Formula.ofNode layer).height = heightOver (layer.operands.map Formula.height) := by
  cases layer <;>
    simp [Formula.ofNode, Formula.height, Node.operands, heightOver, Nat.add_max_add_right]

/-- The height of the formula at an id. A missing formula has height zero. -/
def height (A : Arena) (id : NodeId) : Nat :=
  (A.formula? id).elim 0 Formula.height

lemma height_eq_of_formula? {f : Formula} (h : A.formula? id = some f) :
    A.height id = f.height := by
  rw [height, h, Option.elim_some]

lemma height_of_missing (missing : A.size ≤ id) : A.height id = 0 := by
  rw [height, formula?_eq_none_iff.mpr missing, Option.elim_none]

/-- **The height of a node** is found from the heights of its operands. -/
lemma WellFormed.height_eq (wf : A.WellFormed) (hn : A.node? id = some n) :
    A.height id = heightOver (n.operands.map A.height) := by
  obtain ⟨layer, hl, hid⟩ := wf.spelled hn
  have operands : n.map A.height = layer.map Formula.height :=
    Node.map_eq_of_mapM hl fun p f hp => height_eq_of_formula? hp
  calc A.height id = (Formula.ofNode layer).height := height_eq_of_formula? hid
    _ = heightOver (layer.operands.map Formula.height) := height_ofNode layer
    _ = heightOver (layer.map Formula.height).operands := by rw [Node.operands_map]
    _ = heightOver (n.operands.map A.height) := by rw [← operands, Node.operands_map]

lemma WellFormed.height_lt_of_uses (wf : A.WellFormed) (huse : A.Uses id p) :
    A.height p < A.height id := by
  obtain ⟨n, hn, hp⟩ := huse
  rw [wf.height_eq hn]
  exact heightOver_le_iff.mp (Nat.le_refl _) _ (List.mem_map_of_mem hp)

/-- A node that is no atom is by one higher than the highest of its operands. -/
lemma WellFormed.exists_max?_heights (wf : A.WellFormed) (hn : A.node? id = some n)
    (composite : n.isAtom = false) :
    ∃ most, (n.operands.map A.height).max? = some most ∧ A.height id = most + 1 := by
  have some_operand : n.operands ≠ [] := by
    rw [Ne, n.operands_eq_nil_iff, composite]
    exact Bool.false_ne_true
  cases greatest : (n.operands.map A.height).max? with
  | none => exact absurd (List.map_eq_nil_iff.mp (List.max?_eq_none_iff.mp greatest)) some_operand
  | some most => exact ⟨most, rfl, by rw [wf.height_eq hn, heightOver_eq_of_max? greatest]⟩

lemma WellFormed.height_of_isAtom (wf : A.WellFormed) (hn : A.node? id = some n)
    (isAtom : n.isAtom = true) : A.height id = 0 := by
  rw [wf.height_eq hn, n.operands_eq_nil_iff.mpr isAtom]
  rfl

/-! ### The table of heights -/

/-- Takes the height of one node into the table, if it holds those of the operands. -/
def fillHeight? (A : Arena) (table : Std.HashMap NodeId Nat) (id : NodeId) :
    Option (Std.HashMap NodeId Nat) := do
  let node ← A.node? id
  let below ← node.operands.mapM (table[·]?)
  return table.insert id (heightOver below)

lemma heights?_eq_foldlM (A : Arena) (root : NodeId) :
    A.heights? root = (A.descendants root).foldlM A.fillHeight? ∅ :=
  rfl

/-- The table holds the heights of the listed nodes. -/
def Tabulates (A : Arena) (table : Std.HashMap NodeId Nat) (ids : List NodeId) : Prop :=
  ∀ p ∈ ids, table[p]? = some (A.height p)

/-- One more node is taken into the table when its operands are there. -/
lemma Tabulates.fill (tabulates : A.Tabulates table before) (wf : A.WellFormed)
    (hn : A.node? id = some n) (operands : ∀ p ∈ n.operands, p ∈ before) :
    ∃ table', A.fillHeight? table id = some table' ∧ A.Tabulates table' (before ++ [id]) := by
  have found : n.operands.mapM (table[·]?) = some (n.operands.map A.height) :=
    mapM_eq_pure_map fun p hp => tabulates p (operands p hp)
  refine ⟨table.insert id (A.height id), ?_, fun p hp => ?_⟩
  · rw [wf.height_eq hn]
    simp [fillHeight?, hn, found]
  · rw [Std.HashMap.getElem?_insert]
    by_cases here : id = p
    · simp [here]
    · have earlier : p ∈ before := by simpa [Ne.symm here] using hp
      simpa [here] using tabulates p earlier

/-- When the turn of a node comes, its operands have had theirs. -/
lemma WellFormed.mem_before_of_uses (wf : A.WellFormed)
    (h : A.descendants root = before ++ id :: after) (huse : A.Uses id p) : p ∈ before := by
  have mem : id ∈ A.descendants root := by simp [h]
  have operand : p ∈ before ++ id :: after := h ▸ wf.mem_descendants_of_uses mem huse
  obtain ⟨n, hn, hp⟩ := huse
  have lt := wf.operand_lt hn p hp
  exact mem_before_of_not_rel (h ▸ descendants_sorted) operand (Nat.ne_of_lt lt) (Nat.lt_asymm lt)

/-- **No operand is missed**: however far the table is filled in, it holds the heights of the nodes
so far. -/
lemma WellFormed.exists_tabulates (wf : A.WellFormed)
    (h : A.descendants root = before ++ after) :
    ∃ table, before.foldlM A.fillHeight? ∅ = some table ∧ A.Tabulates table before := by
  -- the last of the nodes so far finds the heights of its operands among those of the others
  induction before using List.reverseRecOn generalizing after with
  | nil => exact ⟨∅, rfl, List.forall_mem_nil _⟩
  | append_singleton before id ih =>
      rw [List.append_assoc, List.singleton_append] at h
      obtain ⟨table, filled, tabulates⟩ := ih h
      have stored : id < A.size := (mem_descendants.mp (by simp [h] : id ∈ A.descendants root)).1
      obtain ⟨n, hn⟩ := exists_node? stored
      obtain ⟨table', step, tabulates'⟩ :=
        tabulates.fill wf hn fun p hp => wf.mem_before_of_uses h ⟨n, hn, hp⟩
      refine ⟨table', ?_, tabulates'⟩
      rw [List.foldlM_append, filled]
      simp [step]

lemma WellFormed.exists_heights? (wf : A.WellFormed) (root : NodeId) :
    ∃ table, A.heights? root = some table ∧ A.Tabulates table (A.descendants root) :=
  wf.exists_tabulates (List.append_nil _).symm

/-- **The height that is told** is that of the formula as a tree. -/
lemma WellFormed.depth_eq (wf : A.WellFormed) (id : NodeId) : A.depth id = A.height id := by
  obtain ⟨table, filled, tabulates⟩ := wf.exists_heights? id
  rw [depth, filled, Option.bind_some]
  by_cases stored : id < A.size
  · rw [tabulates id (mem_descendants_self stored), Option.getD_some]
  · -- nothing lies below a missing node, and nothing has been filled in
    have missing := Nat.not_lt.mp stored
    rw [heights?_eq_foldlM, descendants_eq_nil missing] at filled
    cases filled
    rw [height_of_missing missing]
    simp

/-! ### Paths from operand to operand -/

/-- The lengths of the paths that start at a node and go on from operand to operand. -/
def pathLengths (A : Arena) (id : NodeId) : Set Nat :=
  {k | ∃ path, (id :: path).IsChain A.Uses ∧ path.length = k}

lemma WellFormed.length_le_height (wf : A.WellFormed) {path : List NodeId}
    (chain : (id :: path).IsChain A.Uses) : path.length ≤ A.height id := by
  induction path generalizing id with
  | nil => exact Nat.zero_le _
  | cons p path ih =>
      obtain ⟨huse, rest⟩ := List.isChain_cons_cons.mp chain
      exact Nat.lt_of_le_of_lt (ih rest) (wf.height_lt_of_uses huse)

/-- Going from a node to its highest operand, and on to the highest operand of that, takes as many
steps as the node is high. -/
lemma WellFormed.height_mem_pathLengths (wf : A.WellFormed) (id : NodeId) :
    A.height id ∈ A.pathLengths id := by
  -- operands are stored before the nodes that use them
  induction id using Nat.strongRecOn with
  | ind id ih =>
      have ends (height : A.height id = 0) : A.height id ∈ A.pathLengths id :=
        ⟨[], List.isChain_singleton id, height.symm⟩
      cases hn : A.node? id with
      | none =>
          refine ends (height_of_missing (Nat.not_lt.mp ?_))
          rw [← node?_isSome_iff, hn]
          exact Bool.false_ne_true
      | some n =>
          cases composite : n.isAtom with
          | true => exact ends (wf.height_of_isAtom hn composite)
          | false =>
              obtain ⟨most, greatest, height⟩ := wf.exists_max?_heights hn composite
              obtain ⟨mem, -⟩ := List.max?_eq_some_iff.mp greatest
              obtain ⟨p, hp, rfl⟩ := List.mem_map.mp mem
              obtain ⟨path, chain, length⟩ := ih p (wf.operand_lt hn p hp)
              refine ⟨p :: path, List.isChain_cons_cons.mpr ⟨⟨n, hn, hp⟩, chain⟩, ?_⟩
              rw [List.length_cons, length, height]

/-- **The height of a node** is the length of a longest path from operand to operand. -/
lemma WellFormed.isGreatest_height (wf : A.WellFormed) (id : NodeId) :
    IsGreatest (A.pathLengths id) (A.height id) := by
  refine ⟨wf.height_mem_pathLengths id, ?_⟩
  rintro k ⟨path, chain, rfl⟩
  exact wf.length_le_height chain

/-- A path from operand to operand visits different nodes, all of which lie below its start. -/
lemma WellFormed.length_lt_of_isChain (wf : A.WellFormed) (stored : id < A.size)
    {path : List NodeId} (chain : (id :: path).IsChain A.Uses) :
    path.length < (A.descendants id).length := by
  have descending : (id :: path).Pairwise (· > ·) :=
    (chain.imp fun q p ⟨n, hn, hp⟩ => wf.operand_lt hn p hp).pairwise
  have below : ∀ p ∈ id :: path, p ∈ A.descendants id :=
    chain.induction (· ∈ A.descendants id) _ (fun q p huse hq => wf.mem_descendants_of_uses hq huse)
      fun _ => mem_descendants_self stored
  have distinct : (id :: path).Nodup := descending.imp Nat.ne_of_gt
  exact distinct.length_le_of_subset below

lemma WellFormed.height_lt_length (wf : A.WellFormed) (stored : id < A.size) :
    A.height id < (A.descendants id).length := by
  obtain ⟨path, chain, length⟩ := wf.height_mem_pathLengths id
  rw [← length]
  exact wf.length_lt_of_isChain stored chain

/-! ### Heights of what was built -/

/-- The heights that an arena tells are those of its formulas as trees. -/
structure HeightsExact (A : Arena) : Prop where
  /-- A node is as high as the formula that it spells out. -/
  formula : ∀ {id f}, A.formula? id = some f → A.depth id = f.height
  /-- An atom has height zero. -/
  atom : ∀ {id n}, A.node? id = some n → n.isAtom = true → A.depth id = 0
  /-- Any other node is by one higher than the highest of its operands. -/
  operator : ∀ {id n}, A.node? id = some n → n.isAtom = false →
    ∃ most, (n.operands.map A.depth).max? = some most ∧ A.depth id = most + 1
  /-- A node is as high as a longest path from operand to operand is long. -/
  path : ∀ id, IsGreatest (A.pathLengths id) (A.depth id)
  /-- A missing node has height zero. -/
  missing : ∀ {id}, A.size ≤ id → A.depth id = 0
  /-- There are more nodes below a node than it is high. -/
  lt_length : ∀ {id}, id < A.size → A.depth id < (A.descendants id).length
  /-- When the turn of a node comes, the table holds the heights of all its operands. -/
  lookup : ∀ {root before id after}, A.descendants root = before ++ id :: after →
    ∃ table, before.foldlM A.fillHeight? ∅ = some table
      ∧ ∀ p, A.Uses id p → table[p]? = some (A.depth p)
  /-- The table for a node is filled in to the end, and it holds the heights that are told for the
  nodes below. -/
  table : ∀ root, ∃ table, A.heights? root = some table
    ∧ (A.descendants root).foldlM A.fillHeight? ∅ = some table
    ∧ ∀ p ∈ A.descendants root, table[p]? = some (A.depth p)

/-- **The heights that are told are exact**, however often operands are shared. -/
theorem heights_exact (built : A.Built) : A.HeightsExact := by
  have wf := built.wellFormed
  have told : A.depth = A.height := funext wf.depth_eq
  exact {
    formula := fun h => by rw [told, height_eq_of_formula? h]
    atom := fun hn isAtom => by rw [told, wf.height_of_isAtom hn isAtom]
    operator := fun hn composite => by
      rw [told]
      exact wf.exists_max?_heights hn composite
    path := fun id => by
      rw [told]
      exact wf.isGreatest_height id
    missing := fun missing => by rw [told, height_of_missing missing]
    lt_length := fun stored => by
      rw [told]
      exact wf.height_lt_length stored
    lookup := fun h => by
      obtain ⟨table, filled, tabulates⟩ := wf.exists_tabulates h
      rw [told]
      exact ⟨table, filled, fun p huse => tabulates p (wf.mem_before_of_uses h huse)⟩
    table := fun root => by
      obtain ⟨table, filled, tabulates⟩ := wf.exists_heights? root
      rw [told]
      exact ⟨table, filled, filled, tabulates⟩ }

/-- In `X (a | a) & (a | a)` both operands of the conjunction share what is below them. The path
through `X` is the longest, and it visits all four nodes. When the turn of the conjunction comes, the
heights of its operands are there. -/
theorem heights_exact_shared :
    let A := build ∅ [.add (.atom "a"), .add (.or 0 0), .add (.next 1), .add (.and 2 1)]
    A.Built ∧ A.depth 3 = 3 ∧ 2 ∈ A.pathLengths 3 ∧ (∀ k ∈ A.pathLengths 3, k ≤ 3)
      ∧ 3 < (A.descendants 3).length ∧ A.depth 4 = 0
      ∧ ∃ table, [0, 1, 2].foldlM A.fillHeight? ∅ = some table
        ∧ table[2]? = some 2 ∧ table[1]? = some 1 := by
  intro A
  have built : A.Built := ⟨_, rfl⟩
  have exact := heights_exact built
  have right : A.depth 1 = 1 := exact.formula (f := .or (.atom "a") (.atom "a")) (by unfold A; cbv)
  have left : A.depth 2 = 2 :=
    exact.formula (f := .next (.or (.atom "a") (.atom "a"))) (by unfold A; cbv)
  have top : A.depth 3 = 3 :=
    exact.formula (f := .and (.next (.or (.atom "a") (.atom "a"))) (.or (.atom "a") (.atom "a")))
      (by unfold A; cbv)
  have uses_left : A.Uses 3 2 := ⟨.and 2 1, by unfold A; cbv, by decide⟩
  have uses_right : A.Uses 3 1 := ⟨.and 2 1, by unfold A; cbv, by decide⟩
  have uses_atom : A.Uses 1 0 := ⟨.or 0 0, by unfold A; cbv, by decide⟩
  have short : [3, 1, 0].IsChain A.Uses :=
    List.isChain_cons_cons.mpr ⟨uses_right, List.isChain_pair.mpr uses_atom⟩
  have stored : 3 < A.size := by unfold A; decide
  have nodes : A.descendants 3 = [0, 1, 2] ++ 3 :: [] := by unfold A; cbv
  obtain ⟨table, filled, found⟩ := exact.lookup nodes
  refine ⟨built, top, ⟨[1, 0], short, rfl⟩, fun k hk => ?_, ?_, exact.missing (by unfold A; decide),
    table, filled, ?_, ?_⟩
  · rw [← top]
    exact (exact.path 3).2 hk
  · have := exact.lt_length stored
    rwa [top] at this
  · rw [found 2 uses_left, left]
  · rw [found 1 uses_right, right]

end Arena

end BoundedTemporal
