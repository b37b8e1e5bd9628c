/-
Drawings show what lies below the roots, and nothing else.

* `Drawing.Statement`, `Drawing.Script`: the statements of a drawing, block by block, and how
  they are written; `Drawing.Style.arrows`: the lines from a node to its operands;
* `Arena.script`: the statements for given atoms, operators and roots;
  `Arena.lines_draw`: a drawing is written as the script of its nodes;
* `Arena.ReachedFrom`, `Arena.mem_drawn`: the nodes that are drawn are those that some root
  reaches;
* `Arena.countP_declares`, `Arena.isDrawn_of_mem`: whatever is drawn is declared once, and
  nothing else is mentioned;
* `Arena.Draws`, `Arena.Built.exists_draws`: what is written for an arena that was built.
-/
import BoundedTemporal.Drawing
import BoundedTemporal.Proofs.Arena.Reachable
import Mathlib.Data.List.Nodup

namespace BoundedTemporal

/-! ### Statements -/

namespace Drawing

/-- What a statement is about: a stored node, or the root at a position. -/
inductive Subject where
  | node (id : NodeId)
  | root (position : Nat)
deriving DecidableEq

/-- A declaration or an edge. -/
inductive Statement where
  | declaration (subject : Subject) (shape? : Option String) (label : String)
  | edge (source target : Subject) (line? : Option String)
deriving DecidableEq

/-- Roots are told apart from nodes by a leading letter. -/
def Subject.text : Subject → String
  | node id => toString id
  | root position => "r" ++ toString position

/-- A statement as it is written. -/
def Statement.text : Statement → String
  | declaration x (some shape) label =>
    x.text ++ " [shape=" ++ shape ++ ", " ++ Drawing.label label ++ "];"
  | declaration x none label => x.text ++ " [" ++ Drawing.label label ++ "];"
  | edge x y (some line) => x.text ++ " -> " ++ y.text ++ " [style=" ++ line ++ "];"
  | edge x y none => x.text ++ " -> " ++ y.text ++ ";"

/-- Whether a statement declares a subject. -/
def Statement.declares (x : Subject) : Statement → Bool
  | declaration y _ _ => x = y
  | edge _ _ _ => false

/-- What is mentioned in a statement. -/
def Statement.subjects : Statement → List Subject
  | declaration x _ _ => [x]
  | edge x y _ => [x, y]

/-- The statements of a drawing. Those of `sink` and `source` stand in a block each. -/
structure Script where
  sink : List Statement
  operators : List Statement
  edges : List Statement
  source : List Statement
  rootEdges : List Statement

namespace Script

/-- All statements in order. -/
def statements (s : Script) : List Statement :=
  s.sink ++ s.operators ++ s.edges ++ s.source ++ s.rootEdges

/-- A script as it is written, one line for a statement. -/
def lines (s : Script) (style : Style) : List String :=
  ["digraph \x7b", "node [shape=" ++ style.operatorShape ++ "];"] ++
    ["\x7b rank=sink"] ++ s.sink.map Statement.text ++ ["\x7d"] ++
    s.operators.map Statement.text ++ s.edges.map Statement.text ++
    ["\x7b rank=source"] ++ s.source.map Statement.text ++ ["\x7d"] ++
    s.rootEdges.map Statement.text ++ ["\x7d"]

/-- A script as text, in which every line is ended. -/
def text (s : Script) (style : Style) : String :=
  String.join ((s.lines style).map (· ++ "\n"))

end Script

/-- The lines from a node to its operands, left to right. -/
def Style.arrows (style : Style) : Node NodeId → List (NodeId × String)
  | .atom _ => []
  | .not p | .next p | .globally _ p | .eventually _ p => [(p, style.firstLine)]
  | .and p q | .or p q | .until _ p q | .since _ p q =>
    [(p, style.firstLine), (q, style.secondLine)]

end Drawing

namespace Arena

open Drawing

/-- The statements for some atoms and operators, and for the roots. -/
def script (A : Arena) (style : Style) (atoms operators : List (NodeId × Node NodeId))
    (roots : List NodeId) : Script where
  sink := atoms.map fun (id, n) =>
    .declaration (.node id) (some style.atomShape) (vertex style id n).label
  operators := operators.map fun (id, n) =>
    .declaration (.node id) none (vertex style id n).label
  edges := operators.flatMap fun (id, n) =>
    (style.arrows n).map fun (p, line) => .edge (.node id) (.node p) (some line)
  source := roots.mapIdx fun i root =>
    .declaration (.root i) (some style.rootShape) (A.text root)
  rootEdges := roots.mapIdx fun i root => .edge (.root i) (.node root) none

/-- The nodes of a drawing. -/
def drawn (A : Arena) (roots : List NodeId) : List (NodeId × Node NodeId) :=
  (A.below roots).filterMap fun id => (A.node? id).map (id, ·)

/-- The script of a drawing. -/
def drawnScript (A : Arena) (roots : List NodeId) (style : Style) : Script :=
  A.script style ((A.drawn roots).filter (·.2.isAtom)) ((A.drawn roots).filter (!·.2.isAtom))
    roots

variable {A : Arena} {roots : List NodeId} {id p : NodeId} {n : Node NodeId}

/-! ### How a drawing is written -/

lemma edgesOf_eq (style : Style) (id : NodeId) (n : Node NodeId) :
    edgesOf style id n = (style.arrows n).map fun (p, line) => ⟨id, p, line⟩ := by
  cases n <;> rfl

lemma mapIdx_map_eq {α β γ δ : Type} {f : α → β} {g : Nat → β → δ} {h : Nat → α → γ}
    {k : γ → δ} (same : ∀ i a, g i (f a) = k (h i a)) (l : List α) :
    (l.map f).mapIdx g = (l.mapIdx h).map k := by
  refine List.ext_getElem? fun i => ?_
  have composed : g i ∘ f = k ∘ h i := funext (same i)
  simp [composed]

/-- **A drawing is written** as the script of its atoms and its operators. -/
lemma lines_draw (A : Arena) (roots : List NodeId) (style : Style) :
    (A.draw roots style).lines = (A.drawnScript roots style).lines style := by
  set d := A.draw roots style with hd
  set s := A.drawnScript roots style with hs
  have sink : d.atoms.map d.atomLine = s.sink.map Statement.text := by
    simp only [hd, hs, draw, drawnScript, script, List.map_map]
    rfl
  have operators : d.operators.map operatorLine = s.operators.map Statement.text := by
    simp only [hd, hs, draw, drawnScript, script, List.map_map]
    rfl
  have edges : d.edges.map edgeLine = s.edges.map Statement.text := by
    simp only [hd, hs, draw, drawnScript, script, List.map_flatMap, edgesOf_eq, List.map_map]
    rfl
  have source : d.roots.mapIdx d.rootLine = s.source.map Statement.text :=
    mapIdx_map_eq (by intro i root; rfl) roots
  have rootEdges : d.roots.mapIdx rootEdgeLine = s.rootEdges.map Statement.text :=
    mapIdx_map_eq (by intro i root; rfl) roots
  rw [Drawing.lines, Script.lines, sink, operators, edges, source, rootEdges]
  rfl

/-! ### Which nodes are drawn -/

/-- Some root reaches the node. -/
def ReachedFrom (A : Arena) (roots : List NodeId) (id : NodeId) : Prop :=
  ∃ r ∈ roots, A.Reaches r id

lemma mem_below : id ∈ A.below roots ↔ id < A.size ∧ A.ReachedFrom roots id := by
  simp only [below, Std.ExtTreeSet.mem_toList, Std.ExtTreeSet.mem_ofList, List.contains_iff_mem,
    List.mem_flatMap, mem_descendants, ReachedFrom]
  grind

lemma mem_drawn : (id, n) ∈ A.drawn roots ↔ A.node? id = some n ∧ A.ReachedFrom roots id := by
  simp only [drawn, List.mem_filterMap, mem_below, Option.map_eq_some_iff, Prod.mk.injEq]
  constructor
  · rintro ⟨id', ⟨-, reached⟩, m, hm, rfl, rfl⟩
    exact ⟨hm, reached⟩
  · rintro ⟨hn, reached⟩
    exact ⟨id, ⟨lt_size_of_node? hn, reached⟩, n, hn, rfl, rfl⟩

lemma drawn_ascending (A : Arena) (roots : List NodeId) :
    (A.drawn roots).Pairwise (·.1 < ·.1) := by
  have below : (A.below roots).Pairwise (· < ·) := Search.toList_sorted _
  refine below.filterMap _ fun id id' lt x hx x' hx' => ?_
  obtain ⟨n, -, rfl⟩ := Option.map_eq_some_iff.mp hx
  obtain ⟨n', -, rfl⟩ := Option.map_eq_some_iff.mp hx'
  exact lt

/-- What a root reaches is stored. -/
lemma ReachedFrom.exists_mem_drawn (reached : A.ReachedFrom roots id) (wf : A.WellFormed)
    (stored : ∀ r ∈ roots, r < A.size) : ∃ n, (id, n) ∈ A.drawn roots := by
  obtain ⟨r, hr, reaches⟩ := reached
  have lt := Nat.lt_of_le_of_lt (wf.le_of_reaches reaches) (stored r hr)
  obtain ⟨n, hn⟩ := exists_node? lt
  exact ⟨n, mem_drawn.mpr ⟨hn, r, hr, reaches⟩⟩

/-! ### What is declared -/

lemma countP_eq_one {α β : Type} [DecidableEq β] {f : α → β} {l : List α} {b : β}
    (nodup : (l.map f).Nodup) (mem : b ∈ l.map f) : l.countP (b = f ·) = 1 := by
  have once : (l.map f).count b = 1 := by rw [nodup.count, if_pos mem]
  rw [← once, List.count_eq_countP, List.countP_map]
  exact List.countP_congr fun a _ => by simpa using eq_comm

/-- What is drawn: the nodes that some root reaches, and the roots. -/
def IsDrawn (A : Arena) (roots : List NodeId) : Subject → Prop
  | .node id => A.ReachedFrom roots id
  | .root i => i < roots.length

lemma map_fst_arrows (style : Style) (n : Node NodeId) :
    (style.arrows n).map Prod.fst = n.operands := by
  cases n <;> rfl

/-- Whatever is mentioned is drawn. -/
lemma isDrawn_of_mem {style : Style} {s : Statement} {x : Subject}
    (h : s ∈ (A.drawnScript roots style).statements) (hx : x ∈ s.subjects) :
    A.IsDrawn roots x := by
  simp only [drawnScript, script, Script.statements, List.mem_append, List.mem_map,
    List.mem_filter, List.mem_flatMap, List.mem_mapIdx] at h
  rcases h with (((⟨⟨id, n⟩, ⟨hid, -⟩, rfl⟩ | ⟨⟨id, n⟩, ⟨hid, -⟩, rfl⟩) |
    ⟨⟨id, n⟩, ⟨hid, -⟩, ⟨p, line⟩, hp, rfl⟩) | ⟨i, hi, rfl⟩) | ⟨i, hi, rfl⟩
  -- atoms, and operators
  · cases List.mem_singleton.mp hx
    exact (mem_drawn.mp hid).2
  · cases List.mem_singleton.mp hx
    exact (mem_drawn.mp hid).2
  -- edges to operands
  · obtain ⟨hn, r, hr, reaches⟩ := mem_drawn.mp hid
    have operand : p ∈ n.operands := by
      rw [← map_fst_arrows style n]
      exact List.mem_map.mpr ⟨(p, line), hp, rfl⟩
    rcases List.mem_pair.mp hx with rfl | rfl
    · exact ⟨r, hr, reaches⟩
    · exact ⟨r, hr, reaches.tail ⟨n, hn, operand⟩⟩
  -- roots, and their edges
  · cases List.mem_singleton.mp hx
    exact hi
  · rcases List.mem_pair.mp hx with rfl | rfl
    · exact hi
    · exact ⟨roots[i], List.getElem_mem hi, Relation.ReflTransGen.refl⟩

/-- **Whatever is drawn is declared once.** -/
lemma countP_declares {style : Style} {x : Subject} (wf : A.WellFormed)
    (stored : ∀ r ∈ roots, r < A.size) (hx : A.IsDrawn roots x) :
    (A.drawnScript roots style).statements.countP (·.declares x) = 1 := by
  simp only [drawnScript, script, Script.statements, List.countP_append, List.countP_map,
    List.countP_flatMap, List.mapIdx_eq_zipIdx_map, Function.comp_def, Statement.declares]
  cases x with
  | node id =>
      obtain ⟨n, h⟩ := ReachedFrom.exists_mem_drawn hx wf stored
      have nodup : ((A.drawn roots).map Prod.fst).Nodup :=
        List.pairwise_map.mpr ((drawn_ascending A roots).imp Nat.ne_of_lt)
      have once := countP_eq_one nodup (List.mem_map.mpr ⟨(id, n), h, rfl⟩)
      -- the node stands either among the atoms or among the operators
      rw [List.countP_eq_countP_filter_add _ _ (·.2.isAtom)] at once
      simpa using once
  | root i =>
      have positions : (roots.zipIdx.map Prod.snd) = List.range' 0 roots.length :=
        List.zipIdx_map_snd 0 roots
      have once : roots.zipIdx.countP (i = ·.2) = 1 := by
        apply countP_eq_one <;> rw [positions]
        · exact List.nodup_range'
        · simpa [IsDrawn] using hx
      simpa using once

/-- A declaration is found for whatever is drawn. -/
lemma exists_declaration {style : Style} {x : Subject} (wf : A.WellFormed)
    (stored : ∀ r ∈ roots, r < A.size) (hx : A.IsDrawn roots x) :
    ∃ shape? label, .declaration x shape? label ∈ (A.drawnScript roots style).statements := by
  have found : 0 < (A.drawnScript roots style).statements.countP (·.declares x) := by
    rw [countP_declares wf stored hx]
    exact Nat.one_pos
  obtain ⟨s, hs, declares⟩ := List.countP_pos_iff.mp found
  cases s with
  | declaration y shape? label =>
      cases of_decide_eq_true declares
      exact ⟨shape?, label, hs⟩
  | edge => cases declares

/-- What is written for some roots, and which nodes it shows. -/
structure Draws (A : Arena) (roots : List NodeId) (style : Style)
    (atoms operators : List (NodeId × Node NodeId)) : Prop where
  /-- The statements are those of the script, in this order. -/
  text : (A.draw roots style).text = (A.script style atoms operators roots).text style
  atoms_ascending : atoms.Pairwise (·.1 < ·.1)
  operators_ascending : operators.Pairwise (·.1 < ·.1)
  /-- The atoms are those that some root reaches. -/
  mem_atoms : ∀ id n, (id, n) ∈ atoms ↔
    A.node? id = some n ∧ n.isAtom = true ∧ A.ReachedFrom roots id
  /-- The operators are those that some root reaches. -/
  mem_operators : ∀ id n, (id, n) ∈ operators ↔
    A.node? id = some n ∧ n.isAtom = false ∧ A.ReachedFrom roots id
  /-- Reached nodes and roots are declared once, however often they are shared. -/
  declared_once : ∀ x, A.IsDrawn roots x →
    (A.script style atoms operators roots).statements.countP (·.declares x) = 1
  /-- Nothing else is mentioned. -/
  nothing_else : ∀ s ∈ (A.script style atoms operators roots).statements,
    ∀ x ∈ s.subjects, A.IsDrawn roots x
  /-- Both ends of an edge are declared. -/
  ends_declared : ∀ x y line?,
    .edge x y line? ∈ (A.script style atoms operators roots).statements →
    ∀ z ∈ [x, y], ∃ shape? label,
      .declaration z shape? label ∈ (A.script style atoms operators roots).statements

/-- **A drawing shows exactly what lies below its roots.** -/
theorem Built.exists_draws (built : A.Built) (stored : ∀ r ∈ roots, r < A.size)
    (style : Style) : ∃ atoms operators, A.Draws roots style atoms operators := by
  have wf := built.wellFormed
  refine ⟨(A.drawn roots).filter (·.2.isAtom), (A.drawn roots).filter (!·.2.isAtom), ?_⟩
  exact {
    text := by rw [Drawing.text, lines_draw]; rfl
    atoms_ascending := (drawn_ascending A roots).filter _
    operators_ascending := (drawn_ascending A roots).filter _
    mem_atoms := fun id n => by
      rw [List.mem_filter, mem_drawn, and_assoc, and_comm (b := n.isAtom = true)]
    mem_operators := fun id n => by
      rw [List.mem_filter, mem_drawn, and_assoc, Bool.not_eq_true',
        and_comm (b := n.isAtom = false)]
    declared_once := fun x hx => countP_declares wf stored hx
    nothing_else := fun s hs x hx => isDrawn_of_mem hs hx
    ends_declared := fun x y line? h z hz =>
      exists_declaration wf stored (isDrawn_of_mem h hz) }

/-- A conjunction of an atom with itself has two edges, and roots may repeat; the last node is
not reached. -/
theorem exists_draws_shared :
    let A := build ∅ [.add (.atom "a"), .add (.and 0 0), .add (.or 1 0), .add (.not 0)]
    let roots := [2, 1, 2]
    (A.Built ∧ ∀ r ∈ roots, r < A.size)
      ∧ (∃ atoms operators, A.Draws roots {} atoms operators)
      ∧ (A.draw roots {}).lines = [
        "digraph \x7b",
        "node [shape=ellipse];",
        "\x7b rank=sink",
        "0 [shape=box, label=\"a\"];",
        "\x7d",
        "1 [label=\"&\"];",
        "2 [label=\"|\"];",
        "1 -> 0 [style=solid];",
        "1 -> 0 [style=dashed];",
        "2 -> 1 [style=solid];",
        "2 -> 0 [style=dashed];",
        "\x7b rank=source",
        "r0 [shape=rect, label=\"((a & a) | a)\"];",
        "r1 [shape=rect, label=\"(a & a)\"];",
        "r2 [shape=rect, label=\"((a & a) | a)\"];",
        "\x7d",
        "r0 -> 2;",
        "r1 -> 1;",
        "r2 -> 2;",
        "\x7d"] := by
  intro A roots
  have built : A.Built := ⟨_, rfl⟩
  have size : A.size = 4 := by unfold A; cbv
  have stored : ∀ r ∈ roots, r < A.size := by
    rw [size]
    decide
  refine ⟨⟨built, stored⟩, Built.exists_draws built stored _, ?_⟩
  unfold A roots
  cbv

end Arena

end BoundedTemporal
