/-
Drawings of stored formulas as graphs.

* `Drawing`: the atoms, the operators, an edge for each operand, and the roots;
  shared subformulas are drawn once;
* `Drawing.Style`: shapes and line styles;
* `Arena.draw`: the drawing of the formulas at some roots;
* `Drawing.lines`, `Drawing.text`: the drawing in the DOT language, with atoms
  at the bottom and roots at the top.
-/
import BoundedTemporal.Arena.Reach

namespace BoundedTemporal

/-- How a drawing looks. -/
structure Drawing.Style where
  operatorShape : String := "ellipse"
  atomShape : String := "box"
  rootShape : String := "rect"
  /-- The line to the first operand. -/
  firstLine : String := "solid"
  /-- The line to the other operand. -/
  secondLine : String := "dashed"
  /-- Whether ids are shown in front of symbols. -/
  showIds : Bool := false
deriving DecidableEq, Repr

/-- A node with what is written in it. -/
structure Drawing.Vertex where
  id : NodeId
  label : String
deriving DecidableEq, Repr

/-- A line from a node to one of its operands. -/
structure Drawing.Edge where
  source : NodeId
  target : NodeId
  line : String
deriving DecidableEq, Repr

/-- The parts of a drawing. The roots are listed with the formulas that stand
in them, and may repeat. -/
structure Drawing where
  style : Drawing.Style
  atoms : List Drawing.Vertex
  operators : List Drawing.Vertex
  edges : List Drawing.Edge
  roots : List Drawing.Vertex
deriving DecidableEq, Repr

namespace Arena

/-- The node at an id with its label. -/
def vertex (style : Drawing.Style) (id : NodeId) (node : Node NodeId) : Drawing.Vertex :=
  ⟨id, if style.showIds then id.text ++ " " ++ node.symbol else node.symbol⟩

/-- The lines from a node to its operands, left to right. -/
def edgesOf (style : Drawing.Style) (id : NodeId) (node : Node NodeId) : List Drawing.Edge :=
  node.operands.zipIdx.map fun (operand, position) =>
    ⟨id, operand, if position = 0 then style.firstLine else style.secondLine⟩

/-- The nodes below one of the roots, in ascending order. -/
def below (A : Arena) (roots : List NodeId) : List NodeId :=
  let reached : NodeSet := .ofList (roots.flatMap A.descendants)
  reached.toList

/-- The drawing of the formulas at the roots. -/
def draw (A : Arena) (roots : List NodeId) (style : Drawing.Style) : Drawing :=
  let nodes := (A.below roots).filterMap fun id => (A.node? id).map (id, ·)
  let operators := nodes.filter fun (_, node) => !node.isAtom
  { style
    atoms := (nodes.filter fun (_, node) => node.isAtom).map fun (id, node) => vertex style id node
    operators := operators.map fun (id, node) => vertex style id node
    edges := operators.flatMap fun (id, node) => edgesOf style id node
    roots := roots.map fun id => ⟨id, A.text id⟩ }

end Arena

namespace Drawing

/-- A text as a label. -/
def label (s : String) : String :=
  "label=\"" ++ s ++ "\""

/-- The declaration of an atom. -/
def atomLine (d : Drawing) (v : Vertex) : String :=
  s!"{v.id} [shape={d.style.atomShape}, {label v.label}];"

/-- The declaration of an operator. -/
def operatorLine (v : Vertex) : String :=
  s!"{v.id} [{label v.label}];"

/-- The statement of an edge. -/
def edgeLine (e : Edge) : String :=
  s!"{e.source} -> {e.target} [style={e.line}];"

/-- The declaration of the root at a position. -/
def rootLine (d : Drawing) (position : Nat) (v : Vertex) : String :=
  s!"r{position} [shape={d.style.rootShape}, {label v.label}];"

/-- The edge from the root at a position to its formula. -/
def rootEdgeLine (position : Nat) (v : Vertex) : String :=
  s!"r{position} -> {v.id};"

/-- The statements of a drawing. -/
def lines (d : Drawing) : List String :=
  ["digraph \x7b", s!"node [shape={d.style.operatorShape}];", "\x7b rank=sink"] ++
    d.atoms.map d.atomLine ++ ["\x7d"] ++
    d.operators.map operatorLine ++ d.edges.map edgeLine ++ ["\x7b rank=source"] ++
    d.roots.mapIdx d.rootLine ++ ["\x7d"] ++ d.roots.mapIdx rootEdgeLine ++ ["\x7d"]

/-- The drawing as text, in which every line is ended. -/
def text (d : Drawing) : String :=
  String.join (d.lines.map (· ++ "\n"))

end Drawing

end BoundedTemporal
