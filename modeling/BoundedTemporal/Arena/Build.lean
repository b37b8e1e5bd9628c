/-
Building arenas.

* `Arena.atom`, `Arena.add`: store an atom, or any node; operands must be
  stored already, and an atom that is stored is found again; atoms are
  registered before they are looked up;
* `Arena.implies`: stores an implication as a disjunction;
* `Call`, `Arena.call`, `Arena.after`: a request to store something, its
  answer, and the arena after it; a request that fails changes nothing;
* `Arena.build`: the arena after a history of requests.
-/
import BoundedTemporal.Arena.Basic

namespace BoundedTemporal

namespace Arena

/-- Appends a node together with the formula it spells out. -/
def push (A : Arena) (node : Node NodeId) (formula : Formula) : Arena :=
  { A with entries := A.entries.push ⟨node, formula⟩ }

@[simp] theorem size_push (A : Arena) (node : Node NodeId) (f : Formula) :
    (A.push node f).size = A.size + 1 := by
  simp [push, size]

theorem node?_push (A : Arena) (node : Node NodeId) (f : Formula) (id : NodeId) :
    (A.push node f).node? id = if id = A.size then some node else A.node? id := by
  simp only [push, node?, size, Array.getElem?_push]
  by_cases h : id = A.entries.size <;> simp [h]

theorem formula?_push (A : Arena) (node : Node NodeId) (f : Formula) (id : NodeId) :
    (A.push node f).formula? id = if id = A.size then some f else A.formula? id := by
  simp only [push, formula?, size, Array.getElem?_push]
  by_cases h : id = A.entries.size <;> simp [h]

/-- Takes an atom into the registry, unless it is there. -/
def register (A : Arena) (name : Atom) : Arena :=
  { A with registry := A.registry.insert name }

/-- The node of an atom, stored on first use. -/
def atom (A : Arena) (name : Atom) : NodeId × Arena :=
  let A := A.register name
  match A.atomIds[name]? with
  | some id => (id, A)
  | none =>
    (A.size, { A.push (.atom name) (.atom name) with atomIds := A.atomIds.insert name A.size })

/-- The formula of an operand, which has to be stored. -/
def operand (A : Arena) (id : NodeId) : Except Error Formula :=
  match A.formula? id with
  | some f => .ok f
  | none => .error (.missingOperand id)

/-- Stores a node. Its operands are looked up from left to right. -/
def add (A : Arena) (node : Node NodeId) : Except Error (NodeId × Arena) :=
  match node with
  | .atom name => .ok (A.atom name)
  | node => do
    let layer ← node.mapM A.operand
    return (A.size, A.push node (.ofNode layer))

/-- Stores `!a | b`. The right operand is looked up first, so that it cannot be
the negation that is about to be stored. -/
def implies (A : Arena) (a b : NodeId) : Except Error (NodeId × Arena) := do
  let _ ← A.operand b
  let (negation, A) ← A.add (.not a)
  A.add (.or negation b)

end Arena

/-- A request to store something. -/
inductive Call where
  | add (node : Node NodeId)
  | implies (a b : NodeId)
deriving DecidableEq

namespace Arena

/-- The new id and the arena that holds it. -/
def call (A : Arena) : Call → Except Error (NodeId × Arena)
  | .add node => A.add node
  | .implies a b => A.implies a b

/-- The arena after a request. -/
def after (A : Arena) (c : Call) : Arena :=
  match A.call c with
  | .ok (_, A) => A
  | .error _ => A

/-- The arena after a history of requests. -/
def build (A : Arena) (history : List Call) : Arena :=
  history.foldl after A

end Arena

end BoundedTemporal
