/-
Unrollings stay valid while the arena grows.

* `Plan.withArena`: the same plan over another arena; `Plan.make_eq_map_withArena`: an arena
  that extends another one accepts and refuses the same, and `Plan.encode?_withArena`: it leads
  to the same encoding;
* `Unrolling.SameAnswers`: two unrollings give the same answer to every question;
* `Unrolling.unchanged_build`: no history of requests changes what is stored, nor what an
  unrolling says about it.
-/
import BoundedTemporal.Proofs.Arena.Stability
import BoundedTemporal.Proofs.Unrolling.Applied
import BoundedTemporal.Unrolling.Valuation

namespace BoundedTemporal

namespace Plan

variable {A A' : Arena} {P : Plan} {root id : NodeId} {H : Horizon} {scope : String} {t : Nat}

/-- The same plan over another arena. -/
def withArena (P : Plan) (A' : Arena) : Plan :=
  { P with arena := A' }

/-- The same plans are accepted, and all others are refused for the same reason. -/
lemma make_eq_map_withArena (wf : A.WellFormed) (larger : A'.Extends A)
    (stored : root < A.size) :
    make A' root H scope = (make A root H scope).map (·.withArena A') := by
  have found : A.contains root = true := decide_eq_true stored
  have found' : A'.contains root = true := decide_eq_true (larger.lt_size stored)
  simp only [make, found, found', Bool.not_true, Bool.false_eq_true, if_false,
    larger.atomsOf_eq wf stored, larger.descendants_eq wf stored]
  split
  · rfl
  · split <;> rfl

section

variable (larger : A'.Extends P.arena) (stored : ∀ id ∈ P.nodes, id < P.arena.size)
include larger

lemma ticksOf_withArena (hid : id < P.arena.size) :
    (P.withArena A').ticksOf id = P.ticksOf id := by
  simp only [ticksOf, withArena, larger.node?_eq hid]

/-- A slot is filled alike: the node is the same, and the literals of its operands are those in
the table. -/
lemma fill?_withArena (hid : id < P.arena.size) (E : Encoding) :
    (P.withArena A').fill? E (id, t) = P.fill? E (id, t) := by
  have cell : (P.withArena A').cell? E id t = P.cell? E id t := by
    simp only [cell?, withArena, larger.node?_eq hid]
    rfl
  rw [fill?, fill?, cell]

include stored

lemma slots_withArena : (P.withArena A').slots = P.slots :=
  List.flatMap_congr fun id hid => by rw [ticksOf_withArena larger (stored id hid)]

lemma operators_withArena : (P.withArena A').operators = P.operators :=
  List.filter_congr fun id hid => by
    have atom : A'.atom? id = P.arena.atom? id := larger.atom?_eq (stored id hid)
    exact congrArg Option.isNone atom

/-- **The same encoding** is found. -/
lemma encode?_withArena : (P.withArena A').encode? = P.encode? := by
  rw [encode?, encode?, slots_withArena larger stored]
  refine foldlM_congr (fun E slot mem => ?_) Encoding.empty
  obtain ⟨id, hid, ht⟩ := List.mem_flatMap.mp mem
  obtain ⟨t, -, rfl⟩ := List.mem_map.mp ht
  exact fill?_withArena larger (stored id hid) E

end

end Plan

namespace Unrolling

variable {A A' : Arena} {P : Plan}

/-- Both unrollings give the same answer to every question. -/
structure SameAnswers (U U' : Unrolling) : Prop where
  nodes : U'.plan.nodes = U.plan.nodes
  theta : ∀ id t, U'.theta id t = U.theta id t
  thetas : ∀ id, U'.thetas id = U.thetas id
  definition? : ∀ id t, U'.definition? id t = U.definition? id t
  constraints : U'.constraints = U.constraints
  symbols : U'.symbols = U.symbols
  stats : U'.stats = U.stats
  evaluate : ∀ tr, U'.evaluate tr = U.evaluate tr

/-- Over an arena that extends the one of the plan, an encoding answers alike. -/
lemma sameAnswers_withArena (larger : A'.Extends P.arena)
    (stored : ∀ id ∈ P.nodes, id < P.arena.size) (encoding? : Option Encoding) :
    SameAnswers ⟨P, encoding?⟩ ⟨P.withArena A', encoding?⟩ where
  nodes := rfl
  theta _ _ := rfl
  thetas _ := rfl
  definition? _ _ := rfl
  constraints := rfl
  symbols := by
    simp only [symbols, Plan.operators_withArena larger stored]
    rfl
  stats := rfl
  evaluate _ := rfl

lemma sameAnswers_apply (larger : A'.Extends P.arena)
    (stored : ∀ id ∈ P.nodes, id < P.arena.size) (n : Nat) :
    SameAnswers (apply^[n] (ofPlan P)) (apply^[n] (ofPlan (P.withArena A'))) := by
  cases n with
  | zero => exact sameAnswers_withArena larger stored none
  | succ n =>
      rw [apply_iterate_ofPlan, apply_iterate_ofPlan, Plan.encode?_withArena larger stored]
      exact sameAnswers_withArena larger stored P.encode?

/-- **Nothing that is stored is changed by later requests**, whether they succeed or fail.
Everything that can be asked about a stored formula has the same answer as before, the formula
is accepted or refused for the same reason as before, and its unrolling, however often it has
been applied, says the same. -/
theorem unchanged_build (built : A.Built) {id : NodeId} (stored : id < A.size)
    (history : List Call) :
    let A' := A.build history
    A.SameBelow A' id ∧ ∀ H scope,
      (∀ e, Plan.make A' id H scope = .error e ↔ Plan.make A id H scope = .error e)
      ∧ ∀ P, Plan.make A id H scope = .ok P →
          ∃ P', Plan.make A' id H scope = .ok P'
            ∧ ∀ n, SameAnswers (apply^[n] (ofPlan P)) (apply^[n] (ofPlan P')) := by
  intro A'
  have larger := Arena.extends_build A history
  refine ⟨Arena.sameBelow_build built stored history, fun H scope => ?_⟩
  rw [Plan.make_eq_map_withArena built.wellFormed larger stored]
  cases made : Plan.make A id H scope with
  | error e => exact ⟨fun e' => Iff.rfl, fun P h => by cases h⟩
  | ok P =>
      obtain ⟨-, -, -, rfl⟩ := Plan.make_eq_ok_iff.mp made
      refine ⟨fun e => iff_of_false (fun h => by cases h) (fun h => by cases h), fun P h => ?_⟩
      cases h
      exact ⟨_, rfl, sameAnswers_apply larger fun p hp => (Arena.mem_descendants.mp hp).1⟩

/-- `X a` before and after an implication has been stored, an atom has been found again, and a
request has failed. -/
theorem unchanged_build_next :
    let A := Arena.build ∅ [.add (.atom "a"), .add (.next 0)]
    let A' := A.build [.implies 0 1, .add (.atom "a"), .add (.not 7)]
    1 < A.size ∧ A'.size = 4 ∧ A.SameBelow A' 1
      ∧ ∃ P P', Plan.make A 1 ⟨2⟩ "theta" = .ok P ∧ Plan.make A' 1 ⟨2⟩ "theta" = .ok P'
        ∧ SameAnswers (ofPlan P).apply (ofPlan P').apply := by
  intro A A'
  have stored : 1 < A.size := by decide
  obtain ⟨below, unchanged⟩ := unchanged_build (A := A) ⟨_, rfl⟩ stored
    [.implies 0 1, .add (.atom "a"), .add (.not 7)]
  have made : Plan.make A 1 ⟨2⟩ "theta" = .ok ⟨A, 1, ⟨2⟩, "theta", A.descendants 1⟩ :=
    Plan.make_eq_ok (by decide) (by decide) (by decide)
  obtain ⟨P', made', same⟩ := (unchanged ⟨2⟩ "theta").2 _ made
  exact ⟨stored, by decide, below, _, P', made, made', same 1⟩

end Unrolling

end BoundedTemporal
