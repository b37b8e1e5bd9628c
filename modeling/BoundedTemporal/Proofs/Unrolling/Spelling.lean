/-
The texts of the literals of an unrolling.

Within one unrolling a text belongs to one node and one tick. Across two unrollings of one
arena this is not so, even if their scopes differ: a scope and a position may be divided
at different places, and an atom of one formula may have the name of a symbol of the
other.

* `Unrolling.make_iff_and_texts_injective`: what is accepted, and that texts are unique
  in whatever is accepted;
* `Plan.Apart`: neither of two plans has a scope or an atom with a name that the scope of
  the other keeps for its symbols;
* `Unrolling.text_eq_iff_of_scope_ne`: when literals of two scopes have one text.
-/
import BoundedTemporal.Proofs.Encoding.Spelling
import BoundedTemporal.Proofs.Unrolling.Applied

namespace BoundedTemporal

namespace Plan

variable {A : Arena} {root : NodeId} {H : Horizon} {scope : String} {P P' : Plan}
  {id id' : NodeId} {t t' : Nat}

/-! ### Acceptance -/

/-- A plan is made for a stored formula and a scope that is not empty, unless an atom that
the formula reaches has a name that the scope keeps. -/
lemma exists_make_iff : (∃ P, make A root H scope = .ok P) ↔
    root < A.size ∧ scope ≠ "" ∧ ∀ id, A.Reaches root id →
      ∀ name, A.node? id = some (.atom name) → isSymbolName scope name = false := by
  have clear : (∀ name ∈ A.atomsOf root, isSymbolName scope name = false) ↔
      ∀ id, A.Reaches root id → ∀ name, A.node? id = some (.atom name) →
        isSymbolName scope name = false := by
    simp only [Arena.mem_atomsOf, Arena.mem_descendants]
    constructor
    · exact fun h id reach name hn => h name ⟨id, ⟨Arena.lt_size_of_node? hn, reach⟩, hn⟩
    · rintro h name ⟨id, ⟨-, reach⟩, hn⟩
      exact h id reach name hn
  rw [← clear, Ne, ← String.isEmpty_iff, Bool.not_eq_true]
  constructor
  · rintro ⟨P, h⟩
    obtain ⟨hroot, hscope, hclear, -⟩ := make_eq_ok_iff.mp h
    exact ⟨hroot, hscope, hclear⟩
  · rintro ⟨hroot, hscope, hclear⟩
    exact ⟨_, make_eq_ok_iff.mpr ⟨hroot, hscope, hclear, rfl⟩⟩

/-- Whatever is wrong, it is an argument. -/
lemma kind_of_make_eq_error {e : Error} (h : make A root H scope = .error e) :
    e.kind = .invalidArgument := by
  unfold make at h
  split at h
  · cases h
    rfl
  · split at h
    · cases h
      rfl
    · split at h
      · cases h
        rfl
      · cases h

/-! ### Two scopes -/

/-- Neither plan has a scope or an atom with a name that the scope of the other keeps for
its symbols. -/
structure Apart (P P' : Plan) : Prop where
  scope : isSymbolName P.scope P'.scope = false ∧ isSymbolName P'.scope P.scope = false
  left : ∀ name ∈ P.arena.atomsOf P.root, isSymbolName P'.scope name = false
  right : ∀ name ∈ P'.arena.atomsOf P'.root, isSymbolName P.scope name = false

lemma Apart.symm (apart : Apart P P') : Apart P' P where
  scope := apart.scope.symm
  left := apart.right
  right := apart.left

/-- Plans that are apart have no literals that are written alike. -/
lemma Apart.not_alike (apart : Apart P P') (accepted' : P'.Accepted) (hid' : id' ∈ P'.nodes) :
    ¬ Proposition.Alike (P.literal id t).proposition (P'.literal id' t').proposition := by
  intro alike
  rcases P.proposition_literal_cases id t with ⟨a, -, h⟩ | h <;> rw [h] at alike
  · cases alike
  · rcases P'.proposition_literal_cases id' t' with ⟨b, hn, h'⟩ | h' <;> rw [h'] at alike
    · rw [accepted'.nodes_eq] at hid'
      have clear := apart.right b (Arena.mem_atomsOf.mpr ⟨id', hid', hn⟩)
      cases alike
      rw [isSymbolName_text ⟨P.scope, id⟩] at clear
      cases clear
    · have clear := apart.scope.1
      cases alike with
      | digits s s' ds nonempty scope node =>
          rw [isSymbolName_of_digits nonempty scope node] at clear
          cases clear

/-- Literals of different scopes are equal only as the same atom at the same tick. -/
lemma literal_eq_iff_of_scope_ne (built : P.arena.Built) (same : P.arena = P'.arena)
    (distinct : P.scope ≠ P'.scope) : P.literal id t = P'.literal id' t' ↔
      id = id' ∧ t = t' ∧ ∃ a, P.arena.node? id = some (.atom a) := by
  rw [Literal.eq_iff, tick_literal, tick_literal]
  constructor
  · rintro ⟨h, ticks⟩
    rcases P.proposition_literal_cases id t with ⟨a, hn, hl⟩ | hl <;>
      rcases P'.proposition_literal_cases id' t' with ⟨b, hn', hl'⟩ | hl' <;>
      rw [hl, hl'] at h
    · rw [← same, ← Proposition.atom.inj h] at hn'
      exact ⟨built.atom_unique hn hn', ticks, a, hn⟩
    · cases h
    · cases h
    · exact absurd (Symbol.mk.inj (Proposition.theta.inj h)).1 distinct
  · rintro ⟨rfl, rfl, a, hn⟩
    have hn' : P'.arena.node? id = some (.atom a) := same ▸ hn
    rw [literal_atom hn, literal_atom hn']
    exact ⟨rfl, rfl⟩

end Plan

namespace Unrolling

variable {A : Arena}

/-- **Within an unrolling, texts are unique.** A formula is accepted exactly when it is
stored, the scope is not empty, and no atom that the formula reaches is named by the scope
and some digits; all else is an invalid argument. Once an accepted formula has been
unrolled, no two literals of different nodes or ticks have one text. -/
theorem make_iff_and_texts_injective (built : A.Built) (root : NodeId) (H : Horizon)
    (scope : String) :
    ((∃ P, Plan.make A root H scope = .ok P) ↔
        root < A.size ∧ scope ≠ "" ∧ ∀ id, A.Reaches root id →
          ∀ name, A.node? id = some (.atom name) →
            ¬ ∃ ds : List Char, ds ≠ [] ∧ (∀ d ∈ ds, d.isDigit = true)
              ∧ name = scope ++ String.ofList ds)
      ∧ (∀ e, Plan.make A root H scope = .error e → e.kind = .invalidArgument)
      ∧ ∀ P, Plan.make A root H scope = .ok P → ∀ n, let U := apply^[n + 1] (ofPlan P)
          ∀ id ∈ P.nodes, ∀ t ≤ H.last, ∀ id' ∈ P.nodes, ∀ t' ≤ H.last,
            ∃ l l', U.theta id t = .ok l ∧ U.theta id' t' = .ok l'
              ∧ (l.text = l'.text → id = id' ∧ t = t') := by
  refine ⟨?_, fun e h => Plan.kind_of_make_eq_error h, ?_⟩
  · simp only [Plan.exists_make_iff, ← Plan.isSymbolName_iff, Bool.not_eq_true]
  · intro P made n U id hid t ht id' hid' t' ht'
    have accepted : P.Accepted := ⟨A, root, H, scope, built, made⟩
    obtain ⟨-, -, -, rfl⟩ := Plan.make_eq_ok_iff.mp made
    exact ⟨_, _, accepted.theta_apply n hid ht, accepted.theta_apply n hid' ht',
      accepted.text_literal_inj hid hid'⟩

/-- The scope `theta` is refused for a formula with the atom `theta1`, and accepted for one
without it, though the arena has the atom. An atom may be named like a literal. -/
theorem make_iff_and_texts_injective_parentheses :
    let A := Arena.build ∅
      [.add (.atom "theta1(0)"), .add (.next 0), .add (.atom "theta1"), .add (.or 1 2)]
    (¬ ∃ P, Plan.make A 3 ⟨1⟩ "theta" = .ok P)
      ∧ ∃ P, Plan.make A 1 ⟨1⟩ "theta" = .ok P
        ∧ (ofPlan P).apply.theta 0 0 = .ok ⟨.atom "theta1(0)", 0⟩
        ∧ (ofPlan P).apply.theta 1 0 = .ok ⟨.theta ⟨"theta", 1⟩, 0⟩
        ∧ Literal.text ⟨.atom "theta1(0)", 0⟩ ≠ Literal.text ⟨.theta ⟨"theta", 1⟩, 0⟩ := by
  intro A
  obtain ⟨refused, -, -⟩ := make_iff_and_texts_injective (A := A) ⟨_, rfl⟩ 3 ⟨1⟩ "theta"
  obtain ⟨-, -, unique⟩ := make_iff_and_texts_injective (A := A) ⟨_, rfl⟩ 1 ⟨1⟩ "theta"
  constructor
  · rw [refused]
    rintro ⟨-, -, clear⟩
    have below : A.Reaches 3 2 := .single ⟨_, rfl, by decide⟩
    exact clear 2 below "theta1" rfl
      ⟨['1'], List.cons_ne_nil _ _, List.forall_mem_singleton.mpr rfl, rfl⟩
  · have wf : A.WellFormed := Arena.Built.wellFormed ⟨_, rfl⟩
    have clear : ∀ id, A.Reaches 1 id → ∀ name, A.node? id = some (.atom name) →
        Plan.isSymbolName "theta" name = false := by
      intro id reach name hn
      rcases Nat.le_one_iff_eq_zero_or_eq_one.mp (wf.le_of_reaches reach) with rfl | rfl
      · cases hn
        decide
      · cases hn
    obtain ⟨P, made⟩ := Plan.exists_make_iff.mpr ⟨by decide, by decide, clear⟩
    have accepted : P.Accepted := ⟨A, 1, ⟨1⟩, "theta", ⟨_, rfl⟩, made⟩
    obtain ⟨-, -, -, rfl⟩ := Plan.make_eq_ok_iff.mp made
    have root : 1 ∈ A.descendants 1 := accepted.root_mem
    have operand : 0 ∈ A.descendants 1 := accepted.mem_nodes_iff.mpr (.single ⟨_, rfl, by decide⟩)
    have atom : (ofPlan _).apply.theta 0 0 = .ok _ := accepted.theta_apply 0 operand (by decide)
    have next : (ofPlan _).apply.theta 1 0 = .ok _ := accepted.theta_apply 0 root (by decide)
    refine ⟨_, made, atom, next, fun same => ?_⟩
    obtain ⟨l, l', hl, hl', h⟩ := unique _ made 0 0 operand 0 (by decide) 1 root 0 (by decide)
    cases atom.symm.trans hl
    cases next.symm.trans hl'
    exact absurd (h same).1 (by decide)

/-- **When literals of two scopes have one text.** Literals of different scopes are equal
only as the same atom at the same tick. Others have one text exactly when the ticks are the
same and the propositions are written alike; this does not happen if the plans are apart. -/
theorem text_eq_iff_of_scope_ne {root root' : NodeId} {H H' : Horizon} {scope scope' : String}
    {P P' : Plan} (built : A.Built) (made : Plan.make A root H scope = .ok P)
    (made' : Plan.make A root' H' scope' = .ok P') (distinct : scope ≠ scope') (n n' : Nat) :
    let U := apply^[n + 1] (ofPlan P)
    let U' := apply^[n' + 1] (ofPlan P')
    ∀ id ∈ P.nodes, ∀ t ≤ H.last, ∀ id' ∈ P'.nodes, ∀ t' ≤ H'.last,
      ∃ l l', U.theta id t = .ok l ∧ U'.theta id' t' = .ok l'
        ∧ (l = l' ↔ id = id' ∧ t = t' ∧ ∃ a, A.node? id = some (.atom a))
        ∧ (l.text = l'.text ↔ l = l' ∨ t = t'
            ∧ (l.proposition.Alike l'.proposition ∨ l'.proposition.Alike l.proposition))
        ∧ (P.Apart P' → l.text = l'.text → l = l') := by
  intro U U' id hid t ht id' hid' t' ht'
  have accepted : P.Accepted := ⟨A, root, H, scope, built, made⟩
  have accepted' : P'.Accepted := ⟨A, root', H', scope', built, made'⟩
  obtain ⟨-, -, -, rfl⟩ := Plan.make_eq_ok_iff.mp made
  obtain ⟨-, -, -, rfl⟩ := Plan.make_eq_ok_iff.mp made'
  refine ⟨_, _, accepted.theta_apply n hid ht, accepted'.theta_apply n' hid' ht',
    Plan.literal_eq_iff_of_scope_ne built rfl distinct, ?_, ?_⟩
  · rw [Literal.text_eq_iff, Proposition.text_eq_iff, Literal.eq_iff, Plan.tick_literal,
      Plan.tick_literal, or_and_right]
    exact or_congr_right and_comm
  · intro apart texts
    rw [Literal.text_eq_iff, Proposition.text_eq_iff, or_iff_left, ← Literal.eq_iff] at texts
    · exact texts
    · rintro (alike | alike)
      · exact apart.not_alike accepted' hid' alike
      · exact apart.symm.not_alike accepted hid alike

/-- The scopes `l` and `r` are apart: `X a` has two texts, and `a` has one. -/
theorem text_eq_iff_of_scope_ne_next :
    let A := Arena.build ∅ [.add (.atom "a"), .add (.next 0)]
    ∃ P P', Plan.make A 1 ⟨2⟩ "l" = .ok P ∧ Plan.make A 1 ⟨2⟩ "r" = .ok P' ∧ P.Apart P'
      ∧ (∃ l l', (ofPlan P).apply.theta 1 0 = .ok l ∧ (ofPlan P').apply.theta 1 0 = .ok l'
        ∧ l.text ≠ l'.text)
      ∧ ∃ l, (ofPlan P).apply.theta 0 0 = .ok l ∧ (ofPlan P').apply.theta 0 0 = .ok l := by
  intro A
  let P : Plan := ⟨A, 1, ⟨2⟩, "l", A.descendants 1⟩
  let P' : Plan := ⟨A, 1, ⟨2⟩, "r", A.descendants 1⟩
  have made : Plan.make A 1 ⟨2⟩ "l" = .ok P :=
    Plan.make_eq_ok (by decide) (by decide) (by decide)
  have made' : Plan.make A 1 ⟨2⟩ "r" = .ok P' :=
    Plan.make_eq_ok (by decide) (by decide) (by decide)
  have accepted : P.Accepted := ⟨A, 1, ⟨2⟩, "l", ⟨_, rfl⟩, made⟩
  have operand : 0 ∈ P.nodes := accepted.mem_nodes_iff.mpr (.single ⟨_, rfl, by decide⟩)
  have clear : ∀ id < A.size, ∀ name ∈ A.atom? id,
      Plan.isSymbolName "l" name = false ∧ Plan.isSymbolName "r" name = false := by decide
  have apart : P.Apart P' := {
    scope := by decide
    left := fun name h =>
      let ⟨id, hid, hname⟩ := Arena.exists_atom?_of_mem_atomsOf h
      (clear id hid name hname).2
    right := fun name h =>
      let ⟨id, hid, hname⟩ := Arena.exists_atom?_of_mem_atomsOf h
      (clear id hid name hname).1 }
  have texts := text_eq_iff_of_scope_ne ⟨_, rfl⟩ made made' (by decide) 0 0
  refine ⟨P, P', made, made', apart, ?_, ?_⟩
  · obtain ⟨l, l', hl, hl', same, -, unique⟩ :=
      texts 1 accepted.root_mem 0 (by decide) 1 accepted.root_mem 0 (by decide)
    refine ⟨l, l', hl, hl', fun h => ?_⟩
    obtain ⟨-, -, a, hn⟩ := same.mp (unique apart h)
    cases hn
  · obtain ⟨l, l', hl, hl', same, -⟩ := texts 0 operand 0 (by decide) 0 operand 0 (by decide)
    obtain rfl := same.mpr ⟨rfl, rfl, "a", rfl⟩
    exact ⟨l, hl, hl'⟩

/-- Different scopes are not enough: the position 11 in the scope `theta` and the position 1
in the scope `theta1` are written alike. -/
theorem texts_not_injective_of_scope_ne :
    let A := Arena.build ∅ (.add (.atom "a") :: (List.range 11).map fun p => .add (.next p))
    ∃ P P' l l', Plan.make A 11 ⟨0⟩ "theta" = .ok P ∧ Plan.make A 1 ⟨0⟩ "theta1" = .ok P'
      ∧ 11 ∈ P.nodes ∧ 1 ∈ P'.nodes
      ∧ (ofPlan P).apply.theta 11 0 = .ok l ∧ (ofPlan P').apply.theta 1 0 = .ok l'
      ∧ l ≠ l' ∧ l.text = "theta11(0)" ∧ l'.text = "theta11(0)" := by
  intro A
  let P : Plan := ⟨A, 11, ⟨0⟩, "theta", A.descendants 11⟩
  let P' : Plan := ⟨A, 1, ⟨0⟩, "theta1", A.descendants 1⟩
  have made : Plan.make A 11 ⟨0⟩ "theta" = .ok P :=
    Plan.make_eq_ok (by decide +kernel) (by decide) (by decide +kernel)
  have made' : Plan.make A 1 ⟨0⟩ "theta1" = .ok P' :=
    Plan.make_eq_ok (by decide +kernel) (by decide) (by decide +kernel)
  have accepted : P.Accepted := ⟨A, 11, ⟨0⟩, "theta", ⟨_, rfl⟩, made⟩
  have accepted' : P'.Accepted := ⟨A, 1, ⟨0⟩, "theta1", ⟨_, rfl⟩, made'⟩
  have hid : 11 ∈ P.nodes := accepted.root_mem
  have hid' : 1 ∈ P'.nodes := accepted'.root_mem
  refine ⟨P, P', _, _, made, made', hid, hid', accepted.theta_apply 0 hid (by decide),
    accepted'.theta_apply 0 hid' (by decide), ?_, ?_, ?_⟩
  · decide +kernel
  · decide +kernel
  · decide +kernel

end Unrolling

end BoundedTemporal
