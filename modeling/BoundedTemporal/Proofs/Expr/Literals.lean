/-
The literals of an expression decide its value.

* `Expr.ind`: induction over expressions, with the operands of conjunctions and
  disjunctions at hand;
* `Expr.lits_negate`, `Expr.lits_all`, `Expr.lits_any`: construction keeps the
  literal occurrences and their order;
* `Expr.eval_congr`: assignments that agree on the literals give one value;
* `Expr.map`: replaces every literal. Construction (`map_all`, `map_any`), evaluation,
  occurrences, replacement once more and partial replacement (`eval_map`, `lits_map`,
  `map_map`, `mapM?_eq_map`) are read off it.
-/
import BoundedTemporal.Expr.Basic
import Mathlib.Data.List.Basic

namespace BoundedTemporal

namespace Expr

variable {α β γ : Type}

/-- Induction over expressions: what the operands of an expression have in
common passes on to it. -/
@[elab_as_elim]
theorem ind {P : Expr α → Prop} (top : P top) (bot : P bot) (lit : ∀ x, P (lit x))
    (not : ∀ e, P e → P (not e)) (and : ∀ es, (∀ e ∈ es, P e) → P (and es))
    (or : ∀ es, (∀ e ∈ es, P e) → P (or es)) (e : Expr α) : P e := by
  refine @Expr.rec α P (fun es => ∀ e ∈ es, P e) top bot lit not and or ?nil ?cons e
  case nil => exact fun e he => nomatch he
  case cons => exact fun e es ihe ihes => List.forall_mem_cons.mpr ⟨ihe, ihes⟩

/-! ### Occurrences -/

lemma litsOf_eq_flatMap (es : List (Expr α)) : litsOf es = es.flatMap lits := by
  induction es with
  | nil => rfl
  | cons e es ih => rw [litsOf, ih, List.flatMap_cons]

@[simp] lemma lits_negate (e : Expr α) : e.negate.lits = e.lits := by
  cases e <;> simp [negate, lits]

@[simp] lemma lits_all (es : List (Expr α)) : (all es).lits = es.flatMap lits := by
  match es with
  | [] => simp [all, lits]
  | [e] => simp [all]
  | e :: e' :: es => exact litsOf_eq_flatMap _

@[simp] lemma lits_any (es : List (Expr α)) : (any es).lits = es.flatMap lits := by
  match es with
  | [] => simp [any, lits]
  | [e] => simp [any]
  | e :: e' :: es => exact litsOf_eq_flatMap _

/-! ### Values -/

/-- The value of a conjunction depends on the values of its operands only. -/
lemma evalAll_congr {v : α → Bool} {w : β → Bool} {ds : List (Expr α)} {es : List (Expr β)}
    (values : ds.map (eval v) = es.map (eval w)) : evalAll v ds = evalAll w es := by
  calc evalAll v ds = (ds.map (eval v)).all id := by rw [evalAll_eq_all, List.all_map]; rfl
    _ = (es.map (eval w)).all id := by rw [values]
    _ = evalAll w es := by rw [evalAll_eq_all, List.all_map]; rfl

/-- The value of a disjunction depends on the values of its operands only. -/
lemma evalAny_congr {v : α → Bool} {w : β → Bool} {ds : List (Expr α)} {es : List (Expr β)}
    (values : ds.map (eval v) = es.map (eval w)) : evalAny v ds = evalAny w es := by
  calc evalAny v ds = (ds.map (eval v)).any id := by rw [evalAny_eq_any, List.any_map]; rfl
    _ = (es.map (eval w)).any id := by rw [values]
    _ = evalAny w es := by rw [evalAny_eq_any, List.any_map]; rfl

/-- Assignments that agree on the literals of an expression give it the same
value. -/
lemma eval_congr {v w : α → Bool} (e : Expr α) (agree : ∀ x ∈ e.lits, v x = w x) :
    e.eval v = e.eval w := by
  -- operands of a compound expression agree because their literals are among its own
  have operands : ∀ es : List (Expr α),
      (∀ e ∈ es, (∀ x ∈ e.lits, v x = w x) → e.eval v = e.eval w) →
      (∀ x ∈ litsOf es, v x = w x) → es.map (eval v) = es.map (eval w) := by
    intro es ih agree
    refine List.map_congr_left fun e he => ih e he fun x hx => agree x ?_
    rw [litsOf_eq_flatMap]
    exact List.mem_flatMap.mpr ⟨e, he, hx⟩
  induction e using ind with
  | top => rfl
  | bot => rfl
  | lit x => exact agree x (by simp [lits])
  | not e ih => rw [eval, eval, ih agree]
  | and es ih =>
      rw [eval, eval]
      exact evalAll_congr (operands es ih agree)
  | or es ih =>
      rw [eval, eval]
      exact evalAny_congr (operands es ih agree)

/-! ### Replacement -/

mutual

/-- Replaces each literal. -/
def map (f : α → β) : Expr α → Expr β
  | top => top
  | bot => bot
  | lit x => lit (f x)
  | not e => not (e.map f)
  | and es => and (mapAll f es)
  | or es => or (mapAll f es)

/-- Replaces the literals of several expressions. -/
def mapAll (f : α → β) : List (Expr α) → List (Expr β)
  | [] => []
  | e :: es => e.map f :: mapAll f es

end

lemma mapAll_eq_map (f : α → β) (es : List (Expr α)) : mapAll f es = es.map (map f) := by
  induction es with
  | nil => rfl
  | cons e es ih => rw [mapAll, ih, List.map_cons]

@[simp] lemma map_negate (f : α → β) (e : Expr α) : e.negate.map f = (e.map f).negate := by
  cases e <;> rfl

@[simp] lemma map_all (f : α → β) (es : List (Expr α)) :
    (all es).map f = all (es.map (map f)) := by
  match es with
  | [] => rfl
  | [e] => rfl
  | e :: e' :: es => exact congrArg and (mapAll_eq_map f (e :: e' :: es))

@[simp] lemma map_any (f : α → β) (es : List (Expr α)) :
    (any es).map f = any (es.map (map f)) := by
  match es with
  | [] => rfl
  | [e] => rfl
  | e :: e' :: es => exact congrArg or (mapAll_eq_map f (e :: e' :: es))

/-- A replaced literal has the value of its replacement. -/
lemma eval_map (f : α → β) (v : β → Bool) (e : Expr α) :
    (e.map f).eval v = e.eval fun x => v (f x) := by
  induction e using ind with
  | top => rfl
  | bot => rfl
  | lit x => rfl
  | not e ih => rw [map, eval, eval, ih]
  | and es ih =>
      rw [map, eval, eval, mapAll_eq_map]
      exact evalAll_congr (by rw [List.map_map]; exact List.map_congr_left ih)
  | or es ih =>
      rw [map, eval, eval, mapAll_eq_map]
      exact evalAny_congr (by rw [List.map_map]; exact List.map_congr_left ih)

/-- The occurrences are replaced one by one. -/
lemma lits_map (f : α → β) (e : Expr α) : (e.map f).lits = e.lits.map f := by
  have operands : ∀ es : List (Expr α), (∀ e ∈ es, (e.map f).lits = e.lits.map f) →
      litsOf (mapAll f es) = (litsOf es).map f := by
    intro es ih
    rw [litsOf_eq_flatMap, litsOf_eq_flatMap, mapAll_eq_map, List.flatMap_map, List.map_flatMap]
    exact List.flatMap_congr ih
  induction e using ind with
  | top => rfl
  | bot => rfl
  | lit x => rfl
  | not e ih => rw [map, lits, lits, ih]
  | and es ih => rw [map, lits, lits, operands es ih]
  | or es ih => rw [map, lits, lits, operands es ih]

/-- Literals may be replaced twice, or once by what comes out. -/
lemma map_map (f : α → β) (g : β → γ) (e : Expr α) : (e.map f).map g = e.map fun x => g (f x) := by
  have operands : ∀ es : List (Expr α), (∀ e ∈ es, (e.map f).map g = e.map fun x => g (f x)) →
      mapAll g (mapAll f es) = mapAll (fun x => g (f x)) es := by
    intro es ih
    rw [mapAll_eq_map, mapAll_eq_map, mapAll_eq_map, List.map_map]
    exact List.map_congr_left ih
  induction e using ind with
  | top => rfl
  | bot => rfl
  | lit x => rfl
  | not e ih => rw [map, map, map, ih]
  | and es ih => rw [map, map, map, operands es ih]
  | or es ih => rw [map, map, map, operands es ih]

/-- Partial replacement succeeds when every literal has a replacement. -/
lemma mapM?_eq_map {f : α → Option β} {g : α → β} (e : Expr α)
    (found : ∀ x ∈ e.lits, f x = some (g x)) : e.mapM? f = some (e.map g) := by
  have operands : ∀ es : List (Expr α),
      (∀ e ∈ es, (∀ x ∈ e.lits, f x = some (g x)) → e.mapM? f = some (e.map g)) →
      (∀ x ∈ litsOf es, f x = some (g x)) → mapAllM? f es = some (mapAll g es) := by
    intro es
    induction es with
    | nil => intro _ _; rfl
    | cons e es ihes =>
        intro ih found
        have head := ih e (by simp) fun x hx => found x (by simp [litsOf, hx])
        have tail := ihes (fun e' he' => ih e' (by simp [he']))
          fun x hx => found x (by simp [litsOf, hx])
        rw [mapAllM?, head, tail, mapAll]
        rfl
  induction e using ind with
  | top => rfl
  | bot => rfl
  | lit x => rw [mapM?, found x (by simp [lits]), map]; rfl
  | not e ih => rw [mapM?, ih found, map]; rfl
  | and es ih => rw [mapM?, operands es ih found, map]; rfl
  | or es ih => rw [mapM?, operands es ih found, map]; rfl

end Expr

end BoundedTemporal
