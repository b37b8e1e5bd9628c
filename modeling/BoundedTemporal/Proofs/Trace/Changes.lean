/-
A trace is a finite map that is changed one cell at a time.

The cells of a trace are the atoms at the ticks of its horizon. A trace is changed in place: a change
names a cell and the value that it gets, and it is refused when the tick lies past the horizon.

* `Trace.eq_iff_holds`, `Trace.eq_iff_toLists_eq`: a trace is stored as one list of atoms for each
  tick, and there is only one way to store what holds;
* `Change`, `Trace.InPlace`: changes, and computations that change a trace in place.
  `Trace.InPlace.run_set` compares them with `Trace.set`;
* `Trace.after`, `Trace.holds_after`: what one change leaves behind, also if it is refused;
  `Trace.after_comm`, `Trace.after_eq_self`: changes of different cells, and changes to what holds
  already;
* `Trace.edit`, `Trace.holds_edit_of_last`, `Trace.holds_edit_of_untouched`: what a history of
  changes leaves behind;
* `Trace.Start`, `Trace.Obtained`: where histories begin, and the traces that they lead to;
* `Trace.FiniteMap`, `Trace.finiteMap_edit`: all of this, for every history.
-/
import BoundedTemporal.Trace.Basic
import Mathlib.Tactic.Lemma

namespace BoundedTemporal

/-- A request that an atom hold, or not hold, at a tick. -/
structure Change where
  atom : Atom
  tick : Nat
  value : Bool
deriving DecidableEq

/-- The cell that a change is about. -/
def Change.cell (c : Change) : Atom × Nat :=
  (c.atom, c.tick)

namespace Trace

variable {H : Horizon} {tr tr' start : Trace} {a : Atom} {t : Nat} {value : Bool}
  {c d : Change} {history : List Change} {e : Error}

/-! ### How a trace is stored -/

lemma length_toLists (tr : Trace) : tr.toLists.length = tr.horizon.size := by
  simp [toLists]

/-- The list of a tick names the atoms that hold there, each once and in the order of their
names. -/
lemma exists_getElem?_toLists (ht : t ≤ tr.horizon.last) :
    ∃ atoms, tr.toLists[t]? = some atoms ∧ atoms.Pairwise (· < ·)
      ∧ ∀ a, a ∈ atoms ↔ tr.holds a t = true := by
  have inside : t < tr.horizon.size := Nat.lt_succ_of_le ht
  refine ⟨tr.states[t].toList, by simp [toLists, inside], ?_, fun a => ?_⟩
  · exact (Std.ExtTreeSet.ordered_toList (t := tr.states[t])).imp compareOfLessAndEq_eq_lt.mp
  · rw [holds_of_lt inside, Std.ExtTreeSet.mem_toList, Std.ExtTreeSet.contains_iff_mem]

lemma holds_iff_mem_toLists :
    tr.holds a t = true ↔ ∃ atoms, tr.toLists[t]? = some atoms ∧ a ∈ atoms := by
  by_cases ht : t ≤ tr.horizon.last
  · obtain ⟨atoms, found, -, mem⟩ := exists_getElem?_toLists ht
    simp [found, mem]
  · have late := Nat.not_le.mp ht
    have missing : tr.toLists[t]? = none := by
      rw [List.getElem?_eq_none_iff, length_toLists]
      exact late
    simp [holds_of_last_lt late, missing]

/-- **What is stored is determined by what holds**: the same atoms at the ticks of the horizon. -/
lemma eq_iff_holds :
    tr = tr' ↔ tr.horizon = tr'.horizon
      ∧ ∀ a, ∀ t ≤ tr.horizon.last, tr.holds a t = tr'.holds a t := by
  constructor
  · rintro rfl
    exact ⟨rfl, fun _ _ _ => rfl⟩
  · rintro ⟨horizon, cells⟩
    refine ext_holds horizon fun a t => ?_
    by_cases ht : t ≤ tr.horizon.last
    · exact cells a t ht
    · have late := Nat.not_le.mp ht
      rw [holds_of_last_lt late, holds_of_last_lt (horizon ▸ late)]

/-- Two traces of one horizon are the same if they are stored as the same lists. -/
lemma eq_iff_toLists_eq :
    tr = tr' ↔ tr.horizon = tr'.horizon ∧ tr.toLists = tr'.toLists := by
  constructor
  · rintro rfl
    exact ⟨rfl, rfl⟩
  · rintro ⟨horizon, lists⟩
    refine ext_holds horizon fun a t => ?_
    rw [Bool.eq_iff_iff, holds_iff_mem_toLists, holds_iff_mem_toLists, lists]

/-! ### One change -/

/-- A change is refused exactly past the horizon. -/
lemma set_eq_error_iff : tr.set a t value = .error e ↔
    tr.horizon.last < t ∧ e = .tickOutOfRange t tr.horizon.last := by
  unfold set
  split
  · rename_i inside
    simp [Nat.not_lt.mpr (Nat.le_of_lt_succ inside)]
  · rename_i late
    simp [Nat.lt_of_succ_le (Nat.not_lt.mp late), eq_comm]

lemma horizon_of_set (h : tr.set a t value = .ok tr') : tr'.horizon = tr.horizon := by
  unfold set at h
  split at h <;> cases h
  rfl

/-- Computations that change a trace. What they have changed stays so when they fail. -/
abbrev InPlace :=
  EStateM Error Trace

namespace InPlace

/-- Looks up the state of a tick, and puts an atom into it or takes it out. -/
def set (a : Atom) (t : Nat) (value : Bool) : InPlace Unit := do
  let tr ← get
  match tr.states[t]? with
  | some state =>
    MonadState.set { tr with states := tr.states.setIfInBounds t (state.assign a value) }
  | none => throw (.tickOutOfRange t tr.horizon.last)

/-- Carries out a change. -/
def change (c : Change) : InPlace Unit :=
  set c.atom c.tick c.value

/-- The result of a computation on `tr` that has led to another trace, or has failed with nothing
changed. -/
def settle (tr : Trace) : Except Error Trace → EStateM.Result Error Trace Unit
  | .ok tr' => .ok () tr'
  | .error e => .error e tr

/-- **A change is made, or nothing is changed.** -/
lemma run_set (tr : Trace) (a : Atom) (t : Nat) (value : Bool) :
    (set a t value).run tr = settle tr (tr.set a t value) := by
  rw [set, EStateM.run_bind, EStateM.run_get, Trace.set]
  dsimp only
  by_cases inside : t < tr.horizon.size
  · have stored (state : AtomSet) :
        tr.states.setIfInBounds t state = tr.states.set t state inside :=
      Vector.ext fun i hi => by rw [Vector.getElem_setIfInBounds, Vector.getElem_set]
    rw [Vector.getElem?_eq_getElem inside, dif_pos inside, settle, ← stored]
    rfl
  · rw [Vector.getElem?_eq_none (Nat.not_lt.mp inside), dif_neg inside]
    rfl

end InPlace

/-- The trace that a change leaves behind, also if it is refused. -/
def after (tr : Trace) (c : Change) : Trace :=
  match (InPlace.change c).run tr with
  | .ok _ tr' => tr'
  | .error _ tr' => tr'

/-- A change that is refused leaves the trace as it was. -/
lemma run_change_eq_error_iff : (InPlace.change c).run tr = .error e tr' ↔
    tr.horizon.last < c.tick ∧ e = .tickOutOfRange c.tick tr.horizon.last ∧ tr' = tr := by
  rw [InPlace.change, InPlace.run_set, ← and_assoc, ← set_eq_error_iff (a := c.atom)]
  cases tr.set c.atom c.tick c.value <;> simp [InPlace.settle, eq_comm]

/-- A change within the horizon is made. -/
lemma set_eq_ok (h : c.tick ≤ tr.horizon.last) :
    tr.set c.atom c.tick c.value = .ok (tr.after c) := by
  cases made : tr.set c.atom c.tick c.value with
  | error e => exact absurd (set_eq_error_iff.mp made).1 (Nat.not_lt.mpr h)
  | ok tr' => rw [after, InPlace.change, InPlace.run_set, made, InPlace.settle]

lemma run_change_eq_ok (h : c.tick ≤ tr.horizon.last) :
    (InPlace.change c).run tr = .ok () (tr.after c) := by
  rw [InPlace.change, InPlace.run_set, set_eq_ok h, InPlace.settle]

/-- Two changes within the horizon are made one after the other. -/
lemma run_change_change (hc : c.tick ≤ tr.horizon.last) (hd : d.tick ≤ tr.horizon.last) :
    (do InPlace.change c; InPlace.change d : InPlace Unit).run tr
      = .ok () ((tr.after c).after d) := by
  rw [← horizon_of_set (set_eq_ok hc)] at hd
  rw [EStateM.run_bind, run_change_eq_ok hc]
  exact run_change_eq_ok hd

lemma after_of_last_lt (h : tr.horizon.last < c.tick) : tr.after c = tr := by
  rw [after, run_change_eq_error_iff.mpr ⟨h, rfl, rfl⟩]

lemma horizon_after (tr : Trace) (c : Change) : (tr.after c).horizon = tr.horizon := by
  by_cases h : c.tick ≤ tr.horizon.last
  · exact horizon_of_set (set_eq_ok h)
  · rw [after_of_last_lt (Nat.not_le.mp h)]

/-- **What a change does**: its own cell gets the value, if the tick is one of the horizon, and all
other cells stay as they are. -/
lemma holds_after (tr : Trace) (c : Change) (a : Atom) (t : Nat) : (tr.after c).holds a t =
    if c.cell = (a, t) ∧ t ≤ tr.horizon.last then c.value else tr.holds a t := by
  by_cases h : c.tick ≤ tr.horizon.last
  · have same : c.cell = (a, t) ∧ t ≤ tr.horizon.last ↔ c.atom = a ∧ c.tick = t := by
      rw [Change.cell, Prod.mk.injEq]
      exact and_iff_left_of_imp fun ⟨_, tick⟩ => tick ▸ h
    simp only [holds_set (set_eq_ok h), same]
  · have other : ¬ (c.cell = (a, t) ∧ t ≤ tr.horizon.last) := by
      rintro ⟨cell, ht⟩
      exact h ((Prod.mk.inj cell).2 ▸ ht)
    rw [after_of_last_lt (Nat.not_le.mp h), if_neg other]

/-- Changes of different cells may change places. -/
lemma after_comm (tr : Trace) (different : c.cell ≠ d.cell) :
    (tr.after c).after d = (tr.after d).after c := by
  refine ext_holds (by simp only [horizon_after]) fun a t => ?_
  simp only [holds_after, horizon_after]
  by_cases hc : c.cell = (a, t)
  · have hd : d.cell ≠ (a, t) := fun hd => different (hc.trans hd.symm)
    simp [hc, hd]
  · simp [hc]

/-- A change to the present value changes nothing. -/
lemma after_eq_self (present : c.value = tr.holds c.atom c.tick) : tr.after c = tr := by
  refine ext_holds (horizon_after tr c) fun a t => ?_
  rw [holds_after]
  split
  · rename_i same
    obtain ⟨rfl, rfl⟩ := Prod.mk.inj same.1
    exact present
  · rfl

lemma run_change_present (ht : t ≤ tr.horizon.last) :
    (InPlace.change ⟨a, t, tr.holds a t⟩).run tr = .ok () tr := by
  have run := run_change_eq_ok (c := ⟨a, t, tr.holds a t⟩) ht
  rwa [after_eq_self rfl] at run

/-! ### A history of changes -/

/-- The trace after a history of changes, some of which may be refused. -/
def edit (tr : Trace) (history : List Change) : Trace :=
  history.foldl after tr

lemma edit_append (tr : Trace) (history more : List Change) :
    tr.edit (history ++ more) = (tr.edit history).edit more :=
  List.foldl_append

lemma horizon_edit (tr : Trace) (history : List Change) :
    (tr.edit history).horizon = tr.horizon := by
  induction history generalizing tr with
  | nil => rfl
  | cons c history ih => exact (ih (tr.after c)).trans (horizon_after tr c)

/-- **A cell stays as it is** as long as no change of it is made. -/
lemma holds_edit_of_untouched
    (untouched : ∀ c ∈ history, c.tick ≤ tr.horizon.last → c.cell ≠ (a, t)) :
    (tr.edit history).holds a t = tr.holds a t := by
  induction history generalizing tr with
  | nil => rfl
  | cons c history ih =>
      obtain ⟨first, rest⟩ := List.forall_mem_cons.mp untouched
      -- a change of this very cell would have been made
      have step : (tr.after c).holds a t = tr.holds a t := by
        rw [holds_after, if_neg]
        rintro ⟨cell, ht⟩
        exact first ((Prod.mk.inj cell).2 ▸ ht) cell
      rw [← step]
      exact ih (by rwa [horizon_after])

/-- **The last change of a cell decides** what it holds. -/
lemma holds_edit_of_last {earlier later : List Change} (made : c.tick ≤ tr.horizon.last)
    (last : ∀ d ∈ later, d.cell ≠ c.cell) :
    (tr.edit (earlier ++ c :: later)).holds c.atom c.tick = c.value := by
  rw [edit_append]
  have rest : (((tr.edit earlier).after c).edit later).holds c.atom c.tick
      = ((tr.edit earlier).after c).holds c.atom c.tick :=
    holds_edit_of_untouched fun d hd _ => last d hd
  refine rest.trans ?_
  rw [holds_after, if_pos ⟨rfl, by rwa [horizon_edit]⟩]

/-! ### Traces that come about by changes -/

/-- Where a history begins: with a trace on which no atom holds, or with one that is read from a
number. -/
inductive Start (H : Horizon) : Trace → Prop where
  | empty : Start H (empty H)
  | ofBits (atoms : List Atom) (bits : Nat) : Start H (ofBits H atoms bits)

lemma Start.horizon_eq (h : Start H start) : start.horizon = H := by
  cases h <;> rfl

/-- A trace that some history leads to. -/
def Obtained (H : Horizon) (tr : Trace) : Prop :=
  ∃ start history, Start H start ∧ start.edit history = tr

lemma Obtained.horizon_eq (h : Obtained H tr) : tr.horizon = H := by
  obtain ⟨start, history, hstart, rfl⟩ := h
  rw [horizon_edit, hstart.horizon_eq]

/-- What a history of changes makes of a trace with the horizon `H`: a finite map, which is stored
in one way only. -/
structure FiniteMap (H : Horizon) (start : Trace) (history : List Change) (tr : Trace) : Prop where
  horizon : tr.horizon = H
  /-- For each tick of the horizon, the atoms that hold are stored in one ascending list. -/
  stored : tr.toLists.length = H.last + 1 ∧ ∀ t ≤ H.last, ∃ atoms, tr.toLists[t]? = some atoms
    ∧ atoms.Pairwise (· < ·) ∧ ∀ a, a ∈ atoms ↔ tr.holds a t = true
  /-- The answers are those of `Trace.set`. -/
  answered : ∀ c, (InPlace.change c).run tr
    = InPlace.settle tr (tr.set c.atom c.tick c.value)
  /-- A change is refused exactly past the horizon, and then the trace is as it was. -/
  refused : ∀ c e tr', (InPlace.change c).run tr = .error e tr' ↔
    H.last < c.tick ∧ e = .tickOutOfRange c.tick H.last ∧ tr' = tr
  /-- Any other change is made, and is the next one of the history. -/
  made : ∀ c, c.tick ≤ H.last →
    (InPlace.change c).run tr = .ok () (start.edit (history ++ [c]))
  /-- A cell has the value of the last change of it that was made. -/
  last : ∀ earlier c later, history = earlier ++ c :: later → c.tick ≤ H.last →
    (∀ d ∈ later, d.cell ≠ c.cell) → tr.holds c.atom c.tick = c.value
  /-- A cell of which no change was made has the value that it had at the start. -/
  untouched : ∀ a t, (∀ c ∈ history, c.tick ≤ H.last → c.cell ≠ (a, t)) →
    tr.holds a t = start.holds a t
  /-- Nothing holds past the horizon. -/
  past : ∀ a t, H.last < t → tr.holds a t = false
  /-- Traces are equal when the same atoms hold at the ticks of one horizon. -/
  eq_iff : ∀ H' tr', Obtained H' tr' →
    (tr = tr' ↔ H = H' ∧ ∀ a, ∀ t ≤ H.last, tr.holds a t = tr'.holds a t)
  /-- They are equal when they are stored as the same lists. -/
  eq_iff_stored : ∀ H' tr', Obtained H' tr' → (tr = tr' ↔ H = H' ∧ tr.toLists = tr'.toLists)
  /-- Changes of different cells may change places. -/
  commute : ∀ c d, c.tick ≤ H.last → d.tick ≤ H.last → c.cell ≠ d.cell → ∃ tr',
    (do InPlace.change c; InPlace.change d : InPlace Unit).run tr = .ok () tr'
      ∧ (do InPlace.change d; InPlace.change c : InPlace Unit).run tr = .ok () tr'
  /-- A change to the present value changes nothing. -/
  present : ∀ a, ∀ t ≤ H.last, (InPlace.change ⟨a, t, tr.holds a t⟩).run tr = .ok () tr

/-- **A trace is a finite map**, whatever history of changes has led to it. -/
theorem finiteMap_edit (hstart : Start H start) (history : List Change) :
    FiniteMap H start history (start.edit history) := by
  have start_horizon : start.horizon = H := hstart.horizon_eq
  have horizon : (start.edit history).horizon = H := by rw [horizon_edit, start_horizon]
  exact {
    horizon := horizon
    stored := by
      refine ⟨?_, fun t ht => exists_getElem?_toLists (by rwa [horizon])⟩
      rw [length_toLists, horizon, Horizon.size]
    answered := fun c => InPlace.run_set _ _ _ _
    refused := fun c e tr' => by rw [run_change_eq_error_iff, horizon]
    made := fun c hc => by
      rw [edit_append]
      exact run_change_eq_ok (by rwa [horizon])
    last := by
      rintro earlier c later rfl hc latest
      exact holds_edit_of_last (by rwa [start_horizon]) latest
    untouched := fun a t none => holds_edit_of_untouched (by rwa [start_horizon])
    past := fun a t late => holds_of_last_lt (by rwa [horizon])
    eq_iff := fun H' tr' h' => by rw [eq_iff_holds, horizon, h'.horizon_eq]
    eq_iff_stored := fun H' tr' h' => by rw [eq_iff_toLists_eq, horizon, h'.horizon_eq]
    commute := fun c d hc hd different => by
      rw [← horizon] at hc hd
      refine ⟨((start.edit history).after c).after d, run_change_change hc hd, ?_⟩
      rw [after_comm _ different]
      exact run_change_change hd hc
    present := fun a t ht => run_change_present (by rwa [horizon]) }

/-- The number `6` says that `b` holds at tick `0` and `a` at tick `1`. Then `a` is taken out, it is
refused past the horizon, and `b` is put in at tick `2`. Another history leads to the same trace, and
to put `b` in at tick `0` once more changes nothing. -/
theorem finiteMap_edit_overwritten :
    let start := ofBits ⟨2⟩ ["a", "b"] 6
    let history : List Change := [⟨"a", 1, false⟩, ⟨"a", 3, true⟩, ⟨"b", 2, true⟩]
    let tr := start.edit history
    Start ⟨2⟩ start ∧ start.holds "a" 1 = true ∧ tr.holds "a" 1 = false ∧ tr.holds "b" 0 = true
      ∧ tr.holds "a" 3 = false
      ∧ (InPlace.change ⟨"a", 3, true⟩).run tr = .error (.tickOutOfRange 3 2) tr
      ∧ tr = (empty ⟨2⟩).edit [⟨"b", 2, true⟩, ⟨"b", 0, true⟩] ∧ tr ≠ empty ⟨3⟩
      ∧ (InPlace.change ⟨"b", 0, true⟩).run tr = .ok () tr := by
  intro start history tr
  have hstart : Start ⟨2⟩ start := .ofBits ["a", "b"] 6
  have map : FiniteMap ⟨2⟩ start history tr := finiteMap_edit hstart history
  have a_before : start.holds "a" 1 = true := by decide +kernel
  have b_before : start.holds "b" 0 = true := by decide +kernel
  have b_after : tr.holds "b" 0 = true := (map.untouched "b" 0 (by decide)).trans b_before
  refine ⟨hstart, a_before, ?_, b_after, map.past "a" 3 (by decide), ?_, ?_, ?_, ?_⟩
  · exact map.last [] ⟨"a", 1, false⟩ _ rfl (by decide) (by decide)
  · exact (map.refused _ _ _).mpr ⟨by decide, rfl, rfl⟩
  · refine (map.eq_iff_stored ⟨2⟩ _ ⟨_, _, .empty, rfl⟩).mpr ⟨rfl, ?_⟩
    unfold tr start history
    decide +kernel
  · intro same
    have horizon := ((map.eq_iff ⟨3⟩ (empty ⟨3⟩) ⟨_, [], .empty, rfl⟩).mp same).1
    cases horizon
  · have run := map.present "b" 0 (by decide)
    rwa [b_after] at run

end Trace

end BoundedTemporal
