/-
# Runs of a partial step function

A component whose parties are scheduled from outside is a partial step function:
in a state an event is either enabled, and leads to one next state, or it is
not. A schedule is a list of events, and running it is the fold of the step
function.

Two readings of a run are kept apart. `run` says where a schedule leads.
`Along` says that every event of the schedule meets a condition in the state it
is taken in, which is how an assumption about the environment, or the exact
condition under which a component behaves, is attached to whole runs.
-/

import Mathlib.Logic.Basic

namespace Cirrocumulus.Lib

universe u v

variable {σ : Type u} {ε : Type v}

/-- Execute a schedule, one event after another. The result is `none` as soon
as an event is not enabled. -/
def run (step : σ → ε → Option σ) : σ → List ε → Option σ
  | state, [] => some state
  | state, event :: rest => (step state event).bind fun next => run step next rest

/-- Every event of a schedule meets `ok` in the state it is taken in. Nothing is
said about events behind one that is not enabled. -/
def Along (step : σ → ε → Option σ) (ok : σ → ε → Prop) : σ → List ε → Prop
  | _, [] => True
  | state, event :: rest =>
    ok state event ∧ ∀ next, step state event = some next → Along step ok next rest

variable {step : σ → ε → Option σ}

/-- A decidable condition can be checked along a given schedule. -/
def Along.decidable {ok : σ → ε → Prop} [∀ state event, Decidable (ok state event)] :
    (state : σ) → (schedule : List ε) → Decidable (Along step ok state schedule)
  | _, [] => isTrue True.intro
  | state, event :: rest =>
    match hstep : step state event with
    | none => decidable_of_iff (ok state event) (by simp [Along, hstep])
    | some next =>
      have : Decidable (Along step ok next rest) := Along.decidable next rest
      decidable_of_iff (ok state event ∧ Along step ok next rest) (by simp [Along, hstep])

instance {ok : σ → ε → Prop} [∀ state event, Decidable (ok state event)] {state : σ}
    {schedule : List ε} : Decidable (Along step ok state schedule) :=
  Along.decidable state schedule

/-- Whether an evaluation ends in a state with a property is decided by evaluating. -/
instance decidableExistsSome {found : Option σ} {p : σ → Prop} [DecidablePred p] :
    Decidable (∃ state, found = some state ∧ p state) :=
  match found with
  | none => isFalse (by simp)
  | some state => decidable_of_iff (p state) (by simp)

@[simp]
theorem run_nil (state : σ) : run step state [] = some state := rfl

variable {state target middle : σ} {first second schedule : List ε} {ok : σ → ε → Prop}

theorem run_cons_eq_some {event rest} : run step state (event :: rest) = some target ↔
      ∃ next, step state event = some next ∧ run step next rest = some target := by
  simp [run, Option.bind_eq_some_iff]

theorem run_append_eq_some : run step state (first ++ second) = some target ↔
      ∃ middle, run step state first = some middle ∧ run step middle second = some target := by
  induction first generalizing state with
  | nil => simp
  | cons event rest ih =>
    simp only [List.cons_append, run_cons_eq_some, ih]
    constructor
    · rintro ⟨next, hstep, middle, hrest, hsecond⟩
      exact ⟨middle, ⟨next, hstep, hrest⟩, hsecond⟩
    · rintro ⟨middle, ⟨next, hstep, hrest⟩, hsecond⟩
      exact ⟨next, hstep, middle, hrest, hsecond⟩

theorem Along.of_append (h : Along step ok state (first ++ second)) :
    Along step ok state first := by
  induction first generalizing state with
  | nil => trivial
  | cons event rest ih => exact ⟨h.1, fun next hstep => ih (h.2 next hstep)⟩

theorem Along.of_append_right (h : Along step ok state (first ++ second))
    (hrun : run step state first = some middle) : Along step ok middle second := by
  induction first generalizing state with
  | nil =>
    cases hrun
    exact h
  | cons event rest ih =>
    obtain ⟨next, hstep, hrest⟩ := run_cons_eq_some.mp hrun
    exact ih (h.2 next hstep) hrest

/-- A condition that the events of a schedule meet in every state. -/
theorem Along.of_forall (h : ∀ event ∈ schedule, ∀ state, ok state event) :
    Along step ok state schedule := by
  induction schedule generalizing state with
  | nil => exact True.intro
  | cons event rest ih =>
    exact ⟨h event List.mem_cons_self state,
      fun next _ => ih fun other hother => h other (List.mem_cons_of_mem event hother)⟩

theorem Along.append (hfirst : Along step ok state first)
    (hsecond : ∀ middle, run step state first = some middle → Along step ok middle second) :
    Along step ok state (first ++ second) := by
  induction first generalizing state with
  | nil => exact hsecond state rfl
  | cons event rest ih =>
    refine ⟨hfirst.1, fun next hstep => ih (hfirst.2 next hstep) fun middle hrun => ?_⟩
    exact hsecond middle (run_cons_eq_some.mpr ⟨next, hstep, hrun⟩)

theorem Along.and {ok'} (h : Along step ok state schedule) (h' : Along step ok' state schedule) :
    Along step (fun state event => ok state event ∧ ok' state event) state schedule := by
  induction schedule generalizing state with
  | nil => exact True.intro
  | cons event rest ih =>
    exact ⟨⟨h.1, h'.1⟩, fun next hstep => ih (h.2 next hstep) (h'.2 next hstep)⟩

/-- Every run meets the condition that asks nothing. -/
theorem Along.trivial : Along step (fun _ _ => True) state schedule := by
  induction schedule generalizing state with
  | nil => exact True.intro
  | cons event rest ih => exact ⟨True.intro, fun next _ => ih⟩

/-- The invariant rule. A predicate that every step meeting the condition keeps
holds at the end of every run all of whose steps meet the condition. Every state
of a run is the end of one of its prefixes, so this covers all of them. -/
theorem run_preserves {inv : σ → Prop} (hkeep : ∀ {state event next}, ok state event → inv state →
      step state event = some next → inv next) {state target : σ} {schedule : List ε}
    (hinv : inv state) (hok : Along step ok state schedule)
    (hrun : run step state schedule = some target) : inv target := by
  induction schedule generalizing state with
  | nil =>
    cases hrun
    exact hinv
  | cons event rest ih =>
    obtain ⟨next, hstep, hrest⟩ := run_cons_eq_some.mp hrun
    exact ih (hkeep hok.1 hinv hstep) (hok.2 next hstep) hrest

/-- The invariant rule for a predicate that every enabled step keeps. -/
theorem run_preserves_all {inv : σ → Prop}
    (hkeep : ∀ {state event next}, inv state → step state event = some next → inv next)
    {state target : σ} {schedule : List ε} (hinv : inv state)
    (hrun : run step state schedule = some target) : inv target := by
  induction schedule generalizing state with
  | nil =>
    cases hrun
    exact hinv
  | cons event rest ih =>
    obtain ⟨next, hstep, hrest⟩ := run_cons_eq_some.mp hrun
    exact ih (hkeep hinv hstep) hrest

/-- A run that does not meet a condition throughout has a first event that does not. -/
theorem exists_of_not_along (h : ¬Along step ok state schedule) :
    ∃ first event second middle, schedule = first ++ event :: second ∧
      run step state first = some middle ∧ ¬ok middle event := by
  induction schedule generalizing state with
  | nil => exact absurd True.intro h
  | cons event rest ih =>
    by_cases hok : ok state event
    · cases hstep : step state event with
      | none => exact absurd ⟨hok, by rw [hstep]; nofun⟩ h
      | some next =>
        have hnext : ¬Along step ok next rest := fun hall =>
          h ⟨hok, fun other hother => Option.some.inj (hstep.symm.trans hother) ▸ hall⟩
        obtain ⟨first, bad, second, middle, rfl, hfirst, hbad⟩ := ih hnext
        exact ⟨event :: first, bad, second, middle, rfl,
          run_cons_eq_some.mpr ⟨next, hstep, hfirst⟩, hbad⟩
    · exact ⟨[], event, rest, state, rfl, rfl, hok⟩

end Cirrocumulus.Lib
