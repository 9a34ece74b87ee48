/-
# Shutdown requests in the guest

The host asks a guest to shut down with Ctrl-Alt-Del, which the guest's kernel turns into a
`SIGINT` for guest-init. Its handler passes the request on to the app as `SIGTERM`. Until
the app's pid is stored there is nobody to pass it on to, and the handler leaves a flag that
`main` tests behind the store.

The handler may run between any two steps of `main`, and while `main` is blocked in the
kernel. It is installed without `SA_RESTART`, so a call that it interrupts returns `EINTR`.
`read` and `waitpid` are called again; `accept` is not.
-/

import Mathlib.Data.List.Basic
import Cirrocumulus.Lib.Runs

namespace Cirrocumulus.Guest

open Lib List Option

/-- Where `main` stands, from the moment the handler is installed. -/
inductive InitPc
  /-- On the way to `accept`. -/
  | listening
  /-- In `accept`. -/
  | accepting
  | reading
  /-- The config is parsed. -/
  | forking
  | forked (app : Nat)
  /-- `APP_PID` is stored, and `SHUTDOWN_PENDING` is tested next. -/
  | stored (app : Nat)
  /-- On the way to `waitpid`. -/
  | looping (app : Nat)
  /-- In `waitpid`. -/
  | waiting (app : Nat)
  /-- `waitpid` has returned the app. -/
  | reaped (app : Nat)
  /-- No child is left. -/
  | off
  | panicked
  deriving DecidableEq

/-- What can be seen of guest-init. -/
inductive Happening
  | sigint
  | sigterm (pid : Nat)
  /-- `APP_PID` is stored. -/
  | stored (app : Nat)
  /-- `SHUTDOWN_PENDING` is tested. -/
  | tested
  /-- `waitpid` is called. -/
  | waitpid
  /-- The app is reaped. -/
  | reaped
  deriving DecidableEq

structure Init where
  pc : InitPc
  /-- `APP_PID`. -/
  appPid : Nat
  /-- `SHUTDOWN_PENDING`. -/
  shutdownPending : Bool
  /-- What has happened, in order. -/
  trace : List Happening
  deriving DecidableEq

inductive InitEvent
  | sigint
  /-- `main` calls `accept`. -/
  | callAccept
  | accepted
  /-- The connection has ended and its config is parsed. -/
  | parsed
  | fork (child : Nat)
  | storePid
  | testPending
  | callWaitpid
  /-- `waitpid` returns a child. -/
  | waitpid (child : Nat)
  | storeZero
  /-- `waitpid` returns `ECHILD`. -/
  | noChildren

namespace Init

def start : Init := ⟨.listening, 0, false, []⟩

variable (init : Init)

def record (happened : List Happening) : Init := { init with trace := init.trace ++ happened }

/-- `handle_sigint`. -/
def handleSigint : Init :=
  if 0 < init.appPid then init.record [.sigint, .sigterm init.appPid]
  else { init.record [.sigint] with shutdownPending := true }

/-- Where a signal leaves `main`: a blocking call returns `EINTR`. -/
def interrupted : InitPc → InitPc
  | .accepting => .panicked
  | .waiting app => .looping app
  | pc => pc

def step (init : Init) : InitEvent → Option Init
  | .sigint =>
    if init.pc = .panicked then none
    else some { init.handleSigint with pc := interrupted init.pc }
  | .callAccept => if init.pc = .listening then some { init with pc := .accepting } else none
  | .accepted => if init.pc = .accepting then some { init with pc := .reading } else none
  | .parsed => if init.pc = .reading then some { init with pc := .forking } else none
  | .fork child =>
    if init.pc = .forking ∧ 0 < child then some { init with pc := .forked child } else none
  | .storePid =>
    match init.pc with
    | .forked app => some { init.record [.stored app] with pc := .stored app, appPid := app }
    | _ => none
  | .testPending =>
    match init.pc with
    | .stored app =>
      let happened := if init.shutdownPending then [.tested, .sigterm app] else [.tested]
      some { init.record happened with pc := .looping app }
    | _ => none
  | .callWaitpid =>
    match init.pc with
    | .looping app => some { init.record [.waitpid] with pc := .waiting app }
    | _ => none
  | .waitpid child =>
    match init.pc with
    | .waiting app =>
      if child = app then some { init.record [.reaped] with pc := .reaped app }
      else some { init with pc := .looping app }
    | _ => none
  | .storeZero =>
    match init.pc with
    | .reaped app => some { init with pc := .looping app, appPid := 0 }
    | _ => none
  | .noChildren =>
    match init.pc with
    -- The app was a child until it was reaped.
    | .waiting _ => if .reaped ∈ init.trace then some { init with pc := .off } else none
    | _ => none

/-- The steps, each with what it takes. -/
inductive Move (init : Init) : InitEvent → Init → Prop
  | sigint : Move init .sigint { init.handleSigint with pc := interrupted init.pc }
  | callAccept (hpc : init.pc = .listening) : Move init .callAccept { init with pc := .accepting }
  | accepted (hpc : init.pc = .accepting) : Move init .accepted { init with pc := .reading }
  | parsed (hpc : init.pc = .reading) : Move init .parsed { init with pc := .forking }
  | fork {child} (hpc : init.pc = .forking) (hpos : 0 < child) :
      Move init (.fork child) { init with pc := .forked child }
  | storePid {app} (hpc : init.pc = .forked app) :
      Move init .storePid { init.record [.stored app] with pc := .stored app, appPid := app }
  | testPending {app} (hpc : init.pc = .stored app) :
      Move init .testPending
        { init.record (if init.shutdownPending then [.tested, .sigterm app] else [.tested]) with
          pc := .looping app }
  | callWaitpid {app} (hpc : init.pc = .looping app) :
      Move init .callWaitpid { init.record [.waitpid] with pc := .waiting app }
  | reapedApp {app} (hpc : init.pc = .waiting app) :
      Move init (.waitpid app) { init.record [.reaped] with pc := .reaped app }
  | reapedOther {app child} (hpc : init.pc = .waiting app) (hne : child ≠ app) :
      Move init (.waitpid child) { init with pc := .looping app }
  | storeZero {app} (hpc : init.pc = .reaped app) :
      Move init .storeZero { init with pc := .looping app, appPid := 0 }
  | noChildren {app} (hpc : init.pc = .waiting app) : Move init .noChildren { init with pc := .off }

variable {init} {next : Init} {event : InitEvent}

theorem move_of_step (h : init.step event = some next) : init.Move event next := by
  cases event with
  | sigint =>
    obtain ⟨-, ⟨⟩⟩ := ite_none_left_eq_some.mp h
    exact .sigint
  | callAccept | accepted | parsed =>
    obtain ⟨hpc, rfl⟩ := ite_some_none_eq_some.mp h
    constructor
    exact hpc
  | fork child =>
    obtain ⟨⟨hpc, hpos⟩, rfl⟩ := ite_some_none_eq_some.mp h
    exact .fork hpc hpos
  | storePid | testPending | callWaitpid | storeZero =>
    simp only [step] at h
    split at h <;> cases h
    constructor
    assumption
  | waitpid child =>
    simp only [step] at h
    split at h
    · split at h <;> cases h
      · rename_i hpc heq
        subst heq
        exact .reapedApp hpc
      · exact .reapedOther ‹_› ‹_›
    · cases h
  | noChildren =>
    simp only [step] at h
    split at h
    · obtain ⟨-, rfl⟩ := ite_some_none_eq_some.mp h
      exact .noChildren ‹_›
    · cases h

end Init

/-! ## Requests in a trace -/

/-- Where an element of two lists in a row stands. -/
theorem split_append {α trace happened before after} {x : α}
    (h : trace ++ happened = before ++ x :: after) :
    (∃ after', trace = before ++ x :: after' ∧ after = after' ++ happened) ∨
      ∃ before', before = trace ++ before' ∧ happened = before' ++ x :: after := by
  rcases append_eq_append_iff.mp h with ⟨before', hbefore, hhappened⟩ | ⟨bs, htrace, hx⟩
  · exact .inr ⟨before', hbefore, hhappened⟩
  · cases bs with
    | nil => exact .inr ⟨[], by simpa using htrace.symm, by simpa using hx.symm⟩
    | cons b bs =>
      rw [cons_append, List.cons.injEq] at hx
      exact .inl ⟨bs, by rw [htrace, hx.1], hx.2⟩

/-- A request that comes once the app's pid is stored is passed on at once. -/
def PassedOn (trace : List Happening) : Prop :=
  ∀ ⦃before after app⦄, trace = before ++ .sigint :: after → .reaped ∉ before →
    .stored app ∈ before → ∃ rest, after = .sigterm app :: rest

/-- A request that comes before that is passed on by the test. -/
def Caught (trace : List Happening) : Prop :=
  ∀ ⦃before after⦄, trace = before ++ .sigint :: after → (∀ app, .stored app ∉ before) →
    ∃ mid app rest, after = mid ++ .tested :: .sigterm app :: rest ∧ .stored app ∈ mid ∧
      .waitpid ∉ mid

/-- Some request has come before the app's pid is stored. -/
def Early (trace : List Happening) : Prop :=
  ∃ before after, trace = before ++ .sigint :: after ∧ ∀ app, .stored app ∉ before

section Traces

variable {trace happened : List Happening} {app : Nat}

theorem PassedOn.append (h : PassedOn trace) (hquiet : .sigint ∉ happened) :
    PassedOn (trace ++ happened) := by
  intro before after app hsplit hreaped hstored
  rcases split_append hsplit with ⟨after', htrace, rfl⟩ | ⟨before', -, rfl⟩
  · obtain ⟨rest, rfl⟩ := h htrace hreaped hstored
    exact ⟨rest ++ happened, rfl⟩
  · simp at hquiet

theorem PassedOn.handled (h : PassedOn trace)
    (hstored : ∀ other, .stored other ∈ trace → .reaped ∉ trace → other = app) :
    PassedOn (trace ++ [.sigint, .sigterm app]) := by
  intro before after other hsplit hreaped hmem
  rcases split_append hsplit with ⟨after', htrace, rfl⟩ | ⟨before', hbefore, hhappened⟩
  · obtain ⟨rest, rfl⟩ := h htrace hreaped hmem
    exact ⟨rest ++ [.sigint, .sigterm app], rfl⟩
  · rcases before' with _ | ⟨x, _ | ⟨y, before'⟩⟩
    · cases hhappened
      rw [append_nil] at hbefore
      subst hbefore
      exact ⟨[], by rw [hstored other hmem hreaped]⟩
    · cases hhappened
    · simp at hhappened

theorem PassedOn.flagged (h : PassedOn trace)
    (hstored : ∀ app, .stored app ∈ trace → .reaped ∈ trace) : PassedOn (trace ++ [.sigint]) := by
  intro before after app hsplit hreaped hmem
  rcases split_append hsplit with ⟨after', htrace, rfl⟩ | ⟨before', hbefore, hhappened⟩
  · obtain ⟨rest, rfl⟩ := h htrace hreaped hmem
    exact ⟨rest ++ [.sigint], rfl⟩
  · cases before' with
    | nil =>
      rw [append_nil] at hbefore
      subst hbefore
      exact absurd (hstored app hmem) hreaped
    | cons x before' => simp at hhappened

/-- What comes behind the store doesn't matter to the requests before it. -/
theorem Caught.append (h : Caught trace) (hstored : ∃ app, .stored app ∈ trace) :
    Caught (trace ++ happened) := by
  intro before after hsplit hearly
  rcases split_append hsplit with ⟨after', htrace, rfl⟩ | ⟨before', rfl, -⟩
  · obtain ⟨mid, app, rest, rfl, hmid⟩ := h htrace hearly
    exact ⟨mid, app, rest ++ happened, by simp, hmid⟩
  · obtain ⟨app, hmem⟩ := hstored
    exact absurd (mem_append_left before' hmem) (hearly app)

theorem Early.of_append (h : Early (trace ++ happened))
    (hstored : .sigint ∈ happened → ∃ app, .stored app ∈ trace) : Early trace := by
  obtain ⟨before, after, hsplit, hearly⟩ := h
  rcases split_append hsplit with ⟨after', htrace, rfl⟩ | ⟨before', rfl, rfl⟩
  · exact ⟨before, after', htrace, hearly⟩
  · obtain ⟨app, hmem⟩ := hstored (by simp)
    exact absurd (mem_append_left before' hmem) (hearly app)

/-- The test catches what came before the store. -/
theorem Caught.of_test (hstored : .stored app ∈ trace) (hwaitpid : .waitpid ∉ trace)
    (happened : List Happening) (hpending : Early trace → happened = [.tested, .sigterm app])
    (hquiet : .sigint ∉ happened) : Caught (trace ++ happened) := by
  intro before after hsplit hearly
  rcases split_append hsplit with ⟨after', rfl, rfl⟩ | ⟨before', -, rfl⟩
  · refine ⟨after', app, [], by rw [hpending ⟨before, after', rfl, hearly⟩], ?_, ?_⟩
    · simpa [hearly app] using hstored
    · intro hmem
      exact hwaitpid (by simp [hmem])
  · simp at hquiet

end Traces

/-! ## Runs -/

namespace InitPc

/-- Before `APP_PID` is stored. -/
def isEarly : InitPc → Bool
  | .listening | .accepting | .reading | .forking | .forked _ => true
  | .stored _ | .looping _ | .waiting _ | .reaped _ | .off | .panicked => false

/-- Behind the test of `SHUTDOWN_PENDING`. -/
def isTested : InitPc → Bool
  | .looping _ | .waiting _ | .reaped _ | .off => true
  | .listening | .accepting | .reading | .forking | .forked _ | .stored _ | .panicked => false

end InitPc

namespace Init

structure Sound (init : Init) : Prop where
  running : init.pc ≠ .panicked
  early : init.pc.isEarly → init.appPid = 0 ∧ ∀ x ∈ init.trace, x = .sigint
  stored : init.pc.isEarly = false → ∃ app, .stored app ∈ init.trace
  storing : ∀ {app}, init.pc = .stored app → .stored app ∈ init.trace
  untested : init.pc.isTested = false →
    .waitpid ∉ init.trace ∧ (Early init.trace → init.shutdownPending)
  tested : init.pc.isTested → Caught init.trace
  forked : ∀ {app}, init.pc = .forked app → 0 < app
  appPid : ∀ {app}, .stored app ∈ init.trace → .reaped ∉ init.trace → 0 < app ∧ init.appPid = app
  reaped : ∀ {app}, init.pc = .reaped app → .reaped ∈ init.trace
  passedOn : PassedOn init.trace

theorem interrupted_isEarly {pc} (h : pc ≠ .accepting) : (interrupted pc).isEarly = pc.isEarly := by
  cases pc <;> first | rfl | exact absurd rfl h

theorem interrupted_isTested (pc : InitPc) : (interrupted pc).isTested = pc.isTested := by
  cases pc <;> rfl

theorem interrupted_eq {pc} (haccept : pc ≠ .accepting)
    (hwaitpid : ∀ app, interrupted pc ≠ .looping app) : interrupted pc = pc := by
  cases pc with
  | accepting => exact absurd rfl haccept
  | waiting app => exact absurd rfl (hwaitpid app)
  | _ => rfl

namespace Sound

theorem start : Sound start where
  running := by decide
  early _ := ⟨rfl, by simp [Init.start]⟩
  stored h := by cases h
  storing h := by cases h
  untested _ := ⟨by simp [Init.start], fun ⟨before, after, h, _⟩ => by simp [Init.start] at h⟩
  tested h := by cases h
  forked h := by cases h
  appPid h := by simp [Init.start] at h
  reaped h := by cases h
  passedOn before after app h := by simp [Init.start] at h

variable {init : Init} (h : init.Sound)
include h

/-- `main` moves on within a phase. -/
theorem moves {pc} (hrunning : pc ≠ .panicked) (hearly : pc.isEarly = init.pc.isEarly)
    (htested : pc.isTested = init.pc.isTested)
    (hstored : ∀ {app}, pc = .stored app → init.pc = .stored app)
    (hforked : ∀ {app}, pc = .forked app → 0 < app)
    (hreaped : ∀ {app}, pc = .reaped app → .reaped ∈ init.trace) : Sound { init with pc } where
  running := hrunning
  early hpc := h.early (hearly.symm.trans hpc)
  stored hpc := h.stored (hearly.symm.trans hpc)
  storing hpc := h.storing (hstored hpc)
  untested hpc := h.untested (htested.symm.trans hpc)
  tested hpc := h.tested (htested.symm.trans hpc)
  forked hpc := hforked hpc
  appPid := h.appPid
  reaped hpc := hreaped hpc
  passedOn := h.passedOn

theorem trace_of_early (hearly : init.pc.isEarly) (app : Nat) :
    .stored app ∉ init.trace := by
  intro hmem
  cases (h.early hearly).2 _ hmem

/-- The handler finds the app's pid, and passes the request on. -/
theorem handled (hpid : 0 < init.appPid) : Sound (init.record [.sigint, .sigterm init.appPid]) := by
  have hlate : init.pc.isEarly = false := by
    cases hearly : init.pc.isEarly with
    | false => rfl
    | true =>
      rw [(h.early hearly).1] at hpid
      exact absurd hpid (Nat.lt_irrefl 0)
  have hstored := h.stored hlate
  constructor
  case running => exact h.running
  case early =>
    intro hearly
    cases hlate.symm.trans hearly
  case stored =>
    intro _
    obtain ⟨app, hmem⟩ := hstored
    exact ⟨app, mem_append_left _ hmem⟩
  case storing =>
    intro app hpc
    exact mem_append_left _ (h.storing hpc)
  case untested =>
    intro hpc
    obtain ⟨hwaitpid, hpending⟩ := h.untested hpc
    exact ⟨by simpa [record] using hwaitpid,
      fun hearly => hpending (hearly.of_append fun _ => hstored)⟩
  case tested => exact fun hpc => (h.tested hpc).append hstored
  case forked => exact h.forked
  case appPid =>
    intro app hmem hreaped
    exact h.appPid (by simpa [record] using hmem) (by simpa [record] using hreaped)
  case reaped => exact fun hpc => mem_append_left _ (h.reaped hpc)
  case passedOn =>
    apply h.passedOn.handled
    intro other hmem hreaped
    exact (h.appPid hmem hreaped).2.symm

/-- The handler finds no pid, and leaves the flag. -/
theorem flagged (hpid : init.appPid = 0) :
    Sound { init.record [.sigint] with shutdownPending := true } := by
  have hnobody (app : Nat) (hmem : .stored app ∈ init.trace) : .reaped ∈ init.trace := by
    by_contra hreaped
    obtain ⟨hpos, happ⟩ := h.appPid hmem hreaped
    omega
  constructor
  case running => exact h.running
  case early =>
    intro hearly
    obtain ⟨hzero, hquiet⟩ := h.early hearly
    refine ⟨hzero, fun x hx => ?_⟩
    rcases mem_append.mp hx with hx | hx
    · exact hquiet x hx
    · exact mem_singleton.mp hx
  case stored =>
    intro hlate
    obtain ⟨app, hmem⟩ := h.stored hlate
    exact ⟨app, mem_append_left _ hmem⟩
  case storing =>
    intro app hpc
    exact mem_append_left _ (h.storing hpc)
  case untested =>
    intro hpc
    exact ⟨by simpa [record] using (h.untested hpc).1, fun _ => rfl⟩
  case tested =>
    intro hpc
    apply (h.tested hpc).append (h.stored _)
    revert hpc
    show init.pc.isTested → _
    cases init.pc <;> simp [InitPc.isTested, InitPc.isEarly]
  case forked => exact h.forked
  case appPid =>
    intro app hmem hreaped
    exact h.appPid (by simpa [record] using hmem) (by simpa [record] using hreaped)
  case reaped => exact fun hpc => mem_append_left _ (h.reaped hpc)
  case passedOn => exact h.passedOn.flagged hnobody

theorem handleSigint : init.handleSigint.Sound := by
  unfold Init.handleSigint
  split
  case isTrue hpid => exact h.handled hpid
  case isFalse hpid => exact h.flagged (by omega)

theorem sigint (haccept : init.pc ≠ .accepting) :
    Sound { init.handleSigint with pc := interrupted init.pc } := by
  have hpc : init.handleSigint.pc = init.pc := by
    unfold Init.handleSigint
    split <;> rfl
  have hsame (pc' : InitPc) (hpc' : interrupted init.pc = pc') (hnot : ∀ app, pc' ≠ .looping app) :
      init.pc = pc' := by
    subst hpc'
    exact (interrupted_eq haccept hnot).symm
  refine h.handleSigint.moves ?_ ?_ ?_ ?_ ?_ ?_
  · intro hpanicked
    exact h.running (hsame _ hpanicked (by simp))
  · rw [hpc, interrupted_isEarly haccept]
  · rw [hpc, interrupted_isTested]
  · intro app hstored
    rw [hpc]
    exact hsame _ hstored (by simp)
  · intro app hforked
    exact h.forked (hsame _ hforked (by simp))
  · intro app hreaped
    exact h.handleSigint.reaped (hpc.trans (hsame _ hreaped (by simp)))

theorem storePid {app} (hpc : init.pc = .forked app) :
    Sound { init.record [.stored app] with pc := .stored app, appPid := app } := by
  have hearly : init.pc.isEarly := by rw [hpc]; rfl
  have hnone := h.trace_of_early hearly
  obtain ⟨hwaitpid, hpending⟩ := h.untested (by rw [hpc]; rfl)
  constructor
  case running => simp
  case early | tested =>
    intro habsurd
    cases habsurd
  case stored => exact fun _ => ⟨app, by simp [record]⟩
  case storing =>
    intro other hother
    cases hother
    simp [record]
  case untested =>
    intro _
    exact ⟨by simpa [record] using hwaitpid, fun hearly => hpending (hearly.of_append (by simp))⟩
  case forked =>
    intro other hother
    cases hother
  case appPid =>
    intro other hmem _
    rcases mem_append.mp hmem with hmem | hmem
    · exact absurd hmem (hnone other)
    · cases mem_singleton.mp hmem
      exact ⟨h.forked hpc, rfl⟩
  case reaped =>
    intro other hother
    cases hother
  case passedOn => exact h.passedOn.append (by simp)

/-- `main` moves on behind the store and records what is no request. -/
theorem recorded {pc happened} (hrunning : pc ≠ .panicked) (htested : pc.isTested)
    (hlate : init.pc.isEarly = false) (hcaught : Caught (init.trace ++ happened))
    (hquiet : .sigint ∉ happened) (hstored : ∀ app, .stored app ∉ happened)
    (hreaped : ∀ {app}, pc = .reaped app → .reaped ∈ init.trace ++ happened) :
    Sound { init.record happened with pc } := by
  have hearly : pc.isEarly = false := by cases pc <;> first | rfl | cases htested
  constructor
  case running => exact hrunning
  case early =>
    intro habsurd
    cases hearly.symm.trans habsurd
  case stored =>
    intro _
    obtain ⟨app, hmem⟩ := h.stored hlate
    exact ⟨app, mem_append_left _ hmem⟩
  case storing =>
    intro app hpc
    rw [show pc = .stored app from hpc] at htested
    cases htested
  case untested =>
    intro habsurd
    cases htested.symm.trans habsurd
  case tested => exact fun _ => hcaught
  case forked =>
    intro app hpc
    rw [show pc = .forked app from hpc] at htested
    cases htested
  case appPid =>
    intro app hmem hnot
    rcases mem_append.mp hmem with hmem | hmem
    · exact h.appPid hmem fun hreaped => hnot (mem_append_left _ hreaped)
    · exact absurd hmem (hstored app)
  case reaped => exact hreaped
  case passedOn => exact h.passedOn.append hquiet

theorem testPending {app} (hpc : init.pc = .stored app) :
    Sound { init.record (if init.shutdownPending then [.tested, .sigterm app] else [.tested]) with
      pc := .looping app } := by
  obtain ⟨hwaitpid, hpending⟩ := h.untested (by rw [hpc]; rfl)
  apply h.recorded
  case hrunning => simp
  case htested => rfl
  case hlate => rw [hpc]; rfl
  case hcaught =>
    apply Caught.of_test (h.storing hpc) hwaitpid
    · intro hearly
      rw [hpending hearly]
      rfl
    · split <;> simp
  case hquiet => split <;> simp
  case hstored => split <;> simp
  case hreaped =>
    intro other habsurd
    cases habsurd

theorem callWaitpid {app} (hpc : init.pc = .looping app) :
    Sound { init.record [.waitpid] with pc := .waiting app } := by
  have hlate : init.pc.isEarly = false := by rw [hpc]; rfl
  apply h.recorded (by simp) rfl hlate _ (by simp) (by simp)
  · intro other habsurd
    cases habsurd
  · exact (h.tested (by rw [hpc]; rfl)).append (h.stored hlate)

theorem reap {app} (hpc : init.pc = .waiting app) :
    Sound { init.record [.reaped] with pc := .reaped app } := by
  have hlate : init.pc.isEarly = false := by rw [hpc]; rfl
  apply h.recorded (by simp) rfl hlate _ (by simp) (by simp)
  · intro other _
    simp
  · exact (h.tested (by rw [hpc]; rfl)).append (h.stored hlate)

/-- The app is gone, so nobody needs its pid. -/
theorem storeZero {app} (hpc : init.pc = .reaped app) :
    Sound { init with pc := .looping app, appPid := 0 } := by
  have hreaped := h.reaped hpc
  have hlate : init.pc.isEarly = false := by rw [hpc]; rfl
  constructor
  case running => simp
  case early | untested =>
    intro habsurd
    cases habsurd
  case stored => exact fun _ => h.stored hlate
  case storing | forked | reaped =>
    intro other habsurd
    cases habsurd
  case tested => exact fun _ => h.tested (by rw [hpc]; rfl)
  case appPid => exact fun _ hnot => absurd hreaped hnot
  case passedOn => exact h.passedOn

end Sound

/-- No signal comes while `main` is blocked in `accept`. -/
def acceptsQuietly (init : Init) : InitEvent → Bool
  | .sigint => decide (init.pc ≠ .accepting)
  | _ => true

theorem Sound.step {init next : Init} {event} (hok : init.acceptsQuietly event)
    (h : init.Sound) (hstep : init.step event = some next) : next.Sound := by
  cases move_of_step hstep with
  | sigint => exact h.sigint (of_decide_eq_true hok)
  | callAccept hpc | accepted hpc | parsed hpc | reapedOther hpc | noChildren hpc =>
    exact h.moves (by simp) (by rw [hpc]; rfl) (by rw [hpc]; rfl) nofun nofun nofun
  | fork hpc hpos =>
    refine h.moves (by simp) (by rw [hpc]; rfl) (by rw [hpc]; rfl) nofun ?_ nofun
    intro app happ
    cases happ
    exact hpos
  | storePid hpc => exact h.storePid hpc
  | testPending hpc => exact h.testPending hpc
  | callWaitpid hpc => exact h.callWaitpid hpc
  | reapedApp hpc => exact h.reap hpc
  | storeZero hpc => exact h.storeZero hpc

theorem Sound.of_run {schedule : List InitEvent} {init}
    (hok : Along Init.step (fun init event => init.acceptsQuietly event) .start schedule)
    (hrun : run Init.step .start schedule = some init) : init.Sound :=
  run_preserves (fun hok h hstep => Sound.step hok h hstep) .start hok hrun

/-- Wherever `waitpid` is called, the requests before it have been passed on. -/
theorem Sound.passed_before_waitpid {init : Init} (h : init.Sound) {before mid rest}
    (hsplit : init.trace = before ++ .sigint :: (mid ++ .waitpid :: rest))
    (hreaped : .reaped ∉ before) : ∃ app, .sigterm app ∈ mid := by
  by_cases hstored : ∃ app, .stored app ∈ before
  · obtain ⟨app, hmem⟩ := hstored
    obtain ⟨rest', hrest⟩ := h.passedOn hsplit hreaped hmem
    cases mid with
    | nil => cases hrest
    | cons x mid =>
      cases hrest
      exact ⟨app, mem_cons_self⟩
  · have htested : init.pc.isTested := by
      by_contra huntested
      refine (h.untested (by simpa using huntested)).1 ?_
      rw [hsplit]
      simp
    obtain ⟨mid', app, rest', hsame, -, hwaitpid⟩ := h.tested htested hsplit (not_exists.mp hstored)
    refine ⟨app, ?_⟩
    -- The first `waitpid` comes behind the test.
    rcases append_eq_append_iff.mp hsame with
      ⟨between, rfl, hbetween⟩ | ⟨between, rfl, hbetween⟩
    · cases between with
      | nil => cases hbetween
      | cons x between =>
        cases hbetween
        simp at hwaitpid
    · cases between with
      | nil => cases hbetween
      | cons x between =>
        cases between with
        | nil => cases hbetween
        | cons y between =>
          cases hbetween
          simp

end Init

/-- While no signal comes into `accept`, guest-init lives, and every request that comes before
the app is reaped is passed on: at once if the app's pid is stored, otherwise by the test of
`SHUTDOWN_PENDING`, and in any case before `waitpid` is called. -/
theorem shutdown_requests_reach_app {schedule : List InitEvent} {init : Init}
    (hok : Along Init.step (fun init event => init.acceptsQuietly event = true) .start schedule)
    (hrun : run Init.step .start schedule = some init) :
    init.pc ≠ .panicked ∧
      ∀ before after, init.trace = before ++ .sigint :: after → .reaped ∉ before →
        (∀ app, .stored app ∈ before → ∃ rest, after = .sigterm app :: rest) ∧
        ((∀ app, .stored app ∉ before) → init.pc.isTested = true →
          ∃ mid app rest, after = mid ++ .tested :: .sigterm app :: rest ∧ .stored app ∈ mid ∧
            .waitpid ∉ mid) ∧
        ∀ mid rest, after = mid ++ .waitpid :: rest → ∃ app, .sigterm app ∈ mid := by
  have hsound := Init.Sound.of_run hok hrun
  refine ⟨hsound.running, fun before after hsplit hreaped => ⟨?_, ?_, ?_⟩⟩
  · intro app hstored
    exact hsound.passedOn hsplit hreaped hstored
  · intro hearly htested
    exact hsound.tested htested hsplit hearly
  · rintro mid rest rfl
    exact hsound.passed_before_waitpid hsplit hreaped

/-- Three requests: one while the config is read, one between the store and the test, and one
while guest-init waits. -/
def requestSchedule : List InitEvent :=
  [.callAccept, .accepted, .sigint, .parsed, .fork 7, .storePid, .sigint, .testPending,
    .callWaitpid, .sigint, .callWaitpid, .waitpid 7, .storeZero, .callWaitpid, .noChildren]

theorem three_requests_reach_app :
    ∃ init, run Init.step .start requestSchedule = some init ∧
      init.trace = [.sigint, .stored 7, .sigint, .sigterm 7, .tested, .sigterm 7, .waitpid, .sigint,
        .sigterm 7, .waitpid, .reaped, .waitpid] ∧
      init.pc ≠ .panicked := by
  have hends : run Init.step .start requestSchedule = some _ := rfl
  exact ⟨_, hends, rfl, (shutdown_requests_reach_app (by decide) hends).1⟩

/-- A request that comes while guest-init waits for its config: `accept` returns `EINTR`, and
guest-init panics before there is an app. -/
theorem request_panics_in_accept :
    ∃ init, run Init.step .start [.callAccept, .sigint] = some init ∧
      init.pc = .panicked ∧ init.trace = [.sigint] ∧ ∀ event, init.step event = none := by
  refine ⟨_, rfl, rfl, rfl, ?_⟩
  intro event
  cases event <;> rfl

end Cirrocumulus.Guest
