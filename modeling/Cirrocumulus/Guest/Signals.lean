/-
# Whom guest-init signals

guest-init knows its app by its pid alone. A pid belongs to a process until the process
is reaped, also while it is a zombie, and may be given to another process right after.
guest-init's own steps are those of `Init`; here the guest's other processes fork, exit,
lose their parents and are reaped around them, and every `SIGTERM` is recorded with the
process that holds the pid when it is sent.

The app is a child of guest-init, so nobody but guest-init can free its pid, and while
`main` is anywhere but between the `waitpid` that reaps the app and the store of 0 behind
it, a nonzero `APP_PID` is the app's. A request that arrives in between is sent to a pid
that is free, or somebody else's.
-/

import Cirrocumulus.Guest.Init
import Cirrocumulus.Lib.Maps

namespace Cirrocumulus.Guest

open Std (ExtTreeMap)
open Lib List Option

/-! ## The processes of a guest -/

/-- A process other than guest-init. Its pid may be another's later, its number never. -/
structure Proc where
  number : Nat
  /-- It has exited and waits to be reaped. -/
  exited : Bool
  /-- It is guest-init's child: forked by it, or orphaned. -/
  ours : Bool
  deriving DecidableEq

/-- The processes by their pids. -/
abbrev Procs := ExtTreeMap Nat Proc compare

/-- guest-init among the guest's other processes. -/
structure System where
  init : Init
  procs : Procs
  /-- The number of the next process. -/
  next : Nat
  /-- The process that guest-init forked as the app. -/
  app : Option Nat
  /-- Each `SIGTERM` of guest-init: the pid, and the process that held it. -/
  sent : List (Nat × Option Nat)

inductive SystemEvent
  /-- A step of `main`, or a `SIGINT`. -/
  | init (event : InitEvent)
  /-- Another process forks. -/
  | spawn (pid : Nat)
  | exit (pid : Nat)
  /-- The process loses its parent, and becomes guest-init's child. -/
  | orphan (pid : Nat)
  /-- The process is reaped by a parent other than guest-init. -/
  | reap (pid : Nat)

/-- The pid of a `SIGTERM`. -/
def Happening.sigtermPid : Happening → Option Nat
  | .sigterm pid => some pid
  | _ => none

/-- The pids to which a step of guest-init sends `SIGTERM`. -/
def Init.sigterms (init next : Init) : List Nat :=
  (next.trace.drop init.trace.length).filterMap Happening.sigtermPid

namespace System

def start : System := ⟨.start, ∅, 0, none, []⟩

variable (system : System)

/-- What the kernel does for a call of guest-init. `fork` takes a pid that nobody holds,
and `waitpid` returns a child that has exited, and frees its pid. -/
def serve : InitEvent → Option (Procs × Nat × Option Nat)
  | .fork pid =>
    if pid ∈ system.procs ∨ pid = 1 then none
    else some (system.procs.insert pid ⟨system.next, false, true⟩, system.next + 1,
      some system.next)
  | .waitpid pid =>
    if system.procs[pid]?.any fun proc => proc.exited && proc.ours then
      some (system.procs.erase pid, system.next, system.app)
    else none
  | .noChildren =>
    if system.procs.toList.any fun item => item.2.ours then none
    else some (system.procs, system.next, system.app)
  | _ => some (system.procs, system.next, system.app)

/-- The process that holds a pid. -/
def holder (pid : Nat) : Option Nat := system.procs[pid]?.map Proc.number

def step : SystemEvent → Option System
  | .init event =>
    (system.init.step event).bind fun init => (system.serve event).map fun after =>
      { init
        procs := after.1
        next := after.2.1
        app := after.2.2
        sent := system.sent ++ (system.init.sigterms init).map fun pid =>
          (pid, system.holder pid) }
  | .spawn pid =>
    if pid ∈ system.procs ∨ pid ≤ 1 then none
    else some { system with
      procs := system.procs.insert pid ⟨system.next, false, false⟩
      next := system.next + 1 }
  | .exit pid =>
    system.procs[pid]?.map fun proc =>
      { system with procs := system.procs.insert pid { proc with exited := true } }
  | .orphan pid =>
    system.procs[pid]?.map fun proc =>
      { system with procs := system.procs.insert pid { proc with ours := true } }
  | .reap pid =>
    if system.procs[pid]?.any fun proc => proc.exited && !proc.ours then
      some { system with procs := system.procs.erase pid }
    else none

end System

/-! ## What a step of guest-init does -/

namespace InitPc

/-- Before there is an app. -/
def hasNoApp : InitPc → Bool
  | .listening | .accepting | .reading | .forking | .panicked => true
  | _ => false

/-- In the loop that reaps, or behind it. -/
def isReaping : InitPc → Bool
  | .looping _ | .waiting _ | .reaped _ | .off => true
  | _ => false

/-- `waitpid` has returned the app's pid, and 0 is stored next. -/
def isReaped : InitPc → Bool
  | .reaped _ => true
  | _ => false

end InitPc

namespace Init

variable {init next : Init} {event : InitEvent} {pid : Nat}

theorem handleSigint_appPid (init : Init) : init.handleSigint.appPid = init.appPid := by
  unfold handleSigint
  split <;> rfl

/-- The handler signals whom `APP_PID` names. -/
theorem mem_sigterms_sigint {pc} :
    pid ∈ init.sigterms { init.handleSigint with pc } ↔ 0 < init.appPid ∧ pid = init.appPid := by
  by_cases hpid : 0 < init.appPid <;>
    simp [sigterms, handleSigint, hpid, record, Happening.sigtermPid, eq_comm]

/-- Only the handler and the test of `SHUTDOWN_PENDING` signal anybody. -/
theorem Move.sigterms_eq_nil (h : init.Move event next) (hsigint : event ≠ .sigint)
    (htest : event ≠ .testPending) : init.sigterms next = [] := by
  cases h with
  | sigint => exact absurd rfl hsigint
  | testPending => exact absurd rfl htest
  | storePid | callWaitpid | reapedApp => simp [sigterms, record, Happening.sigtermPid]
  | _ => simp [sigterms]

end Init

/-! ## Who holds the app's pid -/

/-- The app holds the pid, as a child of guest-init. -/
def Held (procs : Procs) (app : Option Nat) (pid : Nat) : Prop :=
  ∃ proc, procs[pid]? = some proc ∧ app = some proc.number ∧ proc.ours = true

/-- The app has been reaped. -/
def Gone (procs : Procs) (app : Option Nat) : Prop :=
  ∃ number, app = some number ∧ ∀ {pid : Nat} {proc : Proc}, procs[pid]? = some proc →
    proc.number ≠ number

/-- How far `main` has come, with what `APP_PID` is there and where the app is. -/
inductive Phase (procs : Procs) (app : Option Nat) : InitPc → Nat → Prop
  | before {pc} (hpc : pc.hasNoApp) (happ : app = none) : Phase procs app pc 0
  | forked {pid} (hpos : 0 < pid) (hheld : Held procs app pid) : Phase procs app (.forked pid) 0
  | stored {pid} (hpos : 0 < pid) (hheld : Held procs app pid) : Phase procs app (.stored pid) pid
  | looping {pid} (hpos : 0 < pid) (hheld : Held procs app pid) : Phase procs app (.looping pid) pid
  | waiting {pid} (hpos : 0 < pid) (hheld : Held procs app pid) : Phase procs app (.waiting pid) pid
  | reaped {pid} (hpos : 0 < pid) (hgone : Gone procs app) : Phase procs app (.reaped pid) pid
  | after {pc} (hpc : pc.isReaping) (hgone : Gone procs app) : Phase procs app pc 0

structure System.Sound (system : System) : Prop where
  phase : Phase system.procs system.app system.init.pc system.init.appPid
  fresh : ∀ {pid : Nat} {proc : Proc}, system.procs[pid]? = some proc → proc.number < system.next
  appFresh : ∀ {number}, system.app = some number → number < system.next
  unique : ∀ {first second : Nat} {proc proc' : Proc}, system.procs[first]? = some proc →
    system.procs[second]? = some proc' → proc.number = proc'.number → first = second
  quiet : system.app = none → system.sent = []

section

variable {procs procs' : Procs} {app : Option Nat} {pid other : Nat} {pc : InitPc}
  {appPid : Nat} {proc : Proc}

theorem Held.insert (h : Held procs app pid)
    (hours : ∀ {old}, procs[other]? = some old → old.ours →
      proc.number = old.number ∧ proc.ours) : Held (procs.insert other proc) app pid := by
  obtain ⟨found, hfound, happ, hfoundOurs⟩ := h
  refine exists_insert_and ⟨found, hfound, happ, hfoundOurs⟩ ?_
  rintro old hold ⟨happ, holdOurs⟩
  obtain ⟨hnumber, hprocOurs⟩ := hours hold holdOurs
  exact ⟨by rw [hnumber]; exact happ, hprocOurs⟩

theorem Held.erase (h : Held procs app pid) (hne : pid ≠ other) :
    Held (procs.erase other) app pid := by
  obtain ⟨found, hfound, hrest⟩ := h
  exact ⟨found, by rw [lookup_erase, if_neg hne, hfound], hrest⟩

theorem Gone.insert (h : Gone procs app)
    (hold : (∃ old, procs[other]? = some old ∧ old.number = proc.number) ∨
      ∀ number, app = some number → number ≠ proc.number) : Gone (procs.insert other proc) app := by
  obtain ⟨number, happ, hnone⟩ := h
  refine ⟨number, happ, fun hfound => ?_⟩
  refine forall_insert (motive := fun _ found => found.number ≠ number) ?_ hnone hfound
  rcases hold with ⟨old, hlisted, hnumber⟩ | hne
  · rw [← hnumber]
    exact hnone hlisted
  · exact (hne number happ).symm

theorem Gone.erase (h : Gone procs app) : Gone (procs.erase other) app := by
  obtain ⟨number, happ, hnone⟩ := h
  exact ⟨number, happ, fun hfound => hnone (of_lookup_erase hfound).2⟩

/-- Other processes leave the app where it is. -/
theorem Phase.of_procs (h : Phase procs app pc appPid)
    (hheld : ∀ {pid}, Held procs app pid → Held procs' app pid)
    (hgone : Gone procs app → Gone procs' app) : Phase procs' app pc appPid := by
  cases h with
  | before hpc happ => exact .before hpc happ
  | forked hpos h => exact .forked hpos (hheld h)
  | stored hpos h => exact .stored hpos (hheld h)
  | looping hpos h => exact .looping hpos (hheld h)
  | waiting hpos h => exact .waiting hpos (hheld h)
  | reaped hpos h => exact .reaped hpos (hgone h)
  | after hpc h => exact .after hpc (hgone h)

end

/-! ## One step -/

section

variable {procs : Procs} {app : Option Nat} {event : InitEvent} {init next : Init} {pc : InitPc}
  {appPid : Nat}

/-- A signal ends no phase. -/
theorem Phase.interrupted (h : Phase procs app pc appPid) :
    Phase procs app (Init.interrupted pc) appPid := by
  cases h with
  | before hpc happ =>
    refine .before ?_ happ
    cases pc <;> first | rfl | cases hpc
  | forked hpos hheld => exact .forked hpos hheld
  | stored hpos hheld => exact .stored hpos hheld
  | looping hpos hheld | waiting hpos hheld => exact .looping hpos hheld
  | reaped hpos hgone => exact .reaped hpos hgone
  | after hpc hgone =>
    refine .after ?_ hgone
    cases pc <;> first | rfl | cases hpc

/-- The app has been reaped when `waitpid` has returned its pid. -/
theorem Phase.gone (h : Phase procs app pc appPid) (hpc : pc.isReaped) : Gone procs app := by
  cases h with
  | before hnone _ => cases pc <;> simp_all [InitPc.hasNoApp, InitPc.isReaped]
  | reaped _ hgone => exact hgone
  | after _ hgone => exact hgone
  | _ => cases hpc

variable (h : Phase procs app init.pc init.appPid)
include h

/-- A `SIGTERM` goes to the app, or it goes out between the `waitpid` that reaped the app
and the store of 0. -/
theorem Phase.sigterm (hmove : init.Move event next) :
    ∀ pid ∈ init.sigterms next, Held procs app pid ∨
      (event = .sigint ∧ init.pc.isReaped ∧ 0 < init.appPid ∧ Gone procs app) := by
  intro pid hmem
  obtain ⟨start, stored, pending, trace⟩ := init
  replace h : Phase procs app start stored := h
  cases hmove with
  | sigint =>
    obtain ⟨hpid, rfl⟩ := Init.mem_sigterms_sigint.mp hmem
    cases h with
    | before | forked | after => exact absurd hpid (Nat.lt_irrefl 0)
    | stored hpos hheld | looping hpos hheld | waiting hpos hheld => exact .inl hheld
    | reaped hpos hgone => exact .inr ⟨rfl, rfl, hpid, hgone⟩
  | testPending hpc =>
    cases hpc
    simp only [Init.sigterms, Init.record, drop_left] at hmem
    cases h with
    | before hpc happ => cases hpc
    | stored hpos hheld =>
      left
      cases pending <;> simp [Happening.sigtermPid] at hmem
      exact hmem ▸ hheld
    | after hpc hgone => cases hpc
  | _ =>
    rw [Init.Move.sigterms_eq_nil (by constructor <;> assumption) (by rintro ⟨⟩) (by rintro ⟨⟩)]
      at hmem
    cases hmem

/-- `main` goes on to the next phase by itself, except for `fork` and `waitpid`. -/
theorem Phase.moves (hmove : init.Move event next)
    (hfork : ∀ pid, event ≠ .fork pid) (hwaitpid : ∀ pid, event ≠ .waitpid pid)
    (hchildren : event = .noChildren → ∀ pid, ¬ Held procs app pid) :
    Phase procs app next.pc next.appPid := by
  obtain ⟨start, stored, pending, trace⟩ := init
  replace h : Phase procs app start stored := h
  cases hmove with
  | sigint =>
    rw [Init.handleSigint_appPid]
    exact h.interrupted
  | callAccept hpc | accepted hpc | parsed hpc =>
    cases hpc
    cases h with
    | before _ happ => exact .before rfl happ
    | after hreaping _ => cases hreaping
  | fork => exact absurd rfl (hfork _)
  | storePid hpc =>
    cases hpc
    cases h with
    | before hpc _ => cases hpc
    | forked hpos hheld => exact .stored hpos hheld
    | after hreaping _ => cases hreaping
  | testPending hpc =>
    cases hpc
    cases h with
    | before hpc _ => cases hpc
    | stored hpos hheld => exact .looping hpos hheld
    | after hreaping _ => cases hreaping
  | callWaitpid hpc =>
    cases hpc
    cases h with
    | before hpc _ => cases hpc
    | looping hpos hheld => exact .waiting hpos hheld
    | after _ hgone => exact .after rfl hgone
  | reapedApp | reapedOther => exact absurd rfl (hwaitpid _)
  | storeZero hpc =>
    cases hpc
    cases h with
    | before hpc _ => cases hpc
    | reaped _ hgone | after _ hgone => exact .after rfl hgone
  | noChildren hpc =>
    cases hpc
    cases h with
    | before hpc _ => cases hpc
    | waiting _ hheld => exact absurd hheld (hchildren rfl _)
    | after _ hgone => exact .after rfl hgone

/-- `fork` makes the app. -/
theorem Phase.fork {child} (hmove : init.Move (.fork child) next) (number : Nat) :
    Phase (procs.insert child ⟨number, false, true⟩) (some number) next.pc next.appPid ∧
      app = none := by
  obtain ⟨start, stored, pending, trace⟩ := init
  replace h : Phase procs app start stored := h
  cases hmove with
  | fork hpc hpos =>
    cases hpc
    cases h with
    | before _ happ =>
      refine ⟨.forked hpos ⟨⟨number, false, true⟩, ?_, rfl, rfl⟩, happ⟩
      rw [lookup_insert, if_pos rfl]
    | after hreaping _ => cases hreaping

/-- `waitpid` reaps the app or another child, and after the app perhaps one that has the
app's pid. -/
theorem Phase.waitpid {child} (hmove : init.Move (.waitpid child) next)
    (happ : Held procs app child → Gone (procs.erase child) app) :
    Phase (procs.erase child) app next.pc next.appPid := by
  obtain ⟨start, stored, pending, trace⟩ := init
  replace h : Phase procs app start stored := h
  cases hmove with
  | reapedApp hpc =>
    cases hpc
    cases h with
    | before hpc _ => cases hpc
    | waiting hpos hheld => exact .reaped hpos (happ hheld)
    | after _ hgone => exact .after rfl hgone.erase
  | reapedOther hpc hne =>
    cases hpc
    cases h with
    | before hpc _ => cases hpc
    | waiting hpos hheld => exact .looping hpos (hheld.erase (Ne.symm hne))
    | after _ hgone => exact .after rfl hgone.erase

end

namespace System.Sound

variable {system : System} (h : system.Sound)
include h

/-- Another process appears under a pid that nobody holds. -/
theorem spawn {pid} (hfree : pid ∉ system.procs) (ours : Bool) :
    Sound { system with
      procs := system.procs.insert pid ⟨system.next, false, ours⟩
      next := system.next + 1 } := by
  have hnone : system.procs[pid]? = none := ExtTreeMap.getElem?_eq_none hfree
  constructor
  case phase =>
    refine h.phase.of_procs (fun hheld => hheld.insert fun hold => ?_) fun hgone => hgone.insert ?_
    · cases hnone.symm.trans hold
    · right
      intro number happ heq
      have hlt := h.appFresh happ
      exact absurd (heq ▸ hlt) (Nat.lt_irrefl _)
  case fresh =>
    intro other proc hfound
    refine forall_insert (motive := fun _ found => found.number < system.next + 1) ?_ ?_ hfound
    · exact Nat.lt_succ_self _
    · exact fun hold => Nat.lt_succ_of_lt (h.fresh hold)
  case appFresh => exact fun happ => Nat.lt_succ_of_lt (h.appFresh happ)
  case unique =>
    intro first second proc proc'
    refine unique_insert (R := fun a b : Proc => a.number = b.number) h.unique ?_
    intro other found _ hfound
    have hlt := h.fresh hfound
    exact ⟨fun heq => absurd hlt (heq ▸ Nat.lt_irrefl _),
      fun heq => absurd hlt (heq ▸ Nat.lt_irrefl _)⟩
  case quiet => exact h.quiet

/-- A process exits, or becomes guest-init's. -/
theorem update {pid proc proc'} (hproc : system.procs[pid]? = some proc)
    (hnumber : proc'.number = proc.number) (hours : proc.ours → proc'.ours) :
    Sound { system with procs := system.procs.insert pid proc' } := by
  constructor
  case phase =>
    refine h.phase.of_procs (fun hheld => hheld.insert fun hold hyes => ?_) fun hgone =>
      hgone.insert (.inl ⟨proc, hproc, hnumber.symm⟩)
    cases hproc.symm.trans hold
    exact ⟨hnumber, hours hyes⟩
  case fresh =>
    intro other found hfound
    refine forall_insert (motive := fun _ found => found.number < system.next) ?_ h.fresh hfound
    rw [hnumber]
    exact h.fresh hproc
  case appFresh => exact h.appFresh
  case unique =>
    intro first second found found'
    refine unique_insert (R := fun a b : Proc => a.number = b.number) h.unique ?_
    intro other found hne hfound
    rw [hnumber]
    exact ⟨fun heq => hne (h.unique hfound hproc heq.symm),
      fun heq => hne (h.unique hfound hproc heq)⟩
  case quiet => exact h.quiet

/-- A process is reaped that is not the app. -/
theorem reap {pid} (hother : ∀ {held}, Held system.procs system.app held → held ≠ pid) :
    Sound { system with procs := system.procs.erase pid } := by
  constructor
  case phase =>
    exact h.phase.of_procs (fun hheld => hheld.erase (hother hheld)) fun hgone => hgone.erase
  case fresh => exact fun hfound => h.fresh (of_lookup_erase hfound).2
  case appFresh => exact h.appFresh
  case unique =>
    intro first second proc proc' hfirst hsecond heq
    exact h.unique (of_lookup_erase hfirst).2 (of_lookup_erase hsecond).2 heq
  case quiet => exact h.quiet

/-- Once the app is reaped, it is gone. -/
theorem gone_of_held {pid} (hheld : Held system.procs system.app pid) :
    Gone (system.procs.erase pid) system.app := by
  obtain ⟨proc, hproc, happ, -⟩ := hheld
  refine ⟨proc.number, happ, fun hfound heq => ?_⟩
  obtain ⟨hne, hfound⟩ := of_lookup_erase hfound
  exact hne (h.unique hfound hproc heq)

/-- A call that changes no process. -/
theorem calls {init event} (hphase : Phase system.procs system.app init.pc init.appPid)
    (hmove : system.init.Move event init) :
    Sound { system with
      init
      sent := system.sent ++ (system.init.sigterms init).map fun pid =>
        (pid, system.holder pid) } := by
  refine ⟨hphase, h.fresh, h.appFresh, h.unique, fun happ => ?_⟩
  have hnone : system.init.sigterms init = [] := by
    refine eq_nil_iff_forall_not_mem.mpr fun pid hmem => ?_
    rcases h.phase.sigterm hmove pid hmem with ⟨proc, -, hsome, -⟩ | ⟨-, -, -, number, hsome, -⟩
    · cases happ.symm.trans hsome
    · cases happ.symm.trans hsome
  rw [h.quiet happ, hnone]
  rfl

/-- Every step of guest-init keeps what is known of the app. -/
theorem init_step {event : InitEvent} {init after}
    (hstep : system.init.step event = some init) (hserve : system.serve event = some after) :
    Sound
      { init
        procs := after.1
        next := after.2.1
        app := after.2.2
        sent := system.sent ++ (system.init.sigterms init).map fun pid =>
          (pid, system.holder pid) } := by
  have hmove := Init.move_of_step hstep
  cases event with
  | fork child =>
    obtain ⟨hfree, hafter⟩ := ite_none_left_eq_some.mp hserve
    cases hafter
    obtain ⟨hphase, happ⟩ := h.phase.fork hmove system.next
    obtain ⟨-, hfresh, -, hunique, -⟩ := h.spawn (fun hmem => hfree (.inl hmem)) true
    rw [hmove.sigterms_eq_nil (by rintro ⟨⟩) (by rintro ⟨⟩)]
    refine ⟨hphase, hfresh, fun hsome => ?_, hunique, fun hnone => ?_⟩
    · cases hsome
      exact Nat.lt_succ_self _
    · cases hnone
  | waitpid child =>
    obtain ⟨-, rfl⟩ := ite_some_none_eq_some.mp hserve
    rw [hmove.sigterms_eq_nil (by rintro ⟨⟩) (by rintro ⟨⟩), map_nil, append_nil]
    refine ⟨h.phase.waitpid hmove h.gone_of_held, ?_, h.appFresh, ?_, h.quiet⟩
    · exact fun hfound => h.fresh (of_lookup_erase hfound).2
    · intro first second proc proc' hfirst hsecond heq
      exact h.unique (of_lookup_erase hfirst).2 (of_lookup_erase hsecond).2 heq
  | noChildren =>
    obtain ⟨hnone, hafter⟩ := ite_none_left_eq_some.mp hserve
    cases hafter
    refine h.calls (h.phase.moves hmove ?_ ?_ ?_) hmove
    · rintro pid ⟨⟩
    · rintro pid ⟨⟩
    · rintro - pid ⟨proc, hproc, -, hours⟩
      exact hnone (List.any_eq_true.mpr ⟨(pid, proc),
        mem_items.mpr hproc, hours⟩)
  | _ =>
    cases hserve
    refine h.calls (h.phase.moves hmove ?_ ?_ ?_) hmove
    · rintro pid ⟨⟩
    · rintro pid ⟨⟩
    · rintro ⟨⟩

/-- Every step keeps what is known of the app. -/
theorem step {event next} (hstep : system.step event = some next) : next.Sound := by
  cases event with
  | init event =>
    obtain ⟨init, hinit, hrest⟩ := bind_eq_some_iff.mp hstep
    obtain ⟨after, hserve, rfl⟩ := map_eq_some_iff.mp hrest
    exact h.init_step hinit hserve
  | spawn pid =>
    obtain ⟨hfree, hs⟩ := ite_none_left_eq_some.mp hstep
    cases hs
    exact h.spawn (fun hmem => hfree (.inl hmem)) false
  | exit pid =>
    obtain ⟨proc, hproc, rfl⟩ := map_eq_some_iff.mp hstep
    exact h.update hproc rfl fun hours => hours
  | orphan pid =>
    obtain ⟨proc, hproc, rfl⟩ := map_eq_some_iff.mp hstep
    exact h.update hproc rfl fun _ => rfl
  | reap pid =>
    obtain ⟨hproc, rfl⟩ := ite_some_none_eq_some.mp hstep
    refine h.reap ?_
    -- The app is guest-init's own child, so nobody else reaps it.
    rintro held ⟨proc, hheld, -, hours⟩ rfl
    rw [hheld, any_some, hours, Bool.not_true, Bool.and_false] at hproc
    cases hproc

end System.Sound

theorem System.Sound.start : System.start.Sound where
  phase := .before rfl rfl
  fresh h := by simp [System.start] at h
  appFresh h := by cases h
  unique h := by simp [System.start] at h
  quiet _ := rfl

/-! ## Whole runs -/

namespace System

/-- The `SIGTERM` went to the process that was forked as the app, before it was reaped. -/
def ToApp (system : System) (sigterm : Nat × Option Nat) : Prop :=
  ∃ number, system.app = some number ∧ sigterm.2 = some number

/-- No `SIGINT` comes between the `waitpid` that reaps the app and the store of 0. -/
def clearsInTime (system : System) : SystemEvent → Bool
  | .init .sigint => !(system.init.pc.isReaped && decide (0 < system.init.appPid))
  | _ => true

section

variable {system next : System} {event : SystemEvent}

/-- The other processes signal nobody and are not the app. -/
theorem of_step_other (hstep : system.step event = some next)
    (hother : ∀ call, event ≠ .init call) : next.sent = system.sent ∧ next.app = system.app := by
  cases event with
  | init call => exact absurd rfl (hother call)
  | spawn pid =>
    obtain ⟨-, hs⟩ := ite_none_left_eq_some.mp hstep
    cases hs
    exact ⟨rfl, rfl⟩
  | exit pid | orphan pid =>
    obtain ⟨proc, -, rfl⟩ := map_eq_some_iff.mp hstep
    exact ⟨rfl, rfl⟩
  | reap pid =>
    obtain ⟨-, rfl⟩ := ite_some_none_eq_some.mp hstep
    exact ⟨rfl, rfl⟩

/-- There is one app. -/
theorem app_of_step (h : system.Sound) (hstep : system.step event = some next) {number : Nat}
    (happ : system.app = some number) : next.app = some number := by
  cases event with
  | init call =>
    obtain ⟨init, hinit, hrest⟩ := bind_eq_some_iff.mp hstep
    obtain ⟨after, hserve, rfl⟩ := map_eq_some_iff.mp hrest
    cases call with
    | fork child =>
      have hnone := (h.phase.fork (Init.move_of_step hinit) system.next).2
      cases hnone.symm.trans happ
    | waitpid child =>
      obtain ⟨-, rfl⟩ := ite_some_none_eq_some.mp hserve
      exact happ
    | noChildren =>
      obtain ⟨-, hafter⟩ := ite_none_left_eq_some.mp hserve
      cases hafter
      exact happ
    | _ =>
      cases hserve
      exact happ
  | _ => exact (of_step_other hstep (by rintro call ⟨⟩)).2.trans happ

/-- What a step sends, beside what has been sent before. -/
theorem mem_sent_of_step (hstep : system.step event = some next) {sigterm}
    (hmem : sigterm ∈ next.sent) : sigterm ∈ system.sent ∨
      ∃ call init, event = .init call ∧ system.init.step call = some init ∧
        sigterm.1 ∈ system.init.sigterms init ∧ sigterm.2 = system.holder sigterm.1 := by
  cases event with
  | init call =>
    obtain ⟨init, hinit, hrest⟩ := bind_eq_some_iff.mp hstep
    obtain ⟨after, -, rfl⟩ := map_eq_some_iff.mp hrest
    rcases mem_append.mp hmem with hold | hnew
    · exact .inl hold
    · obtain ⟨pid, hpid, rfl⟩ := List.mem_map.mp hnew
      exact .inr ⟨call, init, rfl, hinit, hpid, rfl⟩
  | _ =>
    rw [(of_step_other hstep (by rintro call ⟨⟩)).1] at hmem
    exact .inl hmem

theorem sent_of_step (hstep : system.step event = some next) {sigterm}
    (hmem : sigterm ∈ system.sent) : sigterm ∈ next.sent := by
  cases event with
  | init call =>
    obtain ⟨init, -, hrest⟩ := bind_eq_some_iff.mp hstep
    obtain ⟨after, -, rfl⟩ := map_eq_some_iff.mp hrest
    exact mem_append_left _ hmem
  | _ =>
    rw [(of_step_other hstep (by rintro call ⟨⟩)).1]
    exact hmem

/-- A `SIGTERM` that goes out in time goes to the app. -/
theorem toApp_of_step (h : system.Sound) (hok : system.clearsInTime event)
    (hall : ∀ sigterm ∈ system.sent, system.ToApp sigterm)
    (hstep : system.step event = some next) : ∀ sigterm ∈ next.sent, next.ToApp sigterm := by
  intro sigterm hmem
  have hkept (number : Nat) : system.app = some number → next.app = some number :=
    app_of_step h hstep
  rcases mem_sent_of_step hstep hmem with hold | ⟨call, init, rfl, hinit, hpid, hholder⟩
  · obtain ⟨number, happ, hsent⟩ := hall sigterm hold
    exact ⟨number, hkept number happ, hsent⟩
  · rcases h.phase.sigterm (Init.move_of_step hinit) _ hpid with
      ⟨proc, hproc, happ, -⟩ | ⟨rfl, hreaped, hpos, -⟩
    · refine ⟨proc.number, hkept _ happ, ?_⟩
      rw [hholder, holder, hproc]
      rfl
    · simp [clearsInTime, hreaped, hpos] at hok

/-- A `SIGINT` that comes too late sends a `SIGTERM` to nobody, or to somebody else. -/
theorem exists_not_toApp_of_step (h : system.Sound) (hok : system.clearsInTime event = false)
    (hstep : system.step event = some next) : ∃ sigterm ∈ next.sent, ¬ next.ToApp sigterm := by
  cases event with
  | init call =>
    cases call with
    | sigint =>
      simp only [clearsInTime, Bool.not_eq_false', Bool.and_eq_true, decide_eq_true_eq] at hok
      obtain ⟨hreaped, hpos⟩ := hok
      obtain ⟨init, hinit, hrest⟩ := bind_eq_some_iff.mp hstep
      obtain ⟨after, hserve, rfl⟩ := map_eq_some_iff.mp hrest
      cases hserve
      have hpids : system.init.appPid ∈ system.init.sigterms init := by
        cases Init.move_of_step hinit
        exact Init.mem_sigterms_sigint.mpr ⟨hpos, rfl⟩
      refine ⟨(system.init.appPid, system.holder system.init.appPid),
        mem_append_right _ (List.mem_map.mpr ⟨_, hpids, rfl⟩), ?_⟩
      rintro ⟨number, happ, hholder⟩
      obtain ⟨number', happ', hnone⟩ := h.phase.gone hreaped
      cases happ.symm.trans happ'
      obtain ⟨proc, hproc, hnumber⟩ := map_eq_some_iff.mp hholder
      exact hnone hproc hnumber
    | _ => cases hok
  | _ => cases hok

end

end System

/-- Every `SIGTERM` of guest-init goes to the process it forked as the app, which has not
been reaped then, exactly in the runs in which no `SIGINT` comes between the `waitpid` that
reaps the app and the store of 0 behind it. -/
theorem sigterms_reach_only_app {schedule : List SystemEvent} {system : System}
    (hrun : run System.step .start schedule = some system) :
    (∀ sigterm ∈ system.sent, system.ToApp sigterm) ↔
      Along System.step (fun system event => system.clearsInTime event = true) .start
        schedule := by
  constructor
  · intro hall
    by_contra hnot
    obtain ⟨first, event, second, middle, rfl, hfirst, hbad⟩ := exists_of_not_along hnot
    obtain ⟨middle', hmiddle, hrest⟩ := run_append_eq_some.mp hrun
    cases hfirst.symm.trans hmiddle
    obtain ⟨next, hstep, hsecond⟩ := run_cons_eq_some.mp hrest
    have hsound : middle.Sound := run_preserves_all (fun h hstep => h.step hstep) .start hfirst
    -- What went astray stays on record, and the app stays the same.
    let astray (system : System) : Prop :=
      system.Sound ∧ ∃ sigterm ∈ system.sent, ¬ system.ToApp sigterm
    have hkept : astray system := by
      apply run_preserves_all ?_ ?_ hsecond
      · rintro state event after ⟨h, sigterm, hmem, hastray⟩ hstep
        refine ⟨h.step hstep, sigterm, System.sent_of_step hstep hmem, ?_⟩
        rintro ⟨number, happ, hsent⟩
        cases hold : state.app with
        | none =>
          rw [h.quiet hold] at hmem
          cases hmem
        | some number' =>
          cases (System.app_of_step h hstep hold).symm.trans happ
          exact hastray ⟨number, hold, hsent⟩
      · exact ⟨hsound.step hstep,
          System.exists_not_toApp_of_step hsound (by simpa using hbad) hstep⟩
    obtain ⟨-, sigterm, hmem, hastray⟩ := hkept
    exact hastray (hall sigterm hmem)
  · intro hok
    let onTarget (system : System) : Prop :=
      system.Sound ∧ ∀ sigterm ∈ system.sent, system.ToApp sigterm
    have hsound : onTarget system := by
      apply run_preserves ?_ ?_ hok hrun
      · rintro state event next hok ⟨h, hall⟩ hstep
        exact ⟨h.step hstep, System.toApp_of_step h hok hall hstep⟩
      · exact ⟨.start, forall_mem_nil _⟩
    exact hsound.2

/-- The app has pid 7 and a child with pid 8. A request comes while guest-init waits, the
app exits and is reaped, and its child, an orphan now, forks a process with pid 7. -/
def reuseSchedule : List SystemEvent :=
  [.init .callAccept, .init .accepted, .init .parsed, .init (.fork 7), .init .storePid,
    .init .testPending, .init .callWaitpid, .init .sigint, .spawn 8, .init .callWaitpid, .exit 7,
    .orphan 8, .init (.waitpid 7), .spawn 7]

/-- When 0 is stored before the next request, that one signals nobody. -/
theorem request_after_store_signals_nobody :
    ∃ system, run System.step .start (reuseSchedule ++ [.init .storeZero, .init .sigint]) =
        some system ∧
      system.sent = [(7, some 0)] ∧ ∀ sigterm ∈ system.sent, system.ToApp sigterm := by
  have hends : run System.step .start
      (reuseSchedule ++ [.init .storeZero, .init .sigint]) = some _ := rfl
  exact ⟨_, hends, rfl, (sigterms_reach_only_app hends).mpr (by decide +kernel)⟩

/-- When the next request comes first, the process that has pid 7 now is signalled. -/
theorem request_before_store_signals_other :
    ∃ system, run System.step .start (reuseSchedule ++ [.init .sigint]) = some system ∧
      system.app = some 0 ∧ (7, some 2) ∈ system.sent :=
  ⟨_, rfl, rfl, by decide⟩

end Cirrocumulus.Guest
