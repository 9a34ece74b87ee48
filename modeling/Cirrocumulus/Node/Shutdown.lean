/-
# Shutdown

An agent that is told to stop waits for the VMs that are Starting and leaves those that
run to the next agent. It does not wait for supervisors: one that has ended its VM's VMM,
to park the VM or to tear it down, or whose VMM has ended by itself, is cut before it has
recorded the end. The next agent then finds a row of a running VM whose VMM is gone, and
removes the snapshot with the rest. One that has asked its VM to stop or to pause, and is
cut before the VMM has ended, leaves a VM that may end when no agent is there. A VM that is
only watched when the agent exits is not lost, nor is one whose end is recorded by then.
-/

import Cirrocumulus.Node.Parked
import Cirrocumulus.Node.Recovery

namespace Cirrocumulus.Node

open Lib

variable {pc : SupervisePc} {info : VmInfo} {log : Str}

variable {subnet : Subnet} {node next : System} {event : NodeEvent} {name : Str}
  {s s' : Standing} {outcome : Outcome} {now task : Nat}

/-! ## Supervisors -/

/-- Why a supervisor tears its VM down, once it does. -/
def SupervisePc.reason : SupervisePc → Option EndReason
  | .kill reason | .unwind reason | .record reason => some reason
  | _ => none

/-- A supervisor has a reason of its own. -/
def SupervisePc.Knows (pc : SupervisePc) : Prop := pc.reason ≠ some .agentDown

theorem SupervisePc.Knows.of_none (h : pc.reason = none) : pc.Knows := by
  simp [Knows, h]

theorem SupervisePc.Knows.of_take {pc' stop} (h : pc.take stop = some pc') : pc'.Knows := by
  unfold take at h
  split at h <;> cases h <;> simp [Knows, reason]

theorem SupervisePc.Knows.step {reason pc'} {vm vm' : Vm} {view view'} (hpc : pc.Knows)
    (h : vm.supervise outcome reason pc view = some (pc', vm', view')) : pc'.Knows := by
  have hnatural (hreason : reason.natural) : (SupervisePc.kill reason).Knows := by
    cases reason <;> simp_all [Knows, SupervisePc.reason, EndReason.natural]
  cases Vm.effect_of_supervise h with
  | ends hdead hreason | endsUnasked hfailed hdead hreason => exact hnatural hreason
  | movedOut | notAsked => simp [Knows, SupervisePc.reason]
  | @dropDir lost => cases lost <;> simp [Knows, SupervisePc.reason]
  | stops hdead hreason => rcases hreason with rfl | rfl <;> simp [Knows, SupervisePc.reason]
  | kill | undo | undone => exact hpc
  | _ => exact .of_none rfl

/-- What a supervisor has to record. -/
def Standing.Ending (snapshot : Option (List SnapshotFile)) : Standing → Prop
  | .running _ _ _ pc _ => ParkKept snapshot pc ∧ pc.Knows
  | _ => True

theorem Standing.Ending.history (snapshot : Option (List SnapshotFile)) (left : Option Replaced) :
    (history left).Ending snapshot := by
  cases left <;> trivial

theorem Standing.Ending.step (h : s.Ending node.host.snapshots[name]?)
    (hmove : NameMove node next name event s s') : s'.Ending next.host.snapshots[name]? := by
  cases hmove with
  | untouched hsame =>
    rw [hsame.snapshot]
    exact h
  | dropped hs hunowned hhost => rcases hs with rfl | rfl <;> trivial
  | adopted | handedOver => exact ⟨trivial, .of_none rfl⟩
  | gaveUp => exact .history _ _
  | asked hhost hready htake => exact ⟨.of_take htake _, .of_take htake⟩
  | @superviseStep task now outcome reason info log pc pc' vm vm' hstep =>
    have hkept : ParkKept (node.host.view name vm.vmAddress).snapshot pc := h.1
    exact ⟨hkept.step hstep, h.2.step hstep⟩
  | _ => trivial

theorem System.ending_of_run {schedule}
    (hrun : run (step subnet) .fresh schedule = some node) (hs : node.Stands name s) :
    s.Ending node.host.snapshots[name]? :=
  (Reached.fresh subnet).preserves_from_down (fun node s => s.Ending node.host.snapshots[name]?)
    (fun _ _ _ _ h hmove => h.step hmove) rfl trivial Along.trivial hrun hs

/-! ## From the signal to the exit -/

/-- The agent has heard the signal, and is still there. -/
def System.ShuttingDown (node : System) : Prop :=
  ∃ up, node.up = some up ∧ up.boot = .ready ∧ up.agent.shuttingDown = true

theorem AgentProcess.Move.shuttingDown {host} {up : AgentProcess}
    (hmove : up.Move subnet host event next) (hready : up.boot = .ready)
    (hdown : up.agent.shuttingDown) (hcrash : event ≠ .crash) (hexit : event ≠ .exit) :
    next.ShuttingDown := by
  cases hmove with
  | starts hmove => cases hmove <;> cases hready.symm.trans ‹_›
  | opens hboot => cases hready.symm.trans hboot
  | begins hfrom hmove =>
    obtain ⟨-, -, hreserves⟩ := hmove
    cases hdown.symm.trans hreserves.not_shuttingDown
  | removes hmove => cases hmove <;> exact ⟨_, rfl, hready, hdown⟩
  | onMachines hready' hsame hkept => exact ⟨_, rfl, hready, hkept.trans hdown⟩
  | sigterm => exact ⟨_, rfl, hready, rfl⟩
  | exits => exact absurd rfl hexit
  | launches hlaunch hpc hmove =>
    cases hmove with
    | handOver hpc hunlocked hagent =>
      obtain ⟨launch, -, rfl⟩ := launched_eq_some hagent
      exact ⟨_, rfl, hready, hdown⟩
    | giveUp hpc hunlocked hend | lose hpc hunlocked hkind hend =>
      exact ⟨_, rfl, hready, by rw [hend.next_eq]; exact hdown⟩
    | effect heffect => exact ⟨_, rfl, hready, hdown⟩
  | supervises hsup hpc hmove =>
    cases hmove with
    | record hpc hunlocked hagent =>
      obtain ⟨name, -, rfl⟩ := vmEnded_eq_some hagent
      exact ⟨_, rfl, hready, hdown⟩
    | effect heffect => exact ⟨_, rfl, hready, hdown⟩
  | asked | removing => exact ⟨_, rfl, hready, hdown⟩
  | crashes => exact absurd rfl hcrash

theorem System.ShuttingDown.step (h : node.ShuttingDown) (hcrash : event ≠ .crash)
    (hexit : event ≠ .exit) (hstep : node.step subnet event = some next) : next.ShuttingDown := by
  obtain ⟨up, hup, hready, hdown⟩ := h
  rcases step_eq_some hstep with ⟨vmAddress, process, -, rfl⟩ | ⟨-, hnone, -⟩ |
    ⟨found, hfound, hmove⟩
  · exact ⟨up, hup, hready, hdown⟩
  · cases hup.symm.trans hnone
  · cases hup.symm.trans hfound
    exact hmove.shuttingDown hready hdown hcrash hexit

/-- A VM that ran when the signal came still runs, or its end is recorded with a reason of
its own, and with a snapshot if that is a park. -/
def Standing.Outlives (info : VmInfo) (log : Str) (host : Host) (name : Str) : Standing → Prop
  | .running _ info' log' _ _ => info' = info ∧ log' = log
  | .ended info' log' removal => removal = none ∧ log' = log ∧
      TellsOf name host.rows[name]? ⟨info', log'⟩ ∧ ∃ ended, info' = endedInfo info ended ∧
        ended.reason ≠ .agentDown ∧ (ended.reason = .parked → Whole host.snapshots[name]?)
  | _ => False

/-- What may happen while an agent shuts down: it is not killed, and nobody asks for the
VM's removal. -/
def Graceful (name : Str) (event : NodeEvent) : Prop :=
  event ≠ .crash ∧ event ≠ .exit ∧ event ≠ .remove name

theorem Standing.Outlives.step (hdown : node.ShuttingDown) (hdown' : next.ShuttingDown)
    (hs : node.Stands name s) (hrecorded : s.Recorded name node.host.rows[name]?)
    (hending : s.Ending node.host.snapshots[name]?) (h : s.Outlives info log node.host name)
    (hstore : StoreSucceeds node event) (hgraceful : Graceful name event)
    (hmove : NameMove node next name event s s') : s'.Outlives info log next.host name := by
  cases hmove with
  | untouched hsame =>
    cases s with
    | ended info' log' removal =>
      unfold Standing.Outlives
      rw [hsame.row, hsame.snapshot]
      exact h
    | running task info' log' pc vm => exact h
    | _ => exact h.elim
  | down hhost hnone hcrash =>
    obtain ⟨up, hup, -⟩ := hdown'
    rw [hnone] at hup
    cases hup
  | loaded | unknown | restored | adopted | gone | launchStep | handedOver | gaveUp | lost =>
    exact h.elim
  | dropped hs hunowned hhost => rcases hs with rfl | rfl <;> exact h.elim
  | begun hname hhost hup hready hreserves =>
    -- No launch begins while the agent shuts down.
    obtain ⟨found, hfound, -, hdown⟩ := hdown
    cases hup.symm.trans hfound
    cases hdown.symm.trans hreserves.not_shuttingDown
  | asked => exact h
  | superviseStep => exact h
  | @recorded task now outcome reason why info' log' vm hhost =>
    obtain ⟨rfl, rfl⟩ := h
    obtain ⟨hkept, hknows⟩ := hending
    obtain ⟨-, found, hfound, hrecord⟩ := hrecorded
    have hok := hstore.recordEnd hs
    refine ⟨rfl, rfl, ?_, ⟨now, why⟩, rfl, fun hwhy => hknows (congrArg some hwhy), ?_⟩
    · rw [hhost]
      dsimp only
      rw [if_pos hok, lookup_markEnded, if_pos rfl]
      exact tellsOf_markEnded hfound (by rw [hrecord]) (congrArg Record.log hrecord) _
    · intro hwhy
      dsimp only at hwhy
      subst hwhy
      rw [hhost]
      exact hkept
  | removing => exact absurd rfl hgraceful.2.2
  | unsnapped | notParked | deleted | undeleted | erased => cases h.1

/-- Until the agent exits, a VM that ran when the signal came outlives it. -/
theorem System.outlives_of_run {signalled before during was}
    (hbefore : run (step subnet) .fresh before = some signalled)
    (hdown : signalled.ShuttingDown) (hwas : signalled.up = some was)
    (hentry : was.agent.vms[name]? = some (.running info log task))
    (hduring : run (step subnet) signalled during = some node)
    (hgraceful : ∀ event ∈ during, Graceful name event)
    (hstore : Along (step subnet) StoreSucceeds signalled during)
    (hs : node.Stands name s) : s.Outlives info log node.host name := by
  have hquiet : Along (step subnet) (fun _ event => Graceful name event) signalled
      during := .of_forall fun event hevent _ => hgraceful event hevent
  have hall := (System.Reached.of_run hbefore).name_preserves (fun node s => node.ShuttingDown ∧
      s.Recorded name node.host.rows[name]? ∧ s.Ending node.host.snapshots[name]? ∧
      s.Outlives info log node.host name)
    (fun _ hok hstep hs ⟨hdown, hrecorded, hending, h⟩ hmove => by
      have hdown' := hdown.step hok.2.1 hok.2.2.1 hstep
      exact ⟨hdown', hrecorded.step hmove, hending.step hmove,
        h.step hdown hdown' hs hrecorded hending hok.1 hok.2 hmove⟩)
    (fun {s} hs => by
      refine ⟨hdown, recorded_of_run hbefore hs, ending_of_run hbefore hs, ?_⟩
      obtain ⟨pc, vm, hs'⟩ := (System.Reached.of_run hbefore).stands_of_running hwas hentry
      cases (System.Reached.of_run hbefore).stands_unique hs hs'
      exact ⟨rfl, rfl⟩) (hstore.and hquiet) hduring hs
  exact hall.2.2.2

/-! ## Snapshots through a restart -/

/-- Before a socket is open nobody removes or wakes a VM. -/
theorem System.Reached.undisturbed (h : node.Reached subnet) (hready : ¬ node.Ready)
    (hopen : ∀ machines, event ≠ .openSocket machines)
    (hstep : node.step subnet event = some next) :
    Undisturbed name node event ∧ SparesWakes name node event := by
  have hidle : ¬ node.WakeAway name := by
    rintro ⟨task, launch, pc, vm, hs, -⟩
    obtain ⟨up, hup, hlaunch, -⟩ := hs.of_launching
    exact hready ⟨up, hup, (h.sound.up hup).ready_of_launch hlaunch⟩
  have hquiet (hremove : event ≠ .remove name) (hpc : node.launchPc event = none) :
      Undisturbed name node event ∧ SparesWakes name node event := by
    refine ⟨⟨hremove, ?_⟩, fun _ => hidle, ?_⟩
    · simp [hpc]
    · simp [hpc]
  rcases step_eq_some hstep with ⟨vmAddress, process, rfl, -⟩ | ⟨rfl, -⟩ |
    ⟨up, hup, hstep⟩
  · exact hquiet nofun rfl
  · exact hquiet nofun rfl
  · have hboot : up.boot ≠ .ready := fun hboot => hready ⟨up, hup, hboot⟩
    cases (h.sound.up hup).startMove hboot hopen hstep with
    | bootStep | supervise => exact hquiet nofun rfl
    | gone hevent hnext =>
      rcases hevent with rfl | rfl
      · exact hquiet nofun rfl
      · exact hquiet nofun rfl

/-- A snapshot that a parked VM owns survives restarts. -/
theorem System.kept_of_run {down schedule} (hdown : down.Reached subnet) (hnone : down.up = none)
    (hkept : RowParked name down.host.rows[name]? → Whole down.host.snapshots[name]?)
    (hopen : ∀ event ∈ schedule, ∀ machines, event ≠ .openSocket machines)
    (hrun : run (step subnet) down schedule = some node)
    (hs : node.Stands name s) : s.Kept node.host name := by
  refine hdown.preserves_from_start (fun node s => s.Kept node.host name) hnone
    (fun hnode hready _ hopen hstep hs hrecorded h hmove => ?_) hkept hopen Along.trivial
    hrun hs
  obtain ⟨hundisturbed, hspares⟩ := hnode.undisturbed hready hopen hstep
  exact h.step hs hrecorded hundisturbed hspares hmove

/-! ## Shutdown and restart -/

/-- If the name's entry is Running, its VMM does run, and no stop or park of the VM is under
way. -/
def System.vmmWatched (node : System) (name : Str) : Bool :=
  node.up.all fun up => up.agent.vms[name]?.all fun entry =>
    match entry with
    | .running _ _ task => up.supervising[task]?.all fun item =>
      item.1 == .watch && item.2.process.all (node.host.isRunning item.2.vmAddress)
    | _ => true

/-- When the agent exits, the VM's VMM runs and is only watched, or the VM's end is recorded. -/
def System.exitsInTime (node : System) (name : Str) : NodeEvent → Bool
  | .exit => node.vmmWatched name
  | _ => true

def ExitsInTime (name : Str) (node : System) (event : NodeEvent) : Prop :=
  node.exitsInTime name event = true

instance : Decidable (ExitsInTime name node event) := inferInstanceAs (Decidable (_ = _))

theorem System.vmmWatched_eq_true (h : node.vmmWatched name) {vm}
    (hs : node.Stands name (.running task info log pc vm))
    {process} (hprocess : vm.process = some process) :
    pc = .watch ∧ node.host.isRunning vm.vmAddress process := by
  obtain ⟨up, hup, hsup, hentry, hpc⟩ := hs.of_running
  simpa [vmmWatched, hup, hentry, hpc, hprocess] using h

theorem System.exit_eq_some (h : node.step subnet .exit = some next) :
    next.host = node.host ∧ next.up = none := by
  obtain ⟨up, -, hstep⟩ := Option.bind_eq_some_iff.mp h
  cases AgentProcess.move_of_step hstep with
  | exits => exact ⟨rfl, rfl⟩
  | begins hfrom => cases hfrom

theorem System.shuttingDown_of_sigterm (h : node.step subnet .sigterm = some next) :
    next.ShuttingDown := by
  obtain ⟨up, -, hstep⟩ := Option.bind_eq_some_iff.mp h
  cases AgentProcess.move_of_step hstep with
  | sigterm hready => exact ⟨_, rfl, hready, rfl⟩
  | begins hfrom => cases hfrom

/-- The agent hears the signal, goes on until it exits, and others start until one has
opened its socket. If at the exit the VM's VMM runs and no stop or park of the VM is under
way, or its end is recorded by then, a VM that ran when the signal came is Running, or has
ended: by a park with its whole snapshot in place, for another reason of its own, or as
AgentDown because its VMM, which nobody had asked to end, ended when no agent was there. -/
theorem shutdown_loses_no_vm (subnet : Subnet) (name : Str) {before during after : List NodeEvent}
    {machines : Machines} {signalled exited node : System} {was up : AgentProcess} {info : VmInfo}
    {log : Str} {task : Nat}
    (hbefore : run (System.step subnet) .fresh (before ++ [.sigterm]) = some signalled)
    (hwas : signalled.up = some was) (hentry : was.agent.vms[name]? = some (.running info log task))
    (hduring : run (System.step subnet) signalled (during ++ [.exit]) = some exited)
    (hafter : run (System.step subnet) exited (after ++ [.openSocket machines]) = some node)
    (hup : node.up = some up) (hgraceful : ∀ event ∈ during, Graceful name event)
    (hopen : ∀ event ∈ after, ∀ machines, event ≠ .openSocket machines)
    (hstore : Along (System.step subnet) StoreSucceeds signalled (during ++ .exit :: after))
    (hintime : Along (System.step subnet) (ExitsInTime name) signalled
      (during ++ .exit :: after)) :
    (∃ task', up.agent.vms[name]? = some (.running info log task')) ∨
    ∃ ended : Ended, up.agent.vms[name]? = some (.ended (endedInfo info ended) log) ∧
      (ended.reason = .parked → Whole node.host.snapshots[name]?) ∧
      (ended.reason = .agentDown → ∃ row a process, exited.host.RunningRow name row a process ∧
        exited.host.isRunning a process = true ∧ node.host.isRunning a process = false) := by
  obtain ⟨last, hlast, hexit⟩ := run_append_eq_some.mp hduring
  obtain ⟨_, hexit, hnil⟩ := run_cons_eq_some.mp hexit
  cases hnil
  obtain ⟨hhost, hnone⟩ := System.exit_eq_some hexit
  obtain ⟨running, -, hsignal⟩ := run_append_eq_some.mp hbefore
  obtain ⟨_, hsignal, hnil⟩ := run_cons_eq_some.mp hsignal
  cases hnil
  have hrunLast := run_append_eq_some.mpr ⟨signalled, hbefore, hlast⟩
  have hrunExited := run_append_eq_some.mpr ⟨signalled, hbefore, hduring⟩
  have hstore' := (hstore.of_append_right hlast).2 exited hexit
  have hwatched : last.vmmWatched name := (hintime.of_append_right hlast).1
  have hrestored : Restored last.host node.host up.agent.vms name :=
    hhost ▸ System.restored_of_run hrunExited hnone hafter hopen hstore' hup
  have hreached := System.Reached.of_run hrunLast
  obtain ⟨s, hs⟩ := hreached.exists_stands name
  have houtlives := System.outlives_of_run hbefore (System.shuttingDown_of_sigterm hsignal) hwas
    hentry hlast hgraceful hstore.of_append hs
  rw [hhost]
  cases s with
  | running task' info' log' pc vm =>
    obtain ⟨rfl, rfl⟩ := houtlives
    obtain ⟨row, process, hprocess, hrow, rfl, rfl⟩ :=
      hreached.runningRow_of_stands hs (System.recorded_of_run hrunLast hs)
    rcases hrestored.of_runningRow hrow with ⟨-, hadopted⟩ | ⟨hdead, ended, hreason, hgone⟩
    · exact .inl hadopted
    · refine .inr ⟨ended, hgone, fun hparked => ?_, fun _ => ?_⟩
      · simp [hparked, EndReason.natural] at hreason
      · exact ⟨row, _, process, hrow, (System.vmmWatched_eq_true hwatched hs hprocess).2, hdead⟩
  | ended info' log' removal =>
    obtain ⟨-, rfl, htold, ended, rfl, hreason, hwhole⟩ := houtlives
    have hback := hrestored.of_tellsOf htold
    refine .inr ⟨ended, hback, fun hparked => ?_, fun hdown => absurd hdown hreason⟩
    obtain ⟨middle, found, hmiddle, hfound, hboot, rfl⟩ := System.opened_of_run hafter
    cases hup
    have hkept := System.kept_of_run (.of_run hrunExited) hnone
      (fun _ => hhost ▸ hwhole hparked) hopen hmiddle (.up hfound (.ended hback))
    exact hkept.2.1 (isParked_endedInfo.mpr hparked)
  | down | loading | absent | launching => exact houtlives.elim

/-- A VM is being parked, and its supervisor has moved all files and has yet to tear down
and record the end. The signal comes. -/
def signalledParkSchedule : List NodeEvent :=
  NodeEvent.boots 2 ++ NodeEvent.starts "web" 0 ++
    .stop 1 .park :: List.replicate 8 (.supervise 1 .ok .exited 0) ++ [.sigterm]

theorem runs_when_signalled :
    ∃ signalled, run (System.step .sample) .fresh signalledParkSchedule = some signalled ∧
      ∃ was, signalled.up = some was ∧
      ∃ info log task, was.agent.vms["web".toList]? = some (.running info log task) := by
  decide +kernel

/-- The agent exits at once. Nothing fails, and after a restart the VM has ended as
AgentDown and its snapshot is gone. -/
theorem shutdown_loses_parking_vm :
    ∃ signalled was exited node up,
      run (System.step .sample) .fresh signalledParkSchedule = some signalled ∧
      signalled.up = some was ∧
      (∃ info log task, was.agent.vms["web".toList]? = some (.running info log task)) ∧
      run (System.step .sample) signalled [.exit] = some exited ∧
      run (System.step .sample) exited (NodeEvent.boots 10) = some node ∧
      node.up = some up ∧
      (∀ event ∈ signalledParkSchedule ++ .exit :: NodeEvent.boots 10, event.outcome = .ok) ∧
      (∃ info log ended, up.agent.vms["web".toList]? = some (.ended info log) ∧
        info.ended = some ended ∧ ended.reason = .agentDown) ∧
      node.host.snapshots["web".toList]? = none := by
  obtain ⟨signalled, hrun, was, hwas, hentry⟩ := runs_when_signalled
  obtain ⟨_, hsame, exited, hexit, node, hafter, up, hup, hended, hgone⟩ : ∃ signalled,
      run (System.step .sample) .fresh signalledParkSchedule = some signalled ∧
      ∃ exited, run (System.step .sample) signalled [.exit] = some exited ∧
      ∃ node, run (System.step .sample) exited (NodeEvent.boots 10) = some node ∧
      ∃ up, node.up = some up ∧
      (∃ info log, up.agent.vms["web".toList]? = some (.ended info log) ∧
        ∃ ended, info.ended = some ended ∧ ended.reason = .agentDown) ∧
      node.host.snapshots["web".toList]? = none := by decide +kernel
  cases hrun.symm.trans hsame
  obtain ⟨info, log, hlast, ended, hended⟩ := hended
  exact ⟨signalled, was, exited, node, up, hrun, hwas, hentry, hexit, hafter, hup,
    by decide +kernel, ⟨info, log, ended, hlast, hended⟩, hgone⟩

/-- The supervisor goes on to record the park. -/
def parkRecordedSchedule : List NodeEvent := List.replicate 7 (.supervise 1 .ok .exited 0)

/-- The theorem applies: when the agent exits only then, the VM is parked after a restart,
with its whole snapshot. -/
theorem shutdown_keeps_parking_vm :
    ∃ signalled exited node up info log ended,
      run (System.step .sample) .fresh signalledParkSchedule = some signalled ∧
      run (System.step .sample) signalled (parkRecordedSchedule ++ [.exit]) = some exited ∧
      run (System.step .sample) exited (NodeEvent.boots 4) = some node ∧
      node.up = some up ∧
      up.agent.vms["web".toList]? = some (.ended (endedInfo info ended) log) ∧
      ended.reason = .parked ∧ Whole node.host.snapshots["web".toList]? := by
  obtain ⟨signalled, hrun, was, hwas, info, log, task, hentry⟩ := runs_when_signalled
  obtain ⟨_, hsame, hstore, hintime, exited, hexit, node, hafter, up, hup, _, _, hlast, ended,
      hended, hreason⟩ : ∃ signalled,
      run (System.step .sample) .fresh signalledParkSchedule = some signalled ∧
      Along (System.step .sample) StoreSucceeds signalled
        (parkRecordedSchedule ++ .exit :: .boot :: List.replicate 4 (.bootStep .ok 0)) ∧
      Along (System.step .sample) (ExitsInTime "web") signalled
        (parkRecordedSchedule ++ .exit :: .boot :: List.replicate 4 (.bootStep .ok 0)) ∧
      ∃ exited,
        run (System.step .sample) signalled (parkRecordedSchedule ++ [.exit]) = some exited ∧
      ∃ node, run (System.step .sample) exited (NodeEvent.boots 4) = some node ∧
      ∃ up, node.up = some up ∧
      ∃ info log, up.agent.vms["web".toList]? = some (.ended info log) ∧
      ∃ ended, info.ended = some ended ∧ ended.reason = .parked := by decide +kernel
  cases hrun.symm.trans hsame
  have hgraceful : ∀ event ∈ parkRecordedSchedule, Graceful "web" event := by
    intro event hevent
    rw [List.eq_of_mem_replicate hevent]
    exact ⟨by rintro ⟨⟩, by rintro ⟨⟩, by rintro ⟨⟩⟩
  rcases shutdown_loses_no_vm .sample "web" hrun hwas hentry hexit hafter hup hgraceful
    (NodeEvent.boots_quiet 4) hstore hintime with ⟨task', hrunning⟩ | ⟨ended', hentry', hwhole, -⟩
  · cases hlast.symm.trans hrunning
  · cases hlast.symm.trans hentry'
    cases hended
    exact ⟨signalled, exited, node, up, info, log, ended, hrun, hexit, hafter, hup, hentry',
      hreason, hwhole hreason⟩

end Cirrocumulus.Node
