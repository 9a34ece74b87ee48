/-
# Recovery

What a restart makes of a Node, whatever its agent was doing when it crashed, and
however often the next ones crash before one has opened its socket. Every row is taken
back as it is, but for VMs whose VMM is gone. Two kinds of names can surprise: history
whose removal had deleted its row is gone, and a VM that was still Starting may end as
AgentDown, when it was recorded already.
-/

import Cirrocumulus.Node.Sweep

namespace Cirrocumulus.Node

open Lib

variable {up : AgentProcess} {info : VmInfo} {log : Str} {machines : Machines} {task : Nat}

variable {subnet : Subnet} {down node : System} {schedule : List NodeEvent} {name : Str}

theorem System.crash_eq_some {next} (h : node.step subnet .crash = some next) :
    next.host = node.host ∧ next.up = none := by
  obtain ⟨up, -, hstep⟩ := Option.bind_eq_some_iff.mp h
  cases hstep
  exact ⟨rfl, rfl⟩

/-- A schedule that ends when a socket opens. -/
theorem System.opened_of_run
    (hrun : run (step subnet) down (schedule ++ [.openSocket machines]) = some node) :
    ∃ middle up, run (step subnet) down schedule = some middle ∧
      middle.up = some up ∧ up.boot = .sweep [] ∧
      node = ⟨middle.host, some { up with
        agent := { up.agent with machines }
        boot := .ready }⟩ := by
  obtain ⟨middle, hmiddle, hlast⟩ := run_append_eq_some.mp hrun
  obtain ⟨next, hstep, hnil⟩ := run_cons_eq_some.mp hlast
  cases hnil
  obtain ⟨up, hup, hstep⟩ := Option.bind_eq_some_iff.mp hstep
  cases AgentProcess.move_of_step hstep with
  | opens hboot => exact ⟨middle, up, hmiddle, hup, hboot, rfl⟩
  | begins hfrom => cases hfrom

/-- What agents that start have made of a name's row, as they found it in `before`. -/
inductive Restored (before host : Host) (vms : Table) (name : Str) : Prop
  | absent (hrow : before.rows[name]? = none) (hentry : vms[name]? = none)
  | ended {row} (hrow : before.rows[name]? = some row) (hended : row.ended.isSome)
      (hentry : vms[name]? = some (.ended (row.record name).info row.log))
  | adopted {row vmAddress process task} (hrow : before.RunningRow name row vmAddress process)
      (halive : before.isRunning vmAddress process)
      (hentry : vms[name]? = some (.running (row.record name).info row.log task))
  | gone {row vmAddress process ended} (hrow : before.RunningRow name row vmAddress process)
      (hdead : host.isRunning vmAddress process = false) (hreason : ended.reason = .agentDown ∨
        before.isRunning vmAddress process ∧ ended.reason.natural)
      (hentry : vms[name]? = some (.ended (endedInfo (row.record name).info ended) row.log))

/-- Once all records are taken back, every name is restored. -/
theorem restored_of_since {before host} (hsound : up.Sound subnet host) (htodo : up.boot.todo = [])
    (hrecorded : ∀ {s}, up.Stands name s → s.Recorded name host.rows[name]?)
    (hsince : ∀ {s}, up.Stands name s → s.Since before host name) :
    Restored before host up.agent.vms name := by
  obtain ⟨s, hs⟩ := hsound.exists_stands name
  have hrow := hrecorded hs
  have hnow := hsince hs
  cases hs with
  | loading hrecord hname =>
    rw [htodo] at hrecord
    cases hrecord
  | absent hentry hload => exact .absent hnow.1 hentry
  | @ended info log hentry =>
    obtain ⟨-, hrows, found, hfound, hended, hinfo, hlog⟩ := hnow
    dsimp only at hinfo hlog
    subst hinfo hlog
    cases hrows with
    | same hsame => exact .ended (hsame.symm.trans hfound) hended hentry
    | marked hbefore hmarked hdead hreason =>
      cases hfound.symm.trans hmarked
      exact .gone hbefore hdead hreason hentry
  | launching hlaunch hname hpc => exact hnow.elim
  | @running task info log pc vm hsup hentry hpc =>
    obtain ⟨hsame, -, halive⟩ := hnow
    obtain ⟨hended, found, hfound, hrecord⟩ := hrow
    obtain ⟨info', log', hentry', hvm⟩ := hsound.superviseSound hsup hpc
    cases hentry.symm.trans hentry'
    obtain ⟨process, hprocess, -⟩ := hvm.process
    have hinfo : (found.record name).info = info := congrArg Record.info hrecord
    have hlog : found.log = log := congrArg Record.log hrecord
    subst hinfo hlog
    exact .adopted ⟨hsame.symm.trans hfound, hended, hvm.vmAddress,
      (congrArg Record.process hrecord).trans hprocess⟩ (halive process hprocess) hentry

/-- The agent is gone, and others start until one has opened its socket: what that one
makes of every name. -/
theorem System.restored_of_run {before}
    (hbefore : run (step subnet) .fresh before = some down) (hnone : down.up = none)
    (hafter : run (step subnet) down (schedule ++ [.openSocket machines]) = some node)
    (hopen : ∀ event ∈ schedule, ∀ machines, event ≠ .openSocket machines)
    (hstore : Along (step subnet) StoreSucceeds down schedule)
    (hup : node.up = some up) : Restored down.host node.host up.agent.vms name := by
  obtain ⟨middle, found, hmiddle, hfound, hboot, rfl⟩ := opened_of_run hafter
  cases hup
  have hrun : run (step subnet) .fresh (before ++ schedule) = some middle :=
    run_append_eq_some.mpr ⟨down, hbefore, hmiddle⟩
  have hrestored : Restored down.host middle.host found.agent.vms name := by
    refine restored_of_since ((System.Reached.of_run hrun).sound.up hfound) (by rw [hboot]; rfl)
      (fun hs => recorded_of_run hrun (.up hfound hs)) fun hs => ?_
    exact since_of_run (.of_run hbefore) hnone hopen hstore hmiddle (.up hfound hs)
  exact hrestored

namespace Restored

variable {before host : Host} {vms : Table}

variable (h : Restored before host vms name)
include h

/-- A name without a row is free. -/
theorem of_none (hrow : before.rows[name]? = none) : vms[name]? = none := by
  cases h with
  | absent hnone hentry => exact hentry
  | ended hfound hended hentry => cases hrow.symm.trans hfound
  | adopted hfound | gone hfound => cases hrow.symm.trans hfound.found

/-- History is back as its row tells. -/
theorem of_tellsOf {old}
    (hrow : TellsOf name before.rows[name]? old) : vms[name]? = some (.ended old.info old.log) := by
  obtain ⟨row, hrow, hended, hinfo, hlog⟩ := hrow
  have hnot {row' a process}
      (hfound : before.RunningRow name row' a process) : False := by
    cases hrow.symm.trans hfound.found
    rw [hfound.ended] at hended
    cases hended
  cases h with
  | absent hnone hentry => cases hrow.symm.trans hnone
  | ended hfound hended' hentry =>
    cases hrow.symm.trans hfound
    rw [hentry, hinfo, hlog]
  | adopted hfound | gone hfound => exact (hnot hfound).elim

/-- A VM recorded as running runs on, or its VMM is gone. -/
theorem of_runningRow {row a process} (hrow : before.RunningRow name row a process) :
    (before.isRunning a process ∧
      ∃ task, vms[name]? = some (.running (row.record name).info row.log task)) ∨
    host.isRunning a process = false ∧ ∃ ended : Ended,
      (ended.reason = .agentDown ∨
        before.isRunning a process ∧ ended.reason.natural) ∧
      vms[name]? = some (.ended (endedInfo (row.record name).info ended) row.log) := by
  cases h with
  | absent hnone hentry => cases hrow.found.symm.trans hnone
  | ended hfound hended hentry =>
    cases hrow.found.symm.trans hfound
    rw [hrow.ended] at hended
    cases hended
  | adopted hfound halive hentry =>
    cases hrow.found.symm.trans hfound.found
    cases hrow.vmAddress.symm.trans hfound.vmAddress
    cases hrow.process.symm.trans hfound.process
    exact .inl ⟨halive, _, hentry⟩
  | gone hfound hdead hreason hentry =>
    cases hrow.found.symm.trans hfound.found
    cases hrow.vmAddress.symm.trans hfound.vmAddress
    cases hrow.process.symm.trans hfound.process
    exact .inr ⟨hdead, _, hreason, hentry⟩

end Restored

/-! ## The registry after a restart -/

/-- A VM that runs is recorded so. -/
theorem System.Reached.runningRow_of_stands (h : node.Reached subnet) {pc vm}
    (hs : node.Stands name (.running task info log pc vm))
    (hrecorded : (Standing.running task info log pc vm).Recorded name node.host.rows[name]?) :
    ∃ row process, vm.process = some process ∧
      node.host.RunningRow name row vm.vmAddress process ∧
      (row.record name).info = info ∧ row.log = log := by
  obtain ⟨hended, row, hrow, hrecord⟩ := hrecorded
  have hvm := h.superviseSound hs
  obtain ⟨process, hprocess, -⟩ := hvm.process
  have hinfo : (row.record name).info = info := congrArg Record.info hrecord
  refine ⟨row, process, hprocess, ⟨hrow, ?_, ?_, ?_⟩, hinfo, congrArg Record.log hrecord⟩
  · exact (congrArg VmInfo.ended hinfo).trans hended
  · exact (congrArg VmInfo.vmAddress hinfo).trans hvm.vmAddress
  · exact (congrArg Record.process hrecord).trans hprocess

section

variable {was : AgentProcess} {host : Host} {vms : Table}

/-- History is back, unless its removal had deleted the row. -/
theorem System.history_restored (hrun : run (step subnet) .fresh schedule = some node)
    (hstore : Along (step subnet) StoreSucceeds .fresh schedule)
    (hwas : node.up = some was) (hentry : was.agent.vms[name]? = some (.ended info log))
    (hrestored : Restored node.host host vms name) :
    vms[name]? = some (.ended info log) ∨
      was.removing = some (name, .erase) ∧ vms[name]? = none := by
  have hs : node.Stands name (.ended info log (was.removal name)) := .up hwas (.ended hentry)
  by_cases hremoval : was.removal name = some .erase
  · have hrow : node.host.rows[name]? = none := recorded_of_run hrun hs hremoval
    exact .inr ⟨was.removing_of_removal hremoval, hrestored.of_none hrow⟩
  · exact .inl (hrestored.of_tellsOf (told_of_run hrun hstore hs hremoval))

/-- A VM that was Starting is recorded as running, or what was set aside for it is back. -/
theorem System.starting_restored (hrun : run (step subnet) .fresh schedule = some node)
    (hstore : Along (step subnet) StoreSucceeds .fresh schedule)
    (hwas : node.up = some was) {launch} (hlaunch : was.agent.launches[task]? = some launch)
    (hrestored : Restored node.host host vms launch.name) :
    (∃ startedAt process, node.host.RunningRow launch.name
      (runningRow (launch.info startedAt) launch.log process) launch.vmAddress process) ∨
    vms[launch.name]? = launch.setAside.map fun old => .ended old.info old.log := by
  obtain ⟨pc, vm, hpc, -⟩ := ((System.Reached.of_run hrun).sound.up hwas).launching hlaunch
  have hs : node.Stands launch.name (.launching task launch pc vm) :=
    .up hwas (.launching hlaunch rfl hpc)
  obtain ⟨hrecorded, hfree⟩ := recorded_of_run hrun hs
  obtain ⟨-, haside⟩ := told_of_run hrun hstore hs
  cases hstarted : pc.startedAt with
  | some startedAt =>
    obtain ⟨process, -, hrow⟩ := hrecorded startedAt hstarted
    exact .inl ⟨startedAt, process, hrow, rfl, rfl, rfl⟩
  | none =>
    have hpc' : pc.recorded = false := by rw [LaunchPc.recorded, hstarted]; rfl
    refine .inr ?_
    cases hkind : launch.setAside with
    | none => exact hrestored.of_none (hfree hpc' hkind)
    | some old => exact hrestored.of_tellsOf (haside hpc' old hkind)

/-- Once a socket is open, host objects are left of Running VMs alone. -/
theorem System.swept_of_run {before}
    (hbefore : run (step subnet) .fresh before = some down) (hnone : down.up = none)
    (hafter : run (step subnet) down (schedule ++ [.openSocket machines]) = some node)
    (hopen : ∀ event ∈ schedule, ∀ machines, event ≠ .openSocket machines)
    (hclean : Along (step subnet) CleansUp down schedule) (hup : node.up = some up)
    {a} (ha : subnet.Contains a)
    (hpresent : (node.host.objectsAt (hostId a)).present) : up.Runs a := by
  have hrun := run_append_eq_some.mpr ⟨down, hbefore, hafter⟩
  obtain ⟨b, hb, hid⟩ := named_of_run hrun _ hpresent
  have hab : a = b :=
    subnet.eq_of_low16_eq ha (subnet.contains_of_mem hb) (low16_eq_of_hostId_eq hid)
  subst hab
  obtain ⟨middle, found, hmiddle, hfound, hboot, rfl⟩ := opened_of_run hafter
  cases hup
  have hsweeping := sweeping_of_run (.of_run hbefore) hnone hopen hclean hmiddle
  rcases (hsweeping.sweeps found hfound).found (by rw [hboot]; rfl) hb hpresent with hmem | hruns
  · rw [hboot] at hmem
    cases hmem
  · exact hruns

end

/-- The name is Running as the row says, with exactly one supervisor. -/
def AgentProcess.Adopts (up : AgentProcess) (name : Str) (row : Row) : Prop :=
  ∃ task : Nat, up.agent.vms[name]? = some (.running (row.record name).info row.log task) ∧
    up.agent.supervisors[task]? = some name ∧
    ∀ other : Nat, up.agent.supervisors[other]? = some name → other = task

/-- The agent crashes, and others start until one has opened its socket. While statements
of the database succeed:
VMs that were Running had their rows;
a VM recorded as running is Running as recorded, if its VMM still is, and has ended as
AgentDown, if its VMM was gone already;
history is as it was, unless its removal had deleted the row;
a name that was Starting has its VM recorded as running, or what was set aside for it is
back;
and if clean-up commands succeed, host objects are left only of Running VMs. -/
theorem restart_recovers (subnet : Subnet) {before after : List NodeEvent} {machines : Machines}
    {crashed node : System} {was up : AgentProcess}
    (hbefore : run (System.step subnet) .fresh before = some crashed)
    (hwas : crashed.up = some was) (hafter : run (System.step subnet) crashed
      (.crash :: after ++ [.openSocket machines]) = some node) (hup : node.up = some up)
    (hopen : ∀ event ∈ after, ∀ machines, event ≠ .openSocket machines)
    (hstore : Along (System.step subnet) StoreSucceeds .fresh (before ++ .crash :: after)) :
    (∀ (name : Str) (info : VmInfo) (log : Str) (task : Nat),
      was.agent.vms[name]? = some (.running info log task) →
        ∃ row a process, crashed.host.RunningRow name row a process ∧
          (row.record name).info = info ∧ row.log = log) ∧
    (∀ name row a process, crashed.host.RunningRow name row a process →
      node.host.isRunning a process = true →
        up.Adopts name row ∧ (row.record name).info.vmAddress = some a) ∧
    (∀ name row a process, crashed.host.RunningRow name row a process →
      crashed.host.isRunning a process = false →
        ∃ time, up.agent.vms[name]? =
          some (.ended (endedInfo (row.record name).info ⟨time, .agentDown⟩) row.log)) ∧
    (∀ (name : Str) (info : VmInfo) (log : Str),
      was.agent.vms[name]? = some (.ended info log) →
        up.agent.vms[name]? = some (.ended info log) ∨
          was.removing = some (name, .erase) ∧ up.agent.vms[name]? = none) ∧
    (∀ (name : Str) (a : Ipv4Addr) (log : Str) (route : Option Route),
      was.agent.vms[name]? = some (.starting a log route) →
        ∃ (task : Nat) (launch : Launch), was.agent.launches[task]? = some launch ∧
          launch.name = name ∧
          ((∃ startedAt process, crashed.host.RunningRow name
              (runningRow (launch.info startedAt) launch.log process) a process) ∨
            up.agent.vms[name]? = launch.setAside.map fun old => .ended old.info old.log)) ∧
    (Along (System.step subnet) CleansUp crashed (.crash :: after) →
      ∀ a, subnet.Contains a → (node.host.objectsAt (hostId a)).present = true → up.Runs a) := by
  have hcrashed := System.Reached.of_run hbefore
  obtain ⟨down, hcrash, hstart⟩ := run_cons_eq_some.mp hafter
  obtain ⟨hhost, hnone⟩ := System.crash_eq_some hcrash
  have hbefore' : run (System.step subnet) .fresh (before ++ [.crash]) = some down :=
    run_append_eq_some.mpr ⟨crashed, hbefore, run_cons_eq_some.mpr ⟨_, hcrash, rfl⟩⟩
  have hstore' := (hstore.of_append_right hbefore).2 down hcrash
  have hrestored (name : Str) : Restored crashed.host node.host up.agent.vms name :=
    hhost ▸ System.restored_of_run hbefore' hnone hstart hopen hstore' hup
  have hrun : run (System.step subnet) .fresh
      ((before ++ [.crash]) ++ (after ++ [.openSocket machines])) = some node :=
    run_append_eq_some.mpr ⟨_, hbefore', hstart⟩
  have hsound := (System.Reached.of_run hrun).sound.up hup
  refine ⟨?_, ?_, ?_, ?_, ?_, ?_⟩
  · intro name info log task hentry
    obtain ⟨pc, vm, hs⟩ := hcrashed.stands_of_running hwas hentry
    obtain ⟨row, process, -, hrow, htold⟩ :=
      hcrashed.runningRow_of_stands hs (System.recorded_of_run hbefore hs)
    exact ⟨row, vm.vmAddress, process, hrow, htold⟩
  · intro name row a process hrow halive
    rcases (hrestored name).of_runningRow hrow with ⟨-, task, hentry⟩ | ⟨hdead, -⟩
    · have hsup := hsound.owned.running_supervisor hentry
      exact ⟨⟨task, hentry, hsup, fun other hother =>
        hsound.owned.supervisor_unique hother hsup⟩, hrow.vmAddress⟩
    · rw [hdead] at halive
      cases halive
  · intro name row a process hrow hdead
    rcases (hrestored name).of_runningRow hrow with ⟨halive, -⟩ | ⟨-, ended, hreason, hentry⟩
    · rw [hdead] at halive
      cases halive
    · rcases hreason with hreason | ⟨halive, -⟩
      · refine ⟨ended.time, ?_⟩
        rw [hentry, ← hreason]
      · rw [hdead] at halive
        cases halive
  · intro name info log hentry
    exact System.history_restored hbefore hstore.of_append hwas hentry (hrestored name)
  · intro name a log route hentry
    obtain ⟨task, launch, hlaunch, rfl⟩ := (hcrashed.sound.up hwas).owned.starting_launch hentry
    have hat : launch.vmAddress = a := by
      cases ((hcrashed.sound.up hwas).owned.launch_entry hlaunch).symm.trans hentry
      rfl
    subst hat
    exact ⟨task, launch, hlaunch, rfl,
      System.starting_restored hbefore hstore.of_append hwas hlaunch (hrestored launch.name)⟩
  · intro hclean a ha hpresent
    exact System.swept_of_run hbefore' hnone hstart hopen (hclean.2 down hcrash) hup ha hpresent

/-! ## Runs -/

/-- An agent that starts opens its socket last. -/
theorem NodeEvent.boots_quiet (steps : Nat) :
    ∀ event ∈ boot :: List.replicate steps (.bootStep .ok 0),
      ∀ machines, event ≠ .openSocket machines := by
  intro event hevent machines
  rcases List.mem_cons.mp hevent with rfl | hevent
  · exact nofun
  · rw [List.eq_of_mem_replicate hevent]
    exact nofun

/-- A VM has ended, and its removal has deleted its row. -/
def cutRemovalSchedule : List NodeEvent :=
  NodeEvent.boots 2 ++ NodeEvent.starts "web" 0 ++
    .stop 1 .force :: List.replicate 7 (.supervise 1 .ok .exited 0) ++
    [.remove "web", .removeStep .ok, .removeStep .ok]

/-- A VM that is Starting is recorded as running, and its VMM ends. -/
def cutStartSchedule : List NodeEvent :=
  NodeEvent.boots 2 ++ .runVm (.sample "web" none) "web.log" ::
    List.replicate 7 (.launch 0 .ok 0) ++ [.vmmEnds 0x0A4D0002#32 1]

/-- History whose removal was cut short is gone after a restart, and a VM that was Starting
and replaced nothing has ended as AgentDown. No statement fails. -/
theorem restart_drops_removed_and_ends_starting :
    (∃ crashed node was up,
      run (System.step .sample) .fresh cutRemovalSchedule = some crashed ∧
      crashed.up = some was ∧
      run (System.step .sample) crashed (.crash :: NodeEvent.boots 2) = some node ∧
      node.up = some up ∧
      Along (System.step .sample) StoreSucceeds .fresh
        (cutRemovalSchedule ++ .crash :: NodeEvent.boots 2) ∧
      (∃ info log, was.agent.vms["web".toList]? = some (.ended info log)) ∧
      up.agent.vms["web".toList]? = none) ∧
    ∃ crashed node was up,
      run (System.step .sample) .fresh cutStartSchedule = some crashed ∧
      crashed.up = some was ∧
      run (System.step .sample) crashed (.crash :: NodeEvent.boots 9) = some node ∧
      node.up = some up ∧
      Along (System.step .sample) StoreSucceeds .fresh
        (cutStartSchedule ++ .crash :: NodeEvent.boots 9) ∧
      (∃ (launch : Launch), was.agent.launches[0]? = some launch ∧
        launch.name = "web" ∧ launch.setAside = none) ∧
      ∃ info log ended, up.agent.vms["web".toList]? = some (.ended info log) ∧
        info.ended = some ended ∧ ended.reason = .agentDown := by
  simp only [exists_and_left, @exists_comm System AgentProcess]
  constructor
  · decide +kernel
  · decide +kernel

/-- Two VMs run, and the VMM of one ends. -/
def twoVmsSchedule : List NodeEvent :=
  NodeEvent.boots 2 ++ NodeEvent.starts "web" 0 ++ NodeEvent.starts "db" 2 ++
    [.vmmEnds 0x0A4D0003#32 9]

/-- The theorem applies: the agent crashes, and after a restart one VM is Running, the
other has ended as AgentDown, and host objects are left of the first alone. -/
theorem restart_recovers_two_vms :
    ∃ crashed node up row row',
      run (System.step .sample) .fresh twoVmsSchedule = some crashed ∧
      run (System.step .sample) crashed (.crash :: NodeEvent.boots 10) = some node ∧
      node.up = some up ∧
      crashed.host.RunningRow "web" row 0x0A4D0002#32 1 ∧
      up.Adopts "web" row ∧
      crashed.host.RunningRow "db" row' 0x0A4D0003#32 9 ∧
      (∃ time, up.agent.vms["db".toList]? = some
        (.ended (endedInfo (row'.record "db").info ⟨time, .agentDown⟩) row'.log)) ∧
      ∀ a, Subnet.sample.Contains a → (node.host.objectsAt (hostId a)).present = true →
        up.Runs a := by
  obtain ⟨crashed, hrun, was, hwas, hdead, ⟨row, hweb⟩, ⟨row', hdb⟩, hclean, node, hafter, up, hup,
      halive⟩ : ∃ crashed,
      run (System.step .sample) .fresh twoVmsSchedule = some crashed ∧
      ∃ was, crashed.up = some was ∧ crashed.host.isRunning 0x0A4D0003#32 9 = false ∧
      (∃ row, crashed.host.rows["web".toList]? = some row ∧ row.ended = none ∧
        row.vmAddress = some 0x0A4D0002#32 ∧ row.process = some 1) ∧
      (∃ row, crashed.host.rows["db".toList]? = some row ∧ row.ended = none ∧
        row.vmAddress = some 0x0A4D0003#32 ∧ row.process = some 9) ∧
      Along (System.step .sample) CleansUp crashed
        (.crash :: .boot :: List.replicate 10 (.bootStep .ok 0)) ∧
      ∃ node, run (System.step .sample) crashed (.crash :: NodeEvent.boots 10) = some node ∧
        ∃ up, node.up = some up ∧ node.host.isRunning 0x0A4D0002#32 1 := by decide +kernel
  obtain ⟨-, hadopts, hends, -, -, hswept⟩ := restart_recovers .sample hrun hwas hafter hup
    (NodeEvent.boots_quiet 10) (by decide +kernel)
  have hweb : crashed.host.RunningRow _ row _ _ := ⟨hweb.1, hweb.2.1, hweb.2.2.1, hweb.2.2.2⟩
  have hdb : crashed.host.RunningRow _ row' _ _ := ⟨hdb.1, hdb.2.1, hdb.2.2.1, hdb.2.2.2⟩
  exact ⟨crashed, node, up, row, row', hrun, hafter, hup, hweb, (hadopts _ _ _ _ hweb halive).1,
    hdb, hends _ _ _ _ hdb hdead, hswept hclean⟩

end Cirrocumulus.Node
