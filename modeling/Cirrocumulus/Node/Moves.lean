/-
# The steps of a Node, taken apart

For each kind of step of the system, what it can have been and what it did. The
invariants are proved from these.
-/

import Cirrocumulus.Node.Effects
import Cirrocumulus.Node.System
import Cirrocumulus.Node.Ownership

namespace Cirrocumulus.Node

open Option
open Std (ExtTreeMap)

/-- Which request a launch comes from: a start has the log that the request drew, and a wake
that of the parked VM. -/
inductive Launch.From (launch : Launch) : NodeEvent → Prop
  | start {run log replaced} (hname : launch.name = run.name) (hlog : launch.log = log)
      (hkind : launch.kind = .start replaced) : Launch.From launch (.runVm run log)
  | wake {name parked} (hlog : launch.log = parked.log)
      (hkind : launch.kind = .wake parked) : Launch.From launch (.wakeVm name)

namespace AgentProcess

variable {up : AgentProcess} {host : Host} {next : System} {task : Nat} {outcome : Outcome}
  {now : Nat} {subnet : Subnet}

/-- What the next effect of a launch is. -/
inductive LaunchMove (up : AgentProcess) (host : Host) (task : Nat) (outcome : Outcome) (now : Nat)
    (launch : Launch) (pc : LaunchPc) (vm : Vm) : System → Prop
  | handOver {startedAt agent} (hpc : pc = .handOver startedAt)
      (hunlocked : up.unlocked) (hagent : up.agent.launched task startedAt = some agent) :
      LaunchMove up host task outcome now launch pc vm
        ⟨host, some { up with
          agent
          launching := up.launching.erase task
          supervising := up.supervising.insert up.agent.nextTask (.watch, vm) }⟩
  | giveUp {agent} (hpc : pc = .giveUp) (hunlocked : up.unlocked)
      (hend : LaunchEnded up.agent task agent launch launch.setAside) :
      LaunchMove up host task outcome now launch pc vm (up.endLaunch host task agent)
  | lose {ended agent parked} (hpc : pc = .lose ended) (hunlocked : up.unlocked)
      (hkind : launch.kind = .wake parked) (hend : LaunchEnded up.agent task agent launch
        (some ⟨endedInfo parked.info ended, parked.log⟩)) :
      LaunchMove up host task outcome now launch pc vm (up.endLaunch host task agent)
  | effect {pc' vm' view'} (hstep : launch.step host.nextProcess outcome now pc vm
        (host.view launch.name launch.vmAddress) = some (pc', vm', view')) :
      LaunchMove up host task outcome now launch pc vm
        ⟨host.put launch.name launch.vmAddress view',
          some { up with launching := up.launching.insert task (pc', vm') }⟩

theorem launch_eq_some (h : up.launch host task outcome now = some next) :
    ∃ launch pc vm, up.agent.launches[task]? = some launch ∧
      up.launching[task]? = some (pc, vm) ∧
      LaunchMove up host task outcome now launch pc vm next := by
  unfold AgentProcess.launch at h
  split at h
  · rename_i launch pc vm hlaunch hpc
    refine ⟨launch, pc, vm, hlaunch, hpc, ?_⟩
    split at h
    · split at h
      · rename_i hunlocked
        obtain ⟨agent, hagent, rfl⟩ := map_eq_some_iff.mp h
        exact .handOver rfl hunlocked hagent
      · cases h
    · split at h
      · rename_i hunlocked
        split at h
        · obtain ⟨agent, hagent, rfl⟩ := map_eq_some_iff.mp h
          obtain ⟨found, hend⟩ := startFailed_eq_some hagent
          cases hlaunch.symm.trans hend.launch_eq
          exact .giveUp rfl hunlocked hend
        · obtain ⟨agent, hagent, rfl⟩ := map_eq_some_iff.mp h
          obtain ⟨found, hend⟩ := wakeFailed_eq_some hagent
          cases hlaunch.symm.trans hend.launch_eq
          exact .giveUp rfl hunlocked hend
      · cases h
    · split at h
      · rename_i hunlocked
        obtain ⟨agent, hagent, rfl⟩ := map_eq_some_iff.mp h
        obtain ⟨found, parked, hkind, hend⟩ := wakeLost_eq_some hagent
        cases hlaunch.symm.trans hend.launch_eq
        exact .lose rfl hunlocked hkind hend
      · cases h
    · obtain ⟨⟨pc', vm', view'⟩, hstep, rfl⟩ := map_eq_some_iff.mp h
      exact .effect hstep
  · cases h

/-- What the next effect of a supervisor is. -/
inductive SuperviseMove (up : AgentProcess) (host : Host) (task : Nat) (outcome : Outcome)
    (reason : EndReason) (now : Nat) (name : Str) (pc : SupervisePc) (vm : Vm) : System → Prop
  | record {why agent} (hpc : pc = .record why)
      (hunlocked : up.unlocked) (hagent : up.agent.vmEnded task ⟨now, why⟩ = some agent) :
      SuperviseMove up host task outcome reason now name pc vm
        ⟨{ host with rows :=
            if outcome = .ok then host.rows.markEnded name ⟨now, why⟩ else host.rows },
          some { up with agent, supervising := up.supervising.erase task }⟩
  | effect {pc' vm' view'} (hstep : vm.supervise outcome reason pc (host.view name vm.vmAddress) =
        some (pc', vm', view')) :
      SuperviseMove up host task outcome reason now name pc vm
        ⟨host.put name vm.vmAddress view',
          some { up with supervising := up.supervising.insert task (pc', vm') }⟩

theorem supervise_eq_some {reason} (h : up.supervise host task outcome reason now = some next) :
    ∃ name pc vm, up.agent.supervisors[task]? = some name ∧
      up.supervising[task]? = some (pc, vm) ∧
      SuperviseMove up host task outcome reason now name pc vm next := by
  unfold supervise at h
  split at h
  · rename_i name pc vm hsup hpc
    refine ⟨name, pc, vm, hsup, hpc, ?_⟩
    split at h
    · dsimp only at h
      split at h
      · rename_i hunlocked
        obtain ⟨agent, hagent, rfl⟩ := map_eq_some_iff.mp h
        exact .record rfl hunlocked hagent
      · cases h
    · obtain ⟨⟨pc', vm', view'⟩, hstep, rfl⟩ := map_eq_some_iff.mp h
      exact .effect hstep
  · cases h

theorem isReady_iff : up.isReady ↔ up.boot = .ready := by
  unfold isReady
  cases up.boot <;> simp

theorem unlocked_iff : up.unlocked ↔ up.removing = none := by
  simp [unlocked]

/-- A launch begins on an agent that is ready, with its name reserved. -/
inductive BeginMove (subnet : Subnet) (up : AgentProcess) (host : Host) (launch : Launch) :
    System → Prop
  | mk (hready : up.boot = .ready) (hunlocked : up.removing = none)
      (hreserves : up.agent.MayReserve subnet launch) :
      BeginMove subnet up host launch ⟨host, some { up with
        agent := up.agent.reserve launch
        launching := up.launching.insert up.agent.nextTask
          (.addNetns, .empty launch.vmAddress) }⟩

theorem beginLaunch_reserve {launch}
    (h : up.beginLaunch host (up.agent.reserve launch) = some next) :
    next = ⟨host, some { up with
      agent := up.agent.reserve launch
      launching := up.launching.insert up.agent.nextTask
        (.addNetns, .empty launch.vmAddress) }⟩ := by
  simp only [beginLaunch, Agent.reserve, Agent.spawnLaunch, Lib.lookup_insert, if_true, map_some,
    Option.some.injEq] at h
  exact h.symm

theorem runVm_eq_some {run log} (h : up.runVm host subnet run log = some next) :
    ∃ launch : Launch, launch.From (.runVm run log) ∧ BeginMove subnet up host launch next := by
  unfold runVm at h
  split at h
  · rename_i hready
    rw [Bool.and_eq_true, isReady_iff] at hready
    obtain ⟨agent, hagent, h⟩ := bind_eq_some_iff.mp h
    obtain ⟨reserved, hspec, rfl⟩ := runVm_eq_ok (toOption_eq_some hagent)
    rw [beginLaunch_reserve h]
    exact ⟨_, .start rfl rfl rfl, .mk hready.1 (unlocked_iff.mp hready.2) hspec.reserves⟩
  · cases h

theorem wakeVm_eq_some {name} (h : up.wakeVm host subnet name = some next) :
    ∃ launch : Launch, launch.From (.wakeVm name) ∧ BeginMove subnet up host launch next := by
  unfold wakeVm at h
  split at h
  · rename_i hready
    rw [Bool.and_eq_true, isReady_iff] at hready
    obtain ⟨agent, hagent, h⟩ := bind_eq_some_iff.mp h
    obtain ⟨reserved, hspec, rfl⟩ := wakeVm_eq_ok (toOption_eq_some hagent)
    rw [beginLaunch_reserve h]
    exact ⟨_, .wake rfl rfl, .mk hready.1 (unlocked_iff.mp hready.2) hspec.reserves⟩
  · cases h

/-- What the next effect of `remove` is. -/
inductive RemoveMove (up : AgentProcess) (host : Host) (outcome : Outcome) : System → Prop
  | snapshot {name info log} (hremoving : up.removing = some (name, .snapshot))
      (hentry : up.agent.vms[name]? = some (.ended info log)) (hparked : isParked info) :
      RemoveMove up host outcome ⟨host.removeSnapshot name outcome, some { up with
        removing := if outcome = .ok then some (name, .delete) else none }⟩
  | noSnapshot {name info log} (hremoving : up.removing = some (name, .snapshot))
      (hentry : up.agent.vms[name]? = some (.ended info log)) (hparked : isParked info = false) :
      RemoveMove up host outcome ⟨host, some { up with removing := some (name, .delete) }⟩
  | delete {name} (hremoving : up.removing = some (name, .delete)) (hok : outcome = .ok) :
      RemoveMove up host outcome ⟨{ host with rows := host.rows.delete name },
        some { up with removing := some (name, .erase) }⟩
  | refused {name} (hremoving : up.removing = some (name, .delete)) (hfailed : outcome ≠ .ok) :
      RemoveMove up host outcome ⟨host, some { up with removing := none }⟩
  | erase {name info log} (hremoving : up.removing = some (name, .erase))
      (hentry : up.agent.vms[name]? = some (.ended info log)) :
      RemoveMove up host outcome ⟨host, some { up with
        agent := { up.agent with vms := up.agent.vms.erase name }
        removing := none }⟩

theorem removeStep_eq_some (h : up.removeStep host outcome = some next) :
    RemoveMove up host outcome next := by
  unfold removeStep at h
  split at h
  · rename_i name hremoving
    split at h
    · rename_i info log hentry
      split at h
      · rename_i hparked
        cases h
        exact .snapshot hremoving hentry hparked
      · rename_i hparked
        cases h
        exact .noSnapshot hremoving hentry (by simpa using hparked)
    · cases h
  · rename_i name hremoving
    split at h
    · rename_i hok
      cases h
      exact .delete hremoving hok
    · rename_i hfailed
      cases h
      exact .refused hremoving hfailed
  · rename_i name hremoving
    obtain ⟨agent, hagent, rfl⟩ := map_eq_some_iff.mp h
    obtain ⟨⟨info, log, hentry⟩, rfl⟩ := remove_eq_ok (toOption_eq_some hagent)
    exact .erase hremoving hentry
  · cases h

/-- What the next effect of the agent's start is. -/
inductive BootMove (subnet : Subnet) (up : AgentProcess) (host : Host) (outcome : Outcome)
    (now : Nat) : System → Prop
  | keepSnapshot {dir dirs records} (hboot : up.boot = .snapshots (dir :: dirs) records)
      (howned : ∃ record ∈ records, isParked record.info ∧ record.info.name = dir) :
      BootMove subnet up host outcome now
        ⟨host, some { up with boot := .snapshots dirs records }⟩
  | dropSnapshot {dir dirs records} (hboot : up.boot = .snapshots (dir :: dirs) records)
      (hunowned : ∀ record ∈ records, isParked record.info → record.info.name ≠ dir) :
      BootMove subnet up host outcome now
        ⟨host.removeSnapshot dir outcome, some { up with boot := .snapshots dirs records }⟩
  | snapshotsDone {records} (hboot : up.boot = .snapshots [] records) :
      BootMove subnet up host outcome now ⟨host, some { up with boot := .records records }⟩
  | ended {record todo} (hboot : up.boot = .records (record :: todo))
      (hended : record.info.ended.isSome) :
      BootMove subnet up host outcome now ⟨host, some { up with
        agent := up.agent.restoreEnded record.info record.log
        boot := .records todo }⟩
  | alive {record todo vmAddress process}
      (hboot : up.boot = .records (record :: todo)) (hended : record.info.ended = none)
      (haddress : record.info.vmAddress = some vmAddress) (hprocess : record.process = some process)
      (halive : host.isRunning vmAddress process) :
      BootMove subnet up host outcome now ⟨host, some { up with
        agent := up.agent.adopt record.info record.log
        supervising := up.supervising.insert up.agent.nextTask (.watch, .adopt vmAddress process)
        boot := .records todo }⟩
  | gone {record todo vmAddress process}
      (hboot : up.boot = .records (record :: todo)) (hended : record.info.ended = none)
      (haddress : record.info.vmAddress = some vmAddress) (hprocess : record.process = some process)
      (hdead : host.isRunning vmAddress process = false) (hok : outcome = .ok) :
      BootMove subnet up host outcome now
        ⟨{ host with rows := host.rows.markEnded record.info.name ⟨now, .agentDown⟩ },
          some { up with
            agent := up.agent.restoreEnded (endedInfo record.info ⟨now, .agentDown⟩) record.log
            boot := .records todo }⟩
  | unmarked {record todo} (hboot : up.boot = .records (record :: todo)) (hfailed : outcome ≠ .ok) :
      BootMove subnet up host outcome now ⟨host, none⟩
  | refused {record todo}
      (hboot : up.boot = .records (record :: todo)) (hended : record.info.ended = none)
      (hnowhere : record.info.vmAddress = none ∨ record.process = none) :
      BootMove subnet up host outcome now ⟨host, none⟩
  | recordsDone (hboot : up.boot = .records []) :
      BootMove subnet up host outcome now
        ⟨host, some { up with boot := .sweep (host.unheld subnet up.agent.vms) }⟩
  | killAll {vmAddress todo} (hboot : up.boot = .sweep (vmAddress :: todo)) :
      BootMove subnet up host outcome now
        ⟨if outcome = .ok then
            host.setObjects vmAddress (host.objectsAt (hostId vmAddress)).killAll
          else host,
          some { up with boot := .clean vmAddress undoSteps todo }⟩
  | undo {vmAddress step steps todo} (hboot : up.boot = .clean vmAddress (step :: steps) todo) :
      BootMove subnet up host outcome now
        ⟨if outcome = .ok then
            host.setObjects vmAddress ((host.objectsAt (hostId vmAddress)).undo step)
          else host,
          some { up with boot := .clean vmAddress steps todo }⟩
  | cleaned {vmAddress todo} (hboot : up.boot = .clean vmAddress [] todo) :
      BootMove subnet up host outcome now ⟨host, some { up with boot := .sweep todo }⟩

theorem bootMove_of_restore {record todo} (hboot : up.boot = .records (record :: todo)) :
    BootMove subnet up host outcome now (up.restore host record todo outcome now) := by
  unfold restore Record.verdict
  by_cases hended : record.info.ended.isSome
  · rw [if_pos hended]
    exact .ended hboot hended
  · have hnone : record.info.ended = none := by simpa using hended
    rw [if_neg hended]
    cases haddress : record.info.vmAddress with
    | none => exact .refused hboot hnone (.inl haddress)
    | some vmAddress =>
      cases hprocess : record.process with
      | none => exact .refused hboot hnone (.inr hprocess)
      | some process =>
        dsimp only
        by_cases halive : host.isRunning vmAddress process
        · rw [if_pos halive]
          exact .alive hboot hnone haddress hprocess halive
        · rw [if_neg halive]
          dsimp only
          split
          · rename_i hok
            exact .gone hboot hnone haddress hprocess (by simpa using halive) hok
          · rename_i hfailed
            exact .unmarked hboot hfailed

theorem bootStep_eq_some (h : up.bootStep host subnet outcome now = some next) :
    BootMove subnet up host outcome now next := by
  unfold bootStep at h
  split at h
  · rename_i dir dirs records hboot
    dsimp only at h
    by_cases howned : (records.any fun record =>
        isParked record.info && record.info.name == dir)
    · rw [if_pos howned] at h
      cases h
      refine .keepSnapshot hboot ?_
      obtain ⟨record, hrecord, hmatch⟩ := List.any_eq_true.mp howned
      simp only [Bool.and_eq_true, beq_iff_eq] at hmatch
      exact ⟨record, hrecord, hmatch⟩
    · rw [if_neg howned] at h
      cases h
      refine .dropSnapshot hboot ?_
      intro record hrecord hparked hname
      exact howned (List.any_eq_true.mpr ⟨record, hrecord, by simp [hparked, hname]⟩)
  · rename_i records hboot
    cases h
    exact .snapshotsDone hboot
  · rename_i record todo hboot
    cases h
    exact bootMove_of_restore hboot
  · rename_i hboot
    cases h
    exact .recordsDone hboot
  · rename_i vmAddress todo hboot
    cases h
    exact .killAll hboot
  · rename_i vmAddress step steps todo hboot
    cases h
    exact .undo hboot
  · rename_i vmAddress todo hboot
    cases h
    exact .cleaned hboot
  · cases h
  · cases h

/-- What a step of an agent can be. -/
inductive Move (subnet : Subnet) (up : AgentProcess) (host : Host) : NodeEvent → System → Prop
  | starts {outcome : Outcome} {now next} (hmove : up.BootMove subnet host outcome now next) :
      Move subnet up host (.bootStep outcome now) next
  | opens {machines} (hboot : up.boot = .sweep []) :
      Move subnet up host (.openSocket machines)
        ⟨host, some { up with agent := { up.agent with machines }, boot := .ready }⟩
  | begins {event launch next} (hfrom : launch.From event)
      (hmove : up.BeginMove subnet host launch next) : Move subnet up host event next
  | asked {task stop pc pc' vm} (hready : up.boot = .ready)
      (hpc : up.supervising[task]? = some (pc, vm)) (htake : pc.take stop = some pc') :
      Move subnet up host (.stop task stop)
        ⟨host, some { up with supervising := up.supervising.insert task (pc', vm) }⟩
  | removing {name info log} (hready : up.boot = .ready)
      (hunlocked : up.removing = none) (hentry : up.agent.vms[name]? = some (.ended info log)) :
      Move subnet up host (.remove name)
        ⟨host, some { up with removing := some (name, .snapshot) }⟩
  | removes {outcome : Outcome} {next} (hmove : up.RemoveMove host outcome next) :
      Move subnet up host (.removeStep outcome) next
  | onMachines {event agent} (hready : up.boot = .ready)
      (hsame : SameTasks up.agent agent) (hdown : agent.shuttingDown = up.agent.shuttingDown) :
      Move subnet up host (.onMachines event) ⟨host, some { up with agent }⟩
  | sigterm (hready : up.boot = .ready) :
      Move subnet up host .sigterm ⟨host, some { up with agent := up.agent.shutdown }⟩
  /-- The process exits only when no entry is Starting. -/
  | exits (hdown : up.agent.shuttingDown)
      (hstarting : ∀ (name : Str) (vmAddress : Ipv4Addr) (log : Str) (route : Option Route),
        up.agent.vms[name]? ≠ some (.starting vmAddress log route)) :
      Move subnet up host .exit ⟨host, none⟩
  | launches {task now outcome launch pc vm next} (hlaunch : up.agent.launches[task]? = some launch)
      (hpc : up.launching[task]? = some (pc, vm))
      (hmove : up.LaunchMove host task outcome now launch pc vm next) :
      Move subnet up host (.launch task outcome now) next
  | supervises {task now outcome reason name pc vm next}
      (hsup : up.agent.supervisors[task]? = some name) (hpc : up.supervising[task]? = some (pc, vm))
      (hmove : up.SuperviseMove host task outcome reason now name pc vm next) :
      Move subnet up host (.supervise task outcome reason now) next
  | crashes : Move subnet up host .crash ⟨host, none⟩

theorem move_of_step {event} (h : up.step subnet host event = some next) :
    up.Move subnet host event next := by
  cases event with
  | boot | vmmEnds => cases h
  | bootStep outcome now => exact .starts (bootStep_eq_some h)
  | openSocket machines =>
    simp only [step, openSocket] at h
    split at h
    · rename_i hboot
      cases h
      exact .opens hboot
    · cases h
  | runVm run log =>
    obtain ⟨launch, hfrom, hmove⟩ := runVm_eq_some h
    exact .begins hfrom hmove
  | wakeVm name =>
    obtain ⟨launch, hfrom, hmove⟩ := wakeVm_eq_some h
    exact .begins hfrom hmove
  | stop task stop =>
    obtain ⟨hready, h⟩ := ite_none_right_eq_some.mp h
    obtain ⟨⟨pc, vm⟩, hpc, h⟩ := bind_eq_some_iff.mp h
    obtain ⟨pc', htake, rfl⟩ := map_eq_some_iff.mp h
    exact .asked (isReady_iff.mp hready) hpc htake
  | remove name =>
    obtain ⟨hready, h⟩ := ite_none_right_eq_some.mp h
    rw [Bool.and_eq_true, isReady_iff] at hready
    split at h
    · rename_i info log hentry
      cases h
      exact .removing hready.1 (unlocked_iff.mp hready.2) hentry
    · cases h
  | removeStep outcome => exact .removes (removeStep_eq_some h)
  | onMachines event =>
    obtain ⟨hready, h⟩ := ite_none_right_eq_some.mp h
    simp only [Bool.and_eq_true, isReady_iff] at hready
    obtain ⟨agent, hagent, rfl⟩ := map_eq_some_iff.mp h
    obtain ⟨hsame, hdown⟩ := sameTasks_of_onMachines hready.1.2 hagent
    exact .onMachines hready.1.1 hsame hdown
  | sigterm =>
    obtain ⟨hready, rfl⟩ := ite_some_none_eq_some.mp h
    exact .sigterm (isReady_iff.mp hready)
  | exit =>
    obtain ⟨hcond, rfl⟩ := ite_some_none_eq_some.mp h
    simp only [Bool.and_eq_true, Bool.not_eq_true', List.any_eq_false] at hcond
    refine .exits hcond.1 fun name vmAddress log route hentry => ?_
    exact hcond.2 (name, .starting vmAddress log route)
      (Lib.mem_items.mpr hentry) rfl
  | launch task outcome now =>
    obtain ⟨launch, pc, vm, hlaunch, hpc, hmove⟩ := launch_eq_some h
    exact .launches hlaunch hpc hmove
  | supervise task outcome reason now =>
    obtain ⟨name, pc, vm, hsup, hpc, hmove⟩ := supervise_eq_some h
    exact .supervises hsup hpc hmove
  | crash =>
    cases h
    exact .crashes

end AgentProcess

/-- A step is an agent's, unless a VMM ends or an agent starts. -/
theorem System.step_eq_some {subnet} {node next : System} {event}
    (h : node.step subnet event = some next) :
    (∃ vmAddress process, event = .vmmEnds vmAddress process ∧
      next = ⟨node.host.setObjects vmAddress
        ((node.host.objectsAt (hostId vmAddress)).kill (some process)), node.up⟩) ∨
    (event = .boot ∧ node.up = none ∧ next = ⟨node.host, some (.start node.host)⟩) ∨
    ∃ up, node.up = some up ∧ up.Move subnet node.host event next := by
  unfold step at h
  split at h
  · rename_i vmAddress process
    split at h
    · cases h
      exact .inl ⟨vmAddress, process, rfl, rfl⟩
    · cases h
  · split at h
    · rename_i hup
      cases h
      exact .inr (.inl ⟨rfl, by simpa using hup, rfl⟩)
    · cases h
  · obtain ⟨up, hup, h⟩ := bind_eq_some_iff.mp h
    exact .inr (.inr ⟨up, hup, AgentProcess.move_of_step h⟩)

theorem System.boot_eq_some {subnet} {node next : System} (h : node.step subnet .boot = some next) :
    node.up = none ∧ next = ⟨node.host, some (.start node.host)⟩ := by
  obtain ⟨hup, rfl⟩ := ite_some_none_eq_some.mp h
  exact ⟨by simpa using hup, rfl⟩

end Cirrocumulus.Node
