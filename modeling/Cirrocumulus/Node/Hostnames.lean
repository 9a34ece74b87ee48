/-
# Hostnames

A hostname belongs to at most one App. It is checked once, when a start or a
Machine-backed App is given it. But a start that reuses an Ended VM's name sets the
old record aside with its route, nothing holds that route while the start runs, and
a start that fails brings it back. This module shows that this is the only way a
hostname comes to have two Apps.
-/

import Cirrocumulus.Node.Ownership

namespace Cirrocumulus.Node

open Lib Option

/-- An App of the Node, which has its name as a VM's or on a Machine. -/
inductive App
  | vm (name : Str)
  | onMachine (machine name : Str)
  deriving DecidableEq

/-- The App's route has the hostname. -/
def Agent.HasHost (agent : Agent) : App → Str → Prop
  | .vm name, host => Node.HasHost agent.vms name host
  | .onMachine machine name, host => agent.machines.HasHost machine name host

/-- No hostname occurs in the routes of two Apps. -/
def HostsUnique (agent : Agent) : Prop :=
  ∀ app other host, agent.HasHost app host → agent.HasHost other host → app = other

/-- A start in progress under `name` has set aside an Ended VM with the hostname. -/
def SetAside (agent : Agent) (name host : Str) : Prop :=
  ∃ (task : Nat) (launch : Launch) (old : Replaced) (route : Route),
    agent.launches[task]? = some launch ∧ launch.name = name ∧
      launch.kind = .start (some old) ∧ old.info.route = some route ∧ route.host = host

/-- The hostname is the App's, or comes back to it when a start fails. -/
def Agent.Reserves (agent : Agent) (app : App) (host : Str) : Prop :=
  agent.HasHost app host ∨ ∃ name, app = .vm name ∧ SetAside agent name host

/-- Nobody is given a hostname that a start under another name has set aside. -/
def HostNotSetAside (agent : Agent) : AgentEvent → Prop
  | .runVm run _ => ∀ route, run.route = some route →
      ∀ name, name ≠ run.name → ¬ SetAside agent name route.host
  | .runOnMachine request => ∀ name, ¬ SetAside agent name request.route.host
  | _ => True

/-- Hostnames are unique, those set aside counted. -/
structure HostsKept (agent : Agent) : Prop where
  owned : Owned agent
  unique : ∀ {app other host}, agent.Reserves app host → agent.Reserves other host → app = other
  wake_route : ∀ {task : Nat} {launch : Launch} {parked : Replaced},
    agent.launches[task]? = some launch → launch.kind = .wake parked →
      launch.route = parked.info.route

variable {agent next : Agent} {subnet : Subnet}

/-! ## Where a hostname can come from -/

/-- An update of one name's entry, to a route that the name already reserves, brings no
new hostname; nor does dropping tasks. -/
theorem reserves_of_update (name : Str) (route : Option Route)
    (hvms : ∀ other : Str, other ≠ name → next.vms[other]? = agent.vms[other]?)
    (hroute : ∀ entry : Entry, next.vms[name]? = some entry → entry.route = route)
    (hbefore : ∀ own : Route, route = some own → agent.Reserves (.vm name) own.host)
    (hmachines : next.machines = agent.machines)
    (hlaunches : ∀ (task : Nat) (launch : Launch), next.launches[task]? = some launch →
      agent.launches[task]? = some launch)
    {app host} (h : next.Reserves app host) : agent.Reserves app host := by
  rcases h with h | ⟨name, rfl, task, launch, old, own, hlaunch, rest⟩
  · cases app with
    | vm other =>
      obtain ⟨entry, own, hentry, hown, rfl⟩ := h
      by_cases heq : other = name
      · subst heq
        exact hbefore own ((hroute entry hentry).symm.trans hown)
      · rw [hvms other heq] at hentry
        exact .inl ⟨entry, own, hentry, hown, rfl⟩
    | onMachine machine other =>
      simp only [Agent.HasHost, hmachines] at h
      exact .inl h
  · exact .inr ⟨name, rfl, task, launch, old, own, hlaunches task launch hlaunch, rest⟩

theorem erase_launches_subset (task : Nat) (vms : Table) (other : Nat) (launch : Launch)
    (h : (agent.endLaunch task vms).launches[other]? = some launch) :
    agent.launches[other]? = some launch :=
  (of_lookup_erase h).2

/-- Machines that lose Apps bring no new hostname. -/
theorem reserves_of_machines (hsame : SameTasks agent next)
    (hmachines : ∀ {machine name host}, next.machines.HasHost machine name host →
      agent.machines.HasHost machine name host)
    {app host} (h : next.Reserves app host) : agent.Reserves app host := by
  obtain ⟨hvms, hlaunches, -, -⟩ := hsame
  rcases h with h | ⟨name, rfl, h⟩
  · cases app with
    | vm name =>
      simp only [Agent.HasHost, hvms] at h
      exact .inl h
    | onMachine machine name => exact .inl (hmachines h)
  · simp only [SetAside, hlaunches] at h
    exact .inr ⟨name, rfl, h⟩

/-- A Machine's Apps change to some of those it had. -/
theorem hasHost_of_insert_subset {machines : Machines} {machine apps fewer}
    (happs : machines[machine]? = some apps)
    (hsub : ∀ (name : Str) (route : Route), fewer[name]? = some route →
      apps[name]? = some route) {other name host}
    (h : Machines.HasHost (machines.insert machine fewer) other name host) :
    machines.HasHost other name host := by
  obtain ⟨found, route, hfound, hroute, hhost⟩ := h
  obtain ⟨heq, rfl⟩ | ⟨-, hfound⟩ := of_lookup_insert hfound
  · exact ⟨apps, route, heq ▸ happs, hsub name route hroute, hhost⟩
  · exact ⟨found, route, hfound, hroute, hhost⟩

section

variable {task : Nat} (h : HostsKept agent)
include h

theorem HostsKept.hostsUnique : HostsUnique agent :=
  fun _ _ _ happ hother => h.unique (.inl happ) (.inl hother)

/-- Uniqueness survives when an App gains only hostnames nobody else has. -/
theorem HostsKept.unique_of_gain (own : App) (gains : Str → Prop)
    (hgain : ∀ {app host}, next.Reserves app host →
      agent.Reserves app host ∨ app = own ∧ gains host)
    (hfree : ∀ {app host}, gains host → agent.Reserves app host → app = own) {app other host}
    (happ : next.Reserves app host) (hother : next.Reserves other host) : app = other := by
  rcases hgain happ with happ | ⟨rfl, hgains⟩
  · rcases hgain hother with hother | ⟨rfl, hgains⟩
    · exact h.unique happ hother
    · exact hfree hgains happ
  · rcases hgain hother with hother | ⟨rfl, -⟩
    · exact (hfree hgains hother).symm
    · rfl

/-- Uniqueness survives when no App gains a hostname. -/
theorem HostsKept.unique_of_subset
    (hsub : ∀ {app host}, next.Reserves app host → agent.Reserves app host) {app other host}
    (happ : next.Reserves app host) (hother : next.Reserves other host) : app = other :=
  h.unique (hsub happ) (hsub hother)

/-- What a launch leaves under its name had its hostname before: as the launch's own, or
set aside. -/
theorem HostsKept.reserves_left {launch left}
    (hlaunch : agent.launches[task]? = some launch) (hleft : LeavesBehind launch left) {old}
    (hold : left = some old) {own} (hown : old.info.route = some own) :
    agent.Reserves (.vm launch.name) own.host := by
  have hentry := h.owned.launch_entry hlaunch
  cases hleft with
  | setAside =>
    cases hkind : launch.kind with
    | start replaced =>
      simp only [Launch.setAside, hkind] at hold
      rw [hold] at hkind
      exact .inr ⟨launch.name, rfl, task, launch, old, own, hlaunch, rfl, hkind, hown, rfl⟩
    | wake parked =>
      simp only [Launch.setAside, hkind, Option.some.injEq] at hold
      subst hold
      have hroute := (h.wake_route hlaunch hkind).trans hown
      exact .inl ⟨_, own, hentry, hroute, rfl⟩
  | lost hkind ended =>
    cases hold
    have hroute := (h.wake_route hlaunch hkind).trans hown
    exact .inl ⟨_, own, hentry, hroute, rfl⟩

/-! ## Each step -/

theorem HostsKept.wake_route_of_subset
    (hlaunches : ∀ (task : Nat) (launch : Launch), next.launches[task]? = some launch →
      agent.launches[task]? = some launch) {launch parked}
    (hlaunch : next.launches[task]? = some launch) (hkind : launch.kind = .wake parked) :
    launch.route = parked.info.route :=
  h.wake_route (hlaunches task launch hlaunch) hkind

theorem HostsKept.runVm {run log} (hok : HostNotSetAside agent (.runVm run log))
    (hstep : agent.step subnet (.runVm run log) = some next) : HostsKept next := by
  obtain ⟨reserved, hspec, rfl⟩ := runVm_eq_ok (toOption_eq_some hstep)
  refine ⟨h.owned.of_step hstep, fun happ hother => ?_, ?_⟩
  · refine h.unique_of_gain (.vm run.name)
      (fun host => ∃ route, run.route = some route ∧ route.host = host) ?_ ?_ happ hother
    · rintro app host (hhost | ⟨name, rfl, task, launch, old, route, hlaunch, hname, hkind, hold,
        rfl⟩)
      · cases app with
        | vm name =>
          obtain ⟨entry, route, hentry, hroute, rfl⟩ := hhost
          obtain ⟨heq, rfl⟩ | ⟨-, hentry⟩ := of_lookup_insert hentry
          · exact .inr ⟨congrArg App.vm heq, route, hroute, rfl⟩
          · exact .inl (.inl ⟨entry, route, hentry, hroute, rfl⟩)
        | onMachine machine name => exact .inl (.inl hhost)
      · obtain ⟨-, rfl⟩ | ⟨-, hlaunch⟩ := of_lookup_insert hlaunch
        · -- The record set aside was in the table until now.
          subst hname
          have hentry := hspec.reserves.entry
          rw [Launch.setAside, hkind] at hentry
          exact .inl (.inl ⟨_, route, hentry, hold, rfl⟩)
        · exact .inl (.inr ⟨name, rfl, task, launch, old, route, hlaunch, hname, hkind, hold, rfl⟩)
    · rintro app host ⟨route, hroute, rfl⟩ (hhost | ⟨name, rfl, haside⟩)
      · cases app with
        | vm name =>
          cases howner : appWithHost agent.vms route.host with
          | none => exact absurd hhost (not_hasHost_of_appWithHost howner name)
          | some owner =>
            have hown := hspec.own_host route owner hroute howner
            have hfound : agent.HasHost (.vm owner) route.host := hasHost_of_appWithHost howner
            rw [h.unique (.inl hhost) (.inl hfound), hown]
        | onMachine machine name =>
          exact absurd hhost (Machines.not_hasHost_of_appWithHost
            (hspec.not_machineHost route hroute) machine name)
      · by_cases heq : name = run.name
        · rw [heq]
        · exact absurd haside (hok route hroute name heq)
  · intro task launch parked hlaunch hkind
    obtain ⟨-, rfl⟩ | ⟨-, hlaunch⟩ := of_lookup_insert hlaunch
    · cases hkind
    · exact h.wake_route hlaunch hkind

theorem HostsKept.wakeVm {name isDir}
    (hstep : agent.step subnet (.wakeVm name isDir) = some next) : HostsKept next := by
  obtain ⟨reserved, hspec, rfl⟩ := wakeVm_eq_ok (toOption_eq_some hstep)
  refine ⟨h.owned.of_step hstep, h.unique_of_subset ?_, ?_⟩
  · rintro app host (hhost | ⟨other, rfl, task, launch, old, route, hlaunch, hname, hkind, rest⟩)
    · cases app with
      | vm other =>
        obtain ⟨entry, route, hentry, hroute, rfl⟩ := hhost
        obtain ⟨heq, rfl⟩ | ⟨-, hentry⟩ := of_lookup_insert hentry
        · subst heq
          exact .inl ⟨_, route, hspec.reserves.entry, hroute, rfl⟩
        · exact .inl ⟨entry, route, hentry, hroute, rfl⟩
      | onMachine machine other => exact .inl hhost
    · obtain ⟨-, rfl⟩ | ⟨-, hlaunch⟩ := of_lookup_insert hlaunch
      · cases hkind
      · exact .inr ⟨other, rfl, task, launch, old, route, hlaunch, hname, hkind, rest⟩
  · intro task launch parked hlaunch hkind
    obtain ⟨-, rfl⟩ | ⟨-, hlaunch⟩ := of_lookup_insert hlaunch
    · cases hkind
      rfl
    · exact h.wake_route hlaunch hkind

theorem HostsKept.launchEnded (howned : Owned next) {launch left}
    (hend : LaunchEnded agent task next launch left) : HostsKept next := by
  have hlaunches : ∀ (other : Nat) (launch : Launch), next.launches[other]? = some launch →
      agent.launches[other]? = some launch := by
    rw [hend.next_eq]
    exact erase_launches_subset task _
  refine ⟨howned, h.unique_of_subset ?_, h.wake_route_of_subset hlaunches⟩
  refine reserves_of_update launch.name (left.bind fun old => old.info.route) ?_ ?_ ?_ ?_ hlaunches
  · intro other hne
    rw [hend.vms_eq, if_neg hne]
  · intro entry hentry
    rw [hend.vms_eq, if_pos rfl] at hentry
    obtain ⟨old, rfl, rfl⟩ := map_eq_some_iff.mp hentry
    rfl
  · intro own hown
    obtain ⟨old, hold, hroute⟩ := bind_eq_some_iff.mp hown
    exact h.reserves_left hend.launch_eq hend.leaves hold hroute
  · rw [hend.next_eq]
    rfl

theorem HostsKept.launched {startedAt : Nat}
    (hstep : agent.step subnet (.launched task startedAt) = some next) : HostsKept next := by
  obtain ⟨launch, hlaunch, rfl⟩ := launched_eq_some hstep
  have hlaunches := @erase_launches_subset agent task (agent.vms.erase launch.name)
  refine ⟨h.owned.of_step hstep, h.unique_of_subset ?_, h.wake_route_of_subset hlaunches⟩
  refine reserves_of_update launch.name launch.route ?_ ?_ ?_ ?_ ?_
  · intro other hne
    rw [lookup_launched, if_neg hne]
  · intro entry hentry
    rw [lookup_launched, if_pos rfl] at hentry
    cases hentry
    rfl
  · intro own hown
    exact .inl ⟨_, own, h.owned.launch_entry hlaunch, hown, rfl⟩
  · rfl
  · exact hlaunches

theorem HostsKept.vmEnded {ended}
    (hstep : agent.step subnet (.vmEnded task ended) = some next) : HostsKept next := by
  obtain ⟨name, hsup, rfl⟩ := vmEnded_eq_some hstep
  obtain ⟨info, log, hentry, -⟩ := h.owned.supervisor_entry hsup
  refine ⟨h.owned.of_step hstep, h.unique_of_subset ?_, h.wake_route⟩
  refine reserves_of_update name info.route ?_ ?_ ?_ ?_ ?_
  · intro other hne
    simp only [lookup_recordEnd hentry, if_neg hne]
  · intro entry hnew
    simp only [lookup_recordEnd hentry, if_true, Option.some.injEq] at hnew
    subst hnew
    rfl
  · intro own hown
    exact .inl ⟨_, own, hentry, hown, rfl⟩
  · rfl
  · exact fun _ _ hlaunch => hlaunch

theorem HostsKept.removed {name}
    (hstep : agent.step subnet (.remove name) = some next) : HostsKept next := by
  obtain ⟨-, rfl⟩ := remove_eq_ok (toOption_eq_some hstep)
  refine ⟨h.owned.of_step hstep, h.unique_of_subset ?_, h.wake_route⟩
  refine reserves_of_update name none ?_ ?_ ?_ ?_ ?_
  · intro other hne
    simp only [lookup_erase, if_neg hne]
  · intro entry hentry
    simp only [lookup_erase, if_true] at hentry
    cases hentry
  · intro own hown
    cases hown
  · rfl
  · exact fun _ _ hlaunch => hlaunch

omit h in
/-- What `run_on_machine` saw under the locks when it made the App. -/
theorem runOnMachine_eq_ok {request} (h : agent.runOnMachine request = .ok next) :
    ∃ apps, appWithHost agent.vms request.route.host = none ∧
      agent.machines.appWithHost request.route.host = none ∧
      agent.machines[request.machine]? = some apps ∧
      next = { agent with machines :=
        agent.machines.insert request.machine (apps.insert request.name request.route) } := by
  obtain ⟨_, -, h⟩ := except_bind_eq_ok.mp h
  obtain ⟨machines, hmachines, h⟩ := except_bind_eq_ok.mp h
  cases h
  obtain ⟨_, -, hmachines⟩ := except_bind_eq_ok.mp hmachines
  obtain ⟨_, hvm, hmachines⟩ := except_bind_eq_ok.mp hmachines
  obtain ⟨_, -, hmachines⟩ := except_bind_eq_ok.mp hmachines
  obtain ⟨_, hmachine, hmachines⟩ := except_bind_eq_ok.mp hmachines
  obtain ⟨apps, happs, hmachines⟩ := except_bind_eq_ok.mp hmachines
  cases hmachines
  refine ⟨apps, vmHostFree_eq_ok hvm, machineHostFree_eq_ok hmachine rfl, ?_, rfl⟩
  unfold Machines.apps at happs
  split at happs
  · cases happs
  · rename_i found hfound
    cases happs
    exact hfound

theorem HostsKept.runOnMachine {request} (hok : HostNotSetAside agent (.runOnMachine request))
    (hstep : agent.step subnet (.runOnMachine request) = some next) : HostsKept next := by
  obtain ⟨apps, hvm, hmachine, happs, rfl⟩ := runOnMachine_eq_ok (toOption_eq_some hstep)
  refine ⟨h.owned.of_step hstep, fun happ hother => ?_, h.wake_route⟩
  refine h.unique_of_gain (.onMachine request.machine request.name)
    (fun host => request.route.host = host) ?_ ?_ happ hother
  · rintro app host (hhost | haside)
    · cases app with
      | vm name => exact .inl (.inl hhost)
      | onMachine machine name =>
        obtain ⟨found, route, hfound, hroute, hhost⟩ := hhost
        obtain ⟨heq, rfl⟩ | ⟨-, hfound⟩ := of_lookup_insert hfound
        · obtain ⟨hname, rfl⟩ | ⟨-, hroute⟩ := of_lookup_insert hroute
          · exact .inr ⟨by rw [heq, hname], hhost⟩
          · exact .inl (.inl ⟨apps, route, by rw [heq, happs], hroute, hhost⟩)
        · exact .inl (.inl ⟨found, route, hfound, hroute, hhost⟩)
    · exact .inl (.inr haside)
  · rintro app host rfl (hhost | ⟨name, rfl, haside⟩)
    · cases app with
      | vm name => exact absurd hhost (not_hasHost_of_appWithHost hvm name)
      | onMachine machine name =>
        exact absurd hhost (Machines.not_hasHost_of_appWithHost hmachine machine name)
    · exact absurd haside (hok name)

/-- A step that only takes Apps off Machines. -/
theorem HostsKept.of_machines (howned : Owned next) (hsame : SameTasks agent next)
    (hmachines : ∀ {machine name host : Str}, next.machines.HasHost machine name host →
      agent.machines.HasHost machine name host) : HostsKept next := by
  refine ⟨howned, h.unique_of_subset (reserves_of_machines hsame hmachines), ?_⟩
  rw [hsame.2.1]
  exact h.wake_route

theorem HostsKept.removeApp {name : Str}
    (hstep : agent.step subnet (.removeApp name) = some next) : HostsKept next := by
  obtain ⟨machines, hmachines, rfl⟩ := map_eq_some_iff.mp hstep
  obtain ⟨found, hfind, rfl⟩ := map_eq_some_iff.mp hmachines
  refine h.of_machines (h.owned.of_step hstep) ⟨rfl, rfl, rfl, rfl⟩ ?_
  apply hasHost_of_insert_subset (lookup_of_find? hfind).1
  intro other route hroute
  exact (of_lookup_erase hroute).2

theorem HostsKept.addMachine {machine}
    (hstep : agent.step subnet (.addMachine machine) = some next) : HostsKept next := by
  have howned := h.owned.of_step hstep
  simp only [Agent.step, Agent.addMachine] at hstep
  split at hstep
  · cases hstep
  · cases hstep
    refine h.of_machines howned ⟨rfl, rfl, rfl, rfl⟩ ?_
    rintro other name host ⟨found, route, hfound, hroute, hhost⟩
    obtain ⟨-, rfl⟩ | ⟨-, hfound⟩ := of_lookup_insert hfound
    · simp at hroute
    · exact ⟨found, route, hfound, hroute, hhost⟩

theorem HostsKept.removeMachine {machine}
    (hstep : agent.step subnet (.removeMachine machine) = some next) : HostsKept next := by
  have howned := h.owned.of_step hstep
  simp only [Agent.step, Agent.removeMachine] at hstep
  split at hstep
  · split at hstep
    · cases hstep
      refine h.of_machines howned ⟨rfl, rfl, rfl, rfl⟩ ?_
      rintro other name host ⟨found, route, hfound, hroute, hhost⟩
      exact ⟨found, route, (of_lookup_erase hfound).2, hroute, hhost⟩
    · cases hstep
  · cases hstep

theorem HostsKept.step {event} (hok : HostNotSetAside agent event)
    (hstep : agent.step subnet event = some next) : HostsKept next := by
  have howned : Owned next := h.owned.of_step hstep
  cases event with
  | runVm run log => exact h.runVm hok hstep
  | wakeVm name isDir => exact h.wakeVm hstep
  | stopVm | parkVm =>
    simp only [Agent.step] at hstep
    split at hstep
    · cases hstep
      exact h
    · cases hstep
  | startFailed task =>
    obtain ⟨launch, hend⟩ := startFailed_eq_some hstep
    exact h.launchEnded howned hend
  | wakeFailed task =>
    obtain ⟨launch, hend⟩ := wakeFailed_eq_some hstep
    exact h.launchEnded howned hend
  | wakeLost task time =>
    obtain ⟨launch, parked, -, hend⟩ := wakeLost_eq_some hstep
    exact h.launchEnded howned hend
  | launched task startedAt => exact h.launched hstep
  | vmEnded task ended => exact h.vmEnded hstep
  | remove name => exact h.removed hstep
  | runOnMachine request => exact h.runOnMachine hok hstep
  | removeApp name => exact h.removeApp hstep
  | addMachine machine => exact h.addMachine hstep
  | removeMachine machine => exact h.removeMachine hstep
  | shutdown =>
    cases hstep
    refine h.of_machines howned ⟨rfl, rfl, rfl, rfl⟩ ?_
    rintro machine name host ⟨apps, route, happs, -⟩
    simp [Agent.shutdown] at happs

end

/-! ## Every run -/

/-- Taking records back starts no launch. -/
theorem launches_reconcile {isRunning now records}
    (h : agent.reconcile isRunning now records = some next) : next.launches = agent.launches := by
  induction records generalizing agent with
  | nil =>
    cases h
    rfl
  | cons record rest ih =>
    simp only [Agent.reconcile] at h
    split at h
    · have hrest := ih h
      exact hrest
    · have hrest := ih h
      exact hrest
    · have hrest := ih h
      exact hrest
    · cases h

/-- From records and Machines in which no hostname occurs twice, in every run in which no
hostname is given out while a start under another name has set it aside, no hostname
belongs to two Apps. -/
theorem hostsUnique_in_every_run (isRunning : Ipv4Addr → ProcessId → Bool) (now : Nat)
    (rows : Rows) (machines : Machines) {start : Agent} {schedule : List AgentEvent}
    (hstart : Agent.empty.reconcile isRunning now rows.load = some start)
    (hunique : HostsUnique { start with machines })
    (hok : Along (Agent.step subnet) HostNotSetAside { start with machines } schedule)
    (hrun : run (Agent.step subnet) { start with machines } schedule = some agent) :
    HostsUnique agent := by
  have hnone (task : Nat) : start.launches[task]? = none := by
    simp [launches_reconcile hstart, Agent.empty]
  have hkept : HostsKept { start with machines } := by
    refine ⟨.start hstart machines, ?_, ?_⟩
    · rintro app other host (happ | ⟨name, -, task, launch, old, route, hlaunch, -⟩)
      · rintro (hother | ⟨name, -, task, launch, old, route, hlaunch, -⟩)
        · exact hunique app other host happ hother
        · simp [hnone] at hlaunch
      · simp [hnone] at hlaunch
    · intro task launch parked hlaunch
      simp [hnone] at hlaunch
  exact (run_preserves (fun hok hinv hstep => hinv.step hok hstep) hkept hok
    hrun).hostsUnique

/-- A route of an App. -/
def Route.sample (host : Str) : Route := ⟨host, 80, none⟩

/-- The hostnames of the Apps. -/
def Agent.hosts (agent : Agent) : List (App × Str) :=
  (agent.vms.toList.filterMap fun item => item.2.route.map fun route => (.vm item.1, route.host)) ++
    agent.machines.toList.flatMap fun machine =>
      machine.2.toList.map fun item => (.onMachine machine.1 item.1, item.2.host)

theorem mem_hosts {app host} : (app, host) ∈ agent.hosts ↔ agent.HasHost app host := by
  cases app with
  | vm name => simp [Agent.hosts, Agent.HasHost, HasHost]
  | onMachine machine name => simp [Agent.hosts, Agent.HasHost, Machines.HasHost]

instance : Decidable (HostsUnique agent) :=
  decidable_of_iff (∀ a ∈ agent.hosts, ∀ b ∈ agent.hosts, a.2 = b.2 → a.1 = b.1) (by
    simp only [Prod.forall, mem_hosts]
    exact ⟨fun h app other host happ hother => h app host happ other host hother rfl,
      fun h app host happ other _ hother heq => h app other host happ (heq ▸ hother)⟩)

/-- The hostname that a start has set aside. -/
def Launch.hostAside (launch : Launch) : Option Str :=
  match launch.kind with
  | .start (some old) => old.info.route.map Route.host
  | _ => none

theorem setAside_iff {name host} : SetAside agent name host ↔
    ∃ item ∈ agent.launches.toList, item.2.name = name ∧ item.2.hostAside = some host := by
  constructor
  · rintro ⟨task, launch, old, route, hlaunch, hname, hkind, hroute, rfl⟩
    exact ⟨(task, launch), mem_items.mpr hlaunch, hname,
      by simp [Launch.hostAside, hkind, hroute]⟩
  · rintro ⟨⟨task, launch⟩, hmem, hname, haside⟩
    unfold Launch.hostAside at haside
    split at haside
    · rename_i old hkind
      obtain ⟨route, hroute, rfl⟩ := map_eq_some_iff.mp haside
      exact ⟨task, launch, old, route, mem_items.mp hmem,
        hname, hkind, hroute, rfl⟩
    · cases haside

/-- What the condition asks of the starts in progress. -/
def AgentEvent.avoids (launch : Launch) : AgentEvent → Bool
  | .runVm run _ => launch.name = run.name ∨ ∀ route ∈ run.route, launch.hostAside ≠ some route.host
  | .runOnMachine request => launch.hostAside ≠ some request.route.host
  | _ => true

instance {event} : Decidable (HostNotSetAside agent event) :=
  decidable_of_iff (∀ item ∈ agent.launches.toList, event.avoids item.2 = true) (by
    cases event <;> simp [HostNotSetAside, AgentEvent.avoids, setAside_iff] <;> grind)

/-- App `a` ends, is started again with another hostname, and the start fails; App `b` asks
for the first hostname meanwhile. -/
def failedRestart : List AgentEvent :=
  [.runVm (.sample "a" (some (.sample "one.example"))) "a-1.log",
    .launched 0 5, .vmEnded 1 ⟨6, .exited⟩,
    .runVm (.sample "a" (some (.sample "two.example"))) "a-2.log",
    .runVm (.sample "b" (some (.sample "one.example"))) "b-3.log",
    .startFailed 2]

/-- The old record of `a` comes back with the hostname that `b` was given. -/
theorem hostname_shared_after_failed_start :
    ∃ agent, run (Agent.step .sample) Agent.empty failedRestart = some agent ∧
      ¬ HostsUnique agent := by
  decide +kernel

/-- The database has the ended Apps `a` and `b`. -/
def endedApps : Rows :=
  ((∅ : Rows).insert "a" (endedApp "one.example")).insert "b" (endedApp "two.example")
where
  endedApp (host : Str) :=
    ⟨none, none, 256, 1, 5, some ⟨6, .exited⟩, "app.log", some (.sample host)⟩

/-- `a` is started again with another hostname, App `c` starts meanwhile, and the start of `a`
fails. -/
def restartFails : List AgentEvent :=
  [.runVm (.sample "a" (some (.sample "three.example"))) "a-1.log",
    .runVm (.sample "c" (some (.sample "four.example"))) "c-2.log",
    .startFailed 0]

theorem hostsUnique_after_failed_restart :
    ∃ start agent, Agent.empty.reconcile (fun _ _ => false) 9 endedApps.load = some start ∧
      HostsUnique { start with machines := ∅ } ∧
      Along (Agent.step .sample) HostNotSetAside { start with machines := ∅ } restartFails ∧
      run (Agent.step .sample) { start with machines := ∅ } restartFails = some agent ∧
      agent.hosts.length = 3 ∧ HostsUnique agent := by
  obtain ⟨start, hstart, hunique, hok, agent, hrun, hhosts⟩ : ∃ start,
      Agent.empty.reconcile (fun _ _ => false) 9 endedApps.load = some start ∧
        HostsUnique { start with machines := ∅ } ∧
        Along (Agent.step .sample) HostNotSetAside { start with machines := ∅ } restartFails ∧
        ∃ agent, run (Agent.step .sample) { start with machines := ∅ } restartFails =
          some agent ∧ agent.hosts.length = 3 := by
    decide +kernel
  exact ⟨start, agent, hstart, hunique, hok, hrun, hhosts,
    hostsUnique_in_every_run _ _ _ ∅ hstart hunique hok hrun⟩

end Cirrocumulus.Node
