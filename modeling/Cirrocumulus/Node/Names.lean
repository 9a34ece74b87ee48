/-
# One name's part in a step

Each step of a Node is about one name: the others' rows, snapshots and jails stay as
they are, since two names never hold one address and an agent that starts sweeps only
what nobody holds. So a run of the Node, seen from one name, is a run of a small
machine, whose states are where the Node stands with that name. What a step can be for
a name is stated here once, and what is proved of single names follows from it.
-/

import Cirrocumulus.Node.Standing

namespace Cirrocumulus.Node

open Std (ExtTreeMap)
open Lib

variable {owner : Str} {vm : Vm} {event : NodeEvent}

/-- The name's row, snapshot and jail are as they were. -/
structure Untouched (host later : Host) (name : Str) (s : Standing) : Prop where
  row : later.rows[name]? = host.rows[name]?
  snapshot : later.snapshots[name]? = host.snapshots[name]?
  jail : ∀ {a}, s.vmAddress = some a →
    (later.objectsAt (hostId a)).jail = (host.objectsAt (hostId a)).jail

/-- What a step of the Node can be for one name. -/
inductive NameMove (node next : System) (name : Str) : NodeEvent → Standing → Standing → Prop
  | untouched {event s} (h : Untouched node.host next.host name s) :
      NameMove node next name event s s
  /-- The agent is gone. Only a crash takes one that launches VMs. -/
  | down {event s} (hhost : next.host = node.host) (hdown : next.up = none)
      (hcrash : event = .crash ∨ ∀ task launch pc vm, s ≠ .launching task launch pc vm) :
      NameMove node next name event s .down
  | loaded {row} (hhost : next.host = node.host)
      (hrow : node.host.rows[name]? = some row) : NameMove node next name .boot .down .loading
  | unknown (hhost : next.host = node.host) (hrow : node.host.rows[name]? = none) :
      NameMove node next name .boot .down .absent
  /-- An agent that starts removes a snapshot that no parked VM owns. -/
  | dropped {outcome now s} (hs : s = .loading ∨ s = .absent)
      (hunowned : s = .loading → ∀ row : Row, node.host.rows[name]? = some row →
        isParked (row.record name).info = false)
      (hhost : next.host = node.host.removeSnapshot name outcome) :
      NameMove node next name (.bootStep outcome now) s s
  | restored {outcome now row} (hhost : next.host = node.host)
      (hrow : node.host.rows[name]? = some row) (hended : row.ended.isSome) :
      NameMove node next name (.bootStep outcome now) .loading
        (.ended (row.record name).info row.log none)
  | adopted {outcome now task row vmAddress process} (hhost : next.host = node.host)
      (hrow : node.host.rows[name]? = some row) (hended : row.ended = none)
      (haddress : row.vmAddress = some vmAddress) (hprocess : row.process = some process)
      (halive : node.host.isRunning vmAddress process) :
      NameMove node next name (.bootStep outcome now) .loading
        (.running task (row.record name).info row.log .watch (.adopt vmAddress process))
  | gone {outcome now row vmAddress process} (hhost : next.host =
        { node.host with rows := node.host.rows.markEnded name ⟨now, .agentDown⟩ })
      (hrow : node.host.rows[name]? = some row) (hended : row.ended = none)
      (haddress : row.vmAddress = some vmAddress) (hprocess : row.process = some process)
      (hdead : node.host.isRunning vmAddress process = false) :
      NameMove node next name (.bootStep outcome now) .loading
        (.ended (endedInfo (row.record name).info ⟨now, .agentDown⟩) row.log none)
  | begun {event task launch subnet up} (hname : launch.name = name) (hhost : next.host = node.host)
      (hup : node.up = some up) (hready : up.boot = .ready)
      (hreserves : up.agent.MayReserve subnet launch) (hfrom : launch.From event) :
      NameMove node next name event (.history launch.setAside)
        (.launching task launch .addNetns (.empty launch.vmAddress))
  | launchStep {task now outcome launch pc pc' vm vm'} (hname : launch.name = name)
      (hstep : launch.step node.host.nextProcess outcome now pc vm
        (node.host.view name launch.vmAddress) =
          some (pc', vm', next.host.view name launch.vmAddress)) :
      NameMove node next name (.launch task outcome now) (.launching task launch pc vm)
        (.launching task launch pc' vm')
  | handedOver {task task' now startedAt outcome launch vm}
      (hname : launch.name = name) (hhost : next.host = node.host) :
      NameMove node next name (.launch task outcome now)
        (.launching task launch (.handOver startedAt) vm)
        (.running task' (launch.info startedAt) launch.log .watch vm)
  | gaveUp {task now outcome launch vm}
      (hname : launch.name = name) (hhost : next.host = node.host) :
      NameMove node next name (.launch task outcome now) (.launching task launch .giveUp vm)
        (.history launch.setAside)
  | lost {task now outcome launch vm parked ended} (hname : launch.name = name)
      (hhost : next.host = node.host) (hkind : launch.kind = .wake parked) :
      NameMove node next name (.launch task outcome now) (.launching task launch (.lose ended) vm)
        (.ended (endedInfo parked.info ended) parked.log none)
  | asked {task stop info log pc pc' vm} (hhost : next.host = node.host) (hready : node.Ready)
      (htake : pc.take stop = some pc') :
      NameMove node next name (.stop task stop) (.running task info log pc vm)
        (.running task info log pc' vm)
  | superviseStep {task now outcome reason info log pc pc' vm vm'}
      (hstep : vm.supervise outcome reason pc (node.host.view name vm.vmAddress) =
        some (pc', vm', next.host.view name vm.vmAddress)) :
      NameMove node next name (.supervise task outcome reason now) (.running task info log pc vm)
        (.running task info log pc' vm')
  | recorded {task now outcome reason why info log vm}
      (hhost : next.host = { node.host with rows :=
        if outcome = .ok then node.host.rows.markEnded name ⟨now, why⟩ else node.host.rows }) :
      NameMove node next name (.supervise task outcome reason now)
        (.running task info log (.record why) vm)
        (.ended (endedInfo info ⟨now, why⟩) log none)
  | removing {info log} (hhost : next.host = node.host) (hready : node.Ready) :
      NameMove node next name (.remove name) (.ended info log none)
        (.ended info log (some .snapshot))
  | unsnapped {outcome info log} (hparked : isParked info)
      (hhost : next.host = node.host.removeSnapshot name outcome) :
      NameMove node next name (.removeStep outcome) (.ended info log (some .snapshot))
        (.ended info log (if outcome = .ok then some .delete else none))
  | notParked {outcome info log} (hparked : isParked info = false) (hhost : next.host = node.host) :
      NameMove node next name (.removeStep outcome) (.ended info log (some .snapshot))
        (.ended info log (some .delete))
  | deleted {outcome info log} (hok : outcome = .ok)
      (hhost : next.host = { node.host with rows := node.host.rows.delete name }) :
      NameMove node next name (.removeStep outcome) (.ended info log (some .delete))
        (.ended info log (some .erase))
  | undeleted {outcome info log} (hfailed : outcome ≠ .ok) (hhost : next.host = node.host) :
      NameMove node next name (.removeStep outcome) (.ended info log (some .delete))
        (.ended info log none)
  | erased {outcome info log} (hhost : next.host = node.host) :
      NameMove node next name (.removeStep outcome) (.ended info log (some .erase)) .absent

theorem Untouched.refl (host : Host) (name : Str) (s : Standing) : Untouched host host name s :=
  ⟨rfl, rfl, fun _ => rfl⟩

variable {subnet : Subnet} {host : Host} {up : AgentProcess} {task : Nat}
  {outcome : Outcome} {now : Nat} {next : System} {name : Str} {s s' : Standing}

namespace AgentProcess

/-! ## What leaves a name alone -/

/-- What happens at an address that another name holds does not touch a name. -/
theorem Stands.jail_put (hs : up.Stands name s) (h : up.Sound subnet host) {other entry b}
    (hentry : up.agent.vms[other]? = some entry)
    (hb : entry.vmAddress = some b) (hne : name ≠ other) (view : View) :
    Untouched host (host.put other b view) name s := by
  refine ⟨?_, ?_, fun {a} haddress => ?_⟩
  · rw [Host.rows_put, if_neg hne]
  · rw [Host.snapshots_put, if_neg hne]
  · obtain ⟨entry', hentry', ha⟩ := hs.held h haddress
    have hab : a ≠ b := by
      rintro rfl
      exact hne (h.held.unique hentry' hentry ha hb)
    have hid := (subnet.names_ne (h.held.mem hentry' ha) (h.held.mem hentry hb) hab).1
    rw [Host.objectsAt_put, if_neg hid]

/-- Nor does what happens at an address that nobody holds. -/
theorem Stands.jail_setObjects (hs : up.Stands name s) (h : up.Sound subnet host)
    {b} (hb : b ∈ subnet.vmAddresses)
    (hfree : ∀ (name : Str) (entry : Entry), up.agent.vms[name]? = some entry →
      entry.vmAddress ≠ some b) (objects : Objects) :
    Untouched host (host.setObjects b objects) name s := by
  refine ⟨rfl, rfl, fun {a} haddress => ?_⟩
  obtain ⟨entry, hentry, ha⟩ := hs.held h haddress
  have hab : a ≠ b := by
    rintro rfl
    exact hfree name entry hentry ha
  have hid := (subnet.names_ne (h.held.mem hentry ha) hb hab).1
  simp only [Host.objectsAt, Host.setObjects, lookup_insert, if_neg hid]

/-! ## Each kind of step -/

/-- A record is taken back: its own name's, and no other's. -/
theorem Stands.of_restore {record todo} (hboot : up.boot = .records (record :: todo))
    {agent supervising} (hs : Stands { up with agent, supervising, boot := .records todo } name s)
    (hne : name ≠ record.info.name) (hvms : agent.vms[name]? = up.agent.vms[name]?)
    (hlaunches : agent.launches = up.agent.launches)
    (hsup : ∀ {task : Nat} {item : SupervisePc × Vm}, agent.supervisors[task]? = some name →
      supervising[task]? = some item →
        up.agent.supervisors[task]? = some name ∧ up.supervising[task]? = some item) :
    up.Stands name s := by
  refine hs.of_agrees {
    vms := hvms, supervisor := hsup, todo := ?_
    launch := fun hlaunch _ hpc => ⟨hlaunches ▸ hlaunch, hpc⟩ }
  intro other hname
  refine ⟨fun hmem => (Sound.mem_todo hboot).mpr (.inr hmem), fun hmem => ?_⟩
  rcases (Sound.mem_todo hboot).mp hmem with rfl | hmem
  · exact absurd hname.symm hne
  · exact hmem

/-- The agent's start goes on without the table. -/
theorem Stands.of_boot {boot : Boot} (htodo : boot.todo = up.boot.todo)
    (hs : Stands { up with boot } name s) : up.Stands name s :=
  hs.of_agrees { todo := fun _ _ => by rw [htodo] }

/-- While snapshots are looked through, a name is absent or has its record to come, which says
whose the snapshot is. -/
theorem Stands.of_snapshots {dirs records} (hs : up.Stands name s) (h : up.Sound subnet host)
    (hset : up.Settled subnet) (hboot : up.boot = .snapshots dirs records)
    (hunowned : ∀ record ∈ records, isParked record.info → record.info.name ≠ name) :
    (s = .loading ∨ s = .absent) ∧ (s = .loading → ∀ row : Row, host.rows[name]? = some row →
      isParked (row.record name).info = false) := by
  have hnone := hset.loading hboot name
  cases hs with
  | absent => exact ⟨.inr rfl, nofun⟩
  | ended hentry | running hsup hentry =>
    rw [hnone] at hentry
    cases hentry
  | launching hlaunch hname hpc =>
    subst hname
    rw [h.owned.launch_entry hlaunch] at hnone
    cases hnone
  | @loading record hrecord hname =>
    subst hname
    refine ⟨.inl rfl, fun _ row hrow => ?_⟩
    obtain ⟨found, hfound, heq⟩ := h.todo.row hrecord
    cases hrow.symm.trans hfound
    rw [heq, Bool.eq_false_iff]
    intro hparked
    rw [hboot] at hrecord
    exact hunowned record hrecord hparked rfl

/-- A record's VM is adopted: what that is for its own name, and for the others. -/
theorem Stands.of_adopt {record todo vmAddress process}
    (hboot : up.boot = .records (record :: todo)) {later} (hlater : later = { up with
      agent := up.agent.adopt record.info record.log
      supervising := up.supervising.insert up.agent.nextTask (.watch, .adopt vmAddress process)
      boot := .records todo }) (hnext : later.Sound subnet host) (hs : later.Stands name s') :
    (name = record.info.name ∧ s' = .running up.agent.nextTask record.info record.log .watch
      (.adopt vmAddress process) ∧ up.Stands name .loading) ∨ up.Stands name s' := by
  subst hlater
  have hvms := lookup_insert up.agent.vms record.info.name
    (.running record.info record.log up.agent.nextTask) name
  by_cases heq : name = record.info.name
  · subst heq
    exact .inl ⟨rfl, hs.eq_running hnext (hvms.trans (if_pos rfl)) (by simp),
      .loading ((Sound.mem_todo hboot).mpr (.inl rfl)) rfl⟩
  · refine .inr (hs.of_restore hboot heq (hvms.trans (if_neg heq)) rfl ?_)
    intro other item hsup hpc
    obtain ⟨-, hname⟩ | ⟨hne, hsup⟩ := of_lookup_insert hsup
    · exact absurd hname.symm heq
    · exact ⟨hsup, (lookup_insert_of_ne _ hne).symm.trans hpc⟩

/-- Where the name stood before a step of the agent, and what the step is for it. -/
def Came (up : AgentProcess) (host : Host) (next : System) (name : Str) (event : NodeEvent)
    (s' : Standing) : Prop :=
  ∃ s, up.Stands name s ∧ NameMove ⟨host, some up⟩ next name event s s'

theorem Stands.stays {later} (hs : up.Stands name s) : up.Came host ⟨host, later⟩ name event s :=
  ⟨s, hs, .untouched (.refl ..)⟩

variable (h : up.Sound subnet host)
include h

/-- A record is taken back as history: what that is for its own name, and for the others. -/
theorem Stands.of_restoreEnded {later record todo info log}
    (hboot : up.boot = .records (record :: todo)) (hnext : Sound subnet later { up with
      agent := up.agent.restoreEnded info log, boot := .records todo })
    (hinfo : info.name = record.info.name)
    (hs : Stands { up with agent := up.agent.restoreEnded info log, boot := .records todo } name
      s') :
    (name = record.info.name ∧ s' = .ended info log none ∧ up.Stands name .loading) ∨
    name ≠ record.info.name ∧ up.Stands name s' := by
  have hvms : (up.agent.restoreEnded info log).vms[name]? =
      if name = record.info.name then some (.ended info log) else up.agent.vms[name]? :=
    hinfo ▸ lookup_insert up.agent.vms info.name _ name
  by_cases heq : name = record.info.name
  · subst heq
    refine .inl ⟨rfl, ?_, .loading ((Sound.mem_todo hboot).mpr (.inl rfl)) rfl⟩
    exact hs.eq_history hnext (hvms.trans (if_pos rfl)) (h.booting (by simp [hboot])).2
  · exact .inr ⟨heq, hs.of_restore hboot heq (hvms.trans (if_neg heq)) rfl And.intro⟩

/-- The agent is gone, and no launch with it unless it crashed. -/
theorem Stands.of_down (hs : System.Stands ⟨host, none⟩ name s')
    (hcrash : event = .crash ∨ ∀ (task : Nat) launch, up.agent.launches[task]? ≠ some launch) :
    up.Came host ⟨host, none⟩ name event s' := by
  obtain ⟨s, hstand⟩ := h.exists_stands name
  cases hs with
  | up hup _ => cases hup
  | down hup =>
    refine ⟨s, hstand, .down rfl rfl (hcrash.imp_right fun hnone => ?_)⟩
    rintro task launch pc vm rfl
    cases hstand with
    | launching hlaunch => exact hnone task launch hlaunch

theorem Stands.bootMove (hhost : host.Sound subnet)
    (hset : up.Settled subnet) (hmove : up.BootMove subnet host outcome now next)
    (hs : next.Stands name s') : up.Came host next name (.bootStep outcome now) s' := by
  have hnext := System.Sound.bootMove hhost h hmove
  cases hmove with
  | keepSnapshot hboot | snapshotsDone hboot | recordsDone hboot | cleaned hboot =>
    exact (hs.of_up.of_boot (by rw [hboot]; rfl)).stays
  | @dropSnapshot dir dirs records hboot hunowned =>
    have hstand := hs.of_up.of_boot (by rw [hboot]; rfl)
    refine ⟨s', hstand, ?_⟩
    by_cases heq : name = dir
    · subst heq
      obtain ⟨hnone, hparked⟩ := hstand.of_snapshots h hset hboot hunowned
      exact .dropped hnone hparked rfl
    · refine .untouched ⟨rfl, ?_, fun _ => rfl⟩
      cases outcome <;> simp [Host.removeSnapshot, lookup_insert, lookup_erase, heq]
  | @ended record todo hboot hended =>
    obtain ⟨-, -, -, row, hrow, hrecord⟩ := h.todo_cons hboot
    obtain ⟨hended', -, -, hlog⟩ := row.of_record hrecord
    rcases hs.of_up.of_restoreEnded h hboot (hnext.up rfl) rfl with
      ⟨rfl, hafter, hstand⟩ | ⟨-, hstand⟩
    · rw [← hlog, ← congrArg Record.info hrecord] at hafter
      subst hafter
      exact ⟨.loading, hstand, .restored rfl hrow (hended' ▸ hended)⟩
    · exact hstand.stays
  | @alive record todo vmAddress process hboot hended haddress hprocess halive =>
    obtain ⟨-, -, -, row, hrow, hrecord⟩ := h.todo_cons hboot
    obtain ⟨hended', haddress', hprocess', hlog⟩ := row.of_record hrecord
    rcases hs.of_up.of_adopt hboot rfl (hnext.up rfl) with ⟨rfl, hafter, hstand⟩ | hstand
    · rw [← hlog, ← congrArg Record.info hrecord] at hafter
      subst hafter
      exact ⟨.loading, hstand, .adopted rfl hrow (hended'.trans hended)
        (haddress'.trans haddress) (hprocess'.trans hprocess) halive⟩
    · exact hstand.stays
  | @gone record todo vmAddress process hboot hended haddress hprocess hdead hok =>
    obtain ⟨-, -, -, row, hrow, hrecord⟩ := h.todo_cons hboot
    obtain ⟨hended', haddress', hprocess', hlog⟩ := row.of_record hrecord
    rcases hs.of_up.of_restoreEnded h hboot (hnext.up rfl) rfl with
      ⟨rfl, hafter, hstand⟩ | ⟨hne, hstand⟩
    · rw [← hlog, ← congrArg Record.info hrecord] at hafter
      subst hafter
      exact ⟨.loading, hstand, .gone rfl hrow (hended'.trans hended) (haddress'.trans haddress)
        (hprocess'.trans hprocess) hdead⟩
    · refine ⟨s', hstand, .untouched ⟨?_, rfl, fun _ => rfl⟩⟩
      exact (lookup_markEnded ..).trans (if_neg hne)
  | unmarked hboot | refused hboot =>
    refine of_down h hs (.inr fun task launch hlaunch => ?_)
    rw [(h.booting (by simp [hboot])).1 task] at hlaunch
    cases hlaunch
  | killAll hboot | undo hboot =>
    have hstand := hs.of_up.of_boot (by rw [hboot]; rfl)
    have hfree := hset.sweeping (by rw [hboot]; exact List.mem_cons_self)
    refine ⟨s', hstand, .untouched ?_⟩
    dsimp only
    split
    · exact hstand.jail_setObjects h hfree.1 hfree.2 _
    · exact .refl ..

omit h in
/-- A name with no task stands as the history says that is set aside for it. -/
theorem Stands.of_setAside (hready : up.boot = .ready) (hremoving : up.removing = none)
    {left : Option Replaced}
    (hentry : up.agent.vms[name]? = left.map fun old => .ended old.info old.log) :
    up.Stands name (.history left) := by
  cases left with
  | none =>
    refine .absent hentry ?_
    rw [Sound.todo_of_ready hready]
    simp
  | some old =>
    have hstand := ended hentry
    rwa [removal, hremoving] at hstand

theorem Stands.beginMove {launch} (hfrom : launch.From event)
    (hmove : up.BeginMove subnet host launch next) (hs : next.Stands name s') :
    up.Came host next name event s' := by
  obtain ⟨hready, hunlocked, hreserves⟩ := hmove
  have hnext := h.begin hready hreserves
  have hs := hs.of_up
  by_cases heq : name = launch.name
  · subst heq
    have hstand := hs.unique hnext
      (.launching ExtTreeMap.getElem?_insert_self rfl ExtTreeMap.getElem?_insert_self)
    subst hstand
    exact ⟨_, .of_setAside hready hunlocked hreserves.entry,
      .begun rfl rfl rfl hready hreserves hfrom⟩
  · refine (hs.of_agrees { vms := lookup_insert_of_ne _ heq, launch := ?_ }).stays
    intro task other item hlaunch hname hpc
    obtain ⟨-, rfl⟩ | ⟨hne, hlaunch⟩ := of_lookup_insert hlaunch
    · exact absurd hname.symm heq
    · exact ⟨hlaunch, (lookup_insert_of_ne _ hne).symm.trans hpc⟩

omit h in
/-- A supervisor goes on without a name that is not its own. -/
theorem Stands.of_others_supervising {item} (hsup : up.agent.supervisors[task]? ≠ some name)
    (hs : Stands { up with supervising := up.supervising.insert task item } name s) :
    up.Stands name s := by
  refine hs.of_agrees { supervisor := ?_ }
  intro other item hown hpc
  have hne : other ≠ task := by
    rintro rfl
    exact hsup hown
  exact ⟨hown, (lookup_insert_of_ne _ hne).symm.trans hpc⟩

/-- A supervisor goes on: what that is for its own name, and for the others. -/
theorem Stands.of_setSupervising {later pc pc' vm'} (hnext : Sound subnet later
      { up with supervising := up.supervising.insert task (pc', vm') })
    (hsup : up.agent.supervisors[task]? = some owner) (hpc : up.supervising[task]? = some (pc, vm))
    (hs : Stands { up with supervising := up.supervising.insert task (pc', vm') } name s') :
    (name = owner ∧ ∃ info log, s' = .running task info log pc' vm' ∧
      up.Stands name (.running task info log pc vm)) ∨
    name ≠ owner ∧ up.Stands name s' := by
  by_cases heq : name = owner
  · subst heq
    obtain ⟨info, log, hentry, -⟩ := h.superviseSound hsup hpc
    exact .inl ⟨rfl, info, log, hs.eq_running hnext hentry ExtTreeMap.getElem?_insert_self,
      .running hsup hentry hpc⟩
  · refine .inr ⟨heq, hs.of_others_supervising fun hown => ?_⟩
    exact heq (Option.some.inj (hown.symm.trans hsup))

theorem Stands.asked {stop pc pc'} (hready : up.boot = .ready)
    (hpc : up.supervising[task]? = some (pc, vm)) (htake : pc.take stop = some pc')
    (hnext : next =
      ⟨host, some { up with supervising := up.supervising.insert task (pc', vm) }⟩)
    (hsound : next.Sound subnet) (hs : next.Stands name s') :
    up.Came host next name (.stop task stop) s' := by
  subst hnext
  have hs := hs.of_up
  cases hsup : up.agent.supervisors[task]? with
  | none =>
    -- Nobody's supervisor: no name stands differently.
    exact (hs.of_others_supervising (by simp [hsup])).stays
  | some owner =>
    rcases hs.of_setSupervising h (hsound.up rfl) hsup hpc with
      ⟨rfl, info, log, rfl, hstand⟩ | ⟨-, hstand⟩
    · exact ⟨_, hstand, .asked rfl ⟨up, rfl, hready⟩ htake⟩
    · exact hstand.stays

/-- History is removed under one name at a time. -/
def RemovingAt (removing : Option (Str × RemovePc)) (owner : Str) : Prop :=
  ∀ item, removing = some item → item.1 = owner

omit h in
theorem removal_eq (up : AgentProcess) (hremoving : RemovingAt up.removing owner) (name : Str) :
    up.removal name = if name = owner then up.removing.map Prod.snd else none := by
  unfold removal
  cases hitem : up.removing with
  | none => simp
  | some item => simp [hremoving item hitem, eq_comm]

omit h in
/-- The removal of history goes on: what that is for its own name, and for the others. -/
theorem Stands.of_setRemoving {later info log removing} (hbefore : RemovingAt up.removing owner)
    (hafter : RemovingAt removing owner) (hentry : up.agent.vms[owner]? = some (.ended info log))
    (hnext : next = ⟨later, some { up with removing }⟩) (hsound : next.Sound subnet)
    (hs : next.Stands name s')
    (hown : name = owner → NameMove ⟨host, some up⟩ next name event
      (.ended info log (up.removing.map Prod.snd)) (.ended info log (removing.map Prod.snd)))
    (hother : name ≠ owner → Untouched host later name s') : up.Came host next name event s' := by
  subst hnext
  have hs := hs.of_up
  have hremoval := removal_eq { up with removing } hafter name
  by_cases heq : name = owner
  · have hstand := ended (heq ▸ hentry)
    have hlater := hs.unique (hsound.up rfl) (.ended (heq ▸ hentry))
    rw [up.removal_eq hbefore, if_pos heq] at hstand
    rw [hremoval, if_pos heq] at hlater
    subst hlater
    exact ⟨_, hstand, hown heq⟩
  · refine ⟨s', hs.of_agrees { removal := ?_ }, .untouched (hother heq)⟩
    rw [hremoval, up.removal_eq hbefore, if_neg heq, if_neg heq]

theorem Stands.removeMove (hset : up.Settled subnet)
    (hnext : next.Sound subnet) (hmove : up.RemoveMove host outcome next)
    (hs : next.Stands name s') : up.Came host next name (.removeStep outcome) s' := by
  have hbefore {owner pc} (hremoving : up.removing = some (owner, pc)) :
      RemovingAt up.removing owner := by simp [RemovingAt, hremoving]
  cases hmove with
  | @snapshot owner info log hremoving hentry hparked =>
    have hafter : RemovingAt (if outcome = .ok then some (owner, .delete) else none) owner := by
      split <;> simp [RemovingAt]
    refine of_setRemoving (hbefore hremoving) hafter hentry rfl hnext hs ?_ fun hne => ?_
    · rintro rfl
      rw [hremoving, apply_ite (Option.map Prod.snd)]
      exact .unsnapped hparked rfl
    · refine ⟨rfl, ?_, fun _ => rfl⟩
      cases outcome <;> simp [Host.removeSnapshot, lookup_insert, lookup_erase, hne]
  | @noSnapshot owner info log hremoving hentry hparked =>
    refine of_setRemoving (hbefore hremoving) (by simp [RemovingAt]) hentry rfl hnext hs ?_
      fun _ => .refl ..
    rintro rfl
    rw [hremoving]
    exact .notParked hparked rfl
  | @delete owner hremoving hok =>
    obtain ⟨info, log, hentry⟩ := hset.removing hremoving
    refine of_setRemoving (hbefore hremoving) (by simp [RemovingAt]) hentry rfl hnext hs ?_
      fun hne => ⟨?_, rfl, fun _ => rfl⟩
    · rintro rfl
      rw [hremoving]
      exact .deleted hok rfl
    · simp only [Rows.delete, lookup_erase, if_neg hne]
  | @refused owner hremoving hfailed =>
    obtain ⟨info, log, hentry⟩ := hset.removing hremoving
    refine of_setRemoving (hbefore hremoving) (by simp [RemovingAt]) hentry rfl hnext hs ?_
      fun _ => .refl ..
    rintro rfl
    rw [hremoving]
    exact .undeleted hfailed rfl
  | @erase owner info log hremoving hentry =>
    have hs := hs.of_up
    have hvms := lookup_erase up.agent.vms owner name
    have hremoval := up.removal_eq (hbefore hremoving) name
    by_cases heq : name = owner
    · subst heq
      have htodo := Sound.todo_of_ready (h.ready_of_removing hremoving)
      have hafter := hs.eq_absent (hnext.up rfl) (hvms.trans (if_pos rfl)) htodo
      have hstand := ended hentry
      subst hafter
      rw [hremoval, if_pos rfl, hremoving] at hstand
      exact ⟨_, hstand, .erased rfl⟩
    · rw [if_neg heq] at hremoval
      exact (hs.of_agrees { vms := hvms.trans (if_neg heq), removal := hremoval.symm }).stays

/-- A launch ends without a VM: what that is for its own name, and for the others. -/
theorem Stands.of_endLaunch {launch pc agent left} (hsound : System.Sound subnet
      ⟨host, some { up with agent, launching := up.launching.erase task }⟩)
    (hpc : up.launching[task]? = some (pc, vm)) (hunlocked : up.unlocked)
    (hend : LaunchEnded up.agent task agent launch left)
    (hs : Stands { up with agent, launching := up.launching.erase task } name s') :
    (name = launch.name ∧ s' = .history left ∧ up.Stands name (.launching task launch pc vm)) ∨
    up.Stands name s' := by
  have hentry := hend.vms_eq name
  by_cases heq : name = launch.name
  · subst heq
    rw [if_pos rfl] at hentry
    refine .inl ⟨rfl, ?_, .launching hend.launch_eq rfl hpc⟩
    cases left with
    | none =>
      exact hs.eq_absent (hsound.up rfl) hentry
        (Sound.todo_of_ready (h.ready_of_launch hend.launch_eq))
    | some old => exact hs.eq_history (hsound.up rfl) hentry (unlocked_iff.mp hunlocked)
  · refine .inr (hs.of_agrees
      { vms := hentry.trans (if_neg heq), launch := ?_, supervisor := ?_ })
    · intro other launch' item hlaunch' hname hpc'
      rw [hend.next_eq] at hlaunch'
      exact ⟨(of_lookup_erase hlaunch').2, (of_lookup_erase hpc').2⟩
    · intro other item hsup hpc'
      rw [hend.next_eq] at hsup
      exact ⟨hsup, hpc'⟩

theorem Stands.launchMove (hnext : next.Sound subnet) {launch pc}
    (hlaunch : up.agent.launches[task]? = some launch) (hpc : up.launching[task]? = some (pc, vm))
    (hmove : up.LaunchMove host task outcome now launch pc vm next) (hs : next.Stands name s') :
    up.Came host next name (.launch task outcome now) s' := by
  have hentry := h.owned.launch_entry hlaunch
  cases hmove with
  | @handOver startedAt agent hpc' hunlocked hagent =>
    have hs := hs.of_up
    obtain ⟨found, hfound, rfl⟩ := launched_eq_some hagent
    cases hlaunch.symm.trans hfound
    have hvms := lookup_launched up.agent task launch startedAt name
    by_cases heq : name = launch.name
    · subst heq hpc'
      rw [if_pos rfl] at hvms
      have hafter := hs.eq_running (hnext.up rfl) hvms ExtTreeMap.getElem?_insert_self
      subst hafter
      exact ⟨_, .launching hlaunch rfl hpc, .handedOver rfl rfl⟩
    · refine (hs.of_agrees
        { vms := hvms.trans (if_neg heq), launch := ?_, supervisor := ?_ }).stays
      · intro other launch' item hlaunch' hname hpc''
        exact ⟨(of_lookup_erase hlaunch').2, (of_lookup_erase hpc'').2⟩
      · intro other item hsup hpc''
        obtain ⟨-, hname⟩ | ⟨hne, hsup⟩ := of_lookup_insert hsup
        · exact absurd hname.symm heq
        · exact ⟨hsup, (lookup_insert_of_ne _ hne).symm.trans hpc''⟩
  | giveUp hpc' hunlocked hend =>
    subst hpc'
    rcases hs.of_up.of_endLaunch h hnext hpc hunlocked hend with ⟨rfl, rfl, hstand⟩ | hstand
    · exact ⟨_, hstand, .gaveUp rfl rfl⟩
    · exact hstand.stays
  | lose hpc' hunlocked hkind hend =>
    subst hpc'
    rcases hs.of_up.of_endLaunch h hnext hpc hunlocked hend with ⟨rfl, rfl, hstand⟩ | hstand
    · exact ⟨_, hstand, .lost rfl rfl hkind⟩
    · exact hstand.stays
  | @effect pc' vm' view' hstep =>
    have hs := hs.of_up
    by_cases heq : name = launch.name
    · subst heq
      have hstand := hs.unique (hnext.up rfl)
        (.launching hlaunch rfl ExtTreeMap.getElem?_insert_self)
      subst hstand
      refine ⟨_, .launching hlaunch rfl hpc, .launchStep rfl ?_⟩
      dsimp only
      rw [Host.view_put_self]
      exact hstep
    · have hstand : up.Stands name s' := by
        refine hs.of_agrees { launch := ?_ }
        intro other launch' item hlaunch' hname hpc''
        have hne : other ≠ task := by
          rintro rfl
          cases hlaunch.symm.trans hlaunch'
          exact heq hname.symm
        exact ⟨hlaunch', (lookup_insert_of_ne _ hne).symm.trans hpc''⟩
      exact ⟨s', hstand, .untouched (hstand.jail_put h hentry rfl heq view')⟩

theorem Stands.superviseMove (hnext : next.Sound subnet) {reason pc}
    (hsup : up.agent.supervisors[task]? = some owner) (hpc : up.supervising[task]? = some (pc, vm))
    (hmove : up.SuperviseMove host task outcome reason now owner pc vm next)
    (hs : next.Stands name s') :
    up.Came host next name (.supervise task outcome reason now) s' := by
  obtain ⟨info, log, hentry, hsound⟩ := h.superviseSound hsup hpc
  cases hmove with
  | @record why agent hpc' hunlocked hagent =>
    subst hpc'
    have hs := hs.of_up
    obtain ⟨found, hfound, rfl⟩ := vmEnded_eq_some hagent
    cases hsup.symm.trans hfound
    have hvms := lookup_recordEnd hentry ⟨now, why⟩ name
    by_cases heq : name = owner
    · subst heq
      have hafter := hs.eq_history (hnext.up rfl) (hvms.trans (if_pos rfl))
        (unlocked_iff.mp hunlocked)
      subst hafter
      exact ⟨_, .running hsup hentry hpc, .recorded rfl⟩
    · have hstand : up.Stands name s' := by
        refine hs.of_agrees { vms := hvms.trans (if_neg heq), supervisor := ?_ }
        intro other item hown hpc''
        exact ⟨(of_lookup_erase hown).2, (of_lookup_erase hpc'').2⟩
      refine ⟨s', hstand, .untouched ⟨?_, rfl, fun _ => rfl⟩⟩
      dsimp only
      split
      · exact (lookup_markEnded ..).trans (if_neg heq)
      · rfl
  | @effect pc' vm' view' hstep =>
    rcases hs.of_up.of_setSupervising h (hnext.up rfl) hsup hpc with
      ⟨rfl, info', log', rfl, hstand⟩ | ⟨hne, hstand⟩
    · refine ⟨_, hstand, .superviseStep ?_⟩
      dsimp only
      rw [Host.view_put_self]
      exact hstep
    · exact ⟨s', hstand, .untouched (hstand.jail_put h hentry hsound.vmAddress hne view')⟩

theorem Stands.step (hhost : host.Sound subnet)
    (hset : up.Settled subnet) (hnext : next.Sound subnet)
    (hmove : up.Move subnet host event next) (hs : next.Stands name s') :
    up.Came host next name event s' := by
  cases hmove with
  | starts hmove => exact bootMove h hhost hset hmove hs
  | opens hboot =>
    have hstand : up.Stands name s' :=
      hs.of_up.of_agrees { todo := fun _ _ => by rw [hboot]; rfl }
    exact hstand.stays
  | begins hfrom hmove => exact beginMove h hfrom hmove hs
  | asked hready hpc htake => exact Stands.asked h hready hpc htake rfl hnext hs
  | @removing owner info log hready hunlocked hentry =>
    refine of_setRemoving (by simp [RemovingAt, hunlocked]) (by simp [RemovingAt]) hentry rfl
      hnext hs ?_ fun _ => .refl ..
    rintro rfl
    rw [hunlocked]
    exact .removing rfl ⟨up, rfl, hready⟩
  | removes hmove => exact removeMove h hset hnext hmove hs
  | onMachines hready hsame =>
    obtain ⟨hvms, hlaunches, hsupervisors, -⟩ := hsame
    exact (hs.of_up.of_agrees {
      vms := congrArg (·[name]?) hvms
      launch := fun hlaunch _ hpc => ⟨hlaunches ▸ hlaunch, hpc⟩
      supervisor := fun hsup hpc => ⟨hsupervisors ▸ hsup, hpc⟩ }).stays
  | sigterm =>
    have hstand : up.Stands name s' := hs.of_up.of_agrees {}
    exact hstand.stays
  | exits hdown hstarting =>
    exact of_down h hs
      (.inr fun task launch hlaunch => hstarting _ _ _ _ (h.owned.launch_entry hlaunch))
  | launches hlaunch hpc hmove => exact launchMove h hnext hlaunch hpc hmove hs
  | supervises hsup hpc hmove => exact superviseMove h hnext hsup hpc hmove hs
  | crashes => exact of_down h hs (.inl rfl)

end AgentProcess

/-- Every step of a Node is, for every name, one of its moves. -/
theorem System.Reached.nameMove {node} (h : node.Reached subnet)
    (hstep : node.step subnet event = some next) (hs : next.Stands name s') :
    ∃ s, node.Stands name s ∧ NameMove node next name event s s' := by
  have hnext := h.sound.step hstep
  rcases step_eq_some hstep with ⟨vmAddress, process, rfl, rfl⟩ | ⟨rfl, hdown, rfl⟩ |
    ⟨up, hup, hstep⟩
  · refine ⟨s', ?_, .untouched ⟨rfl, rfl, fun {a} _ => ?_⟩⟩
    · cases hs with
      | down hup => exact .down hup
      | up hup hstand => exact .up hup hstand
    · simp only [Host.objectsAt, Host.setObjects, lookup_insert]
      split
      · rename_i heq
        rw [heq]
        rfl
      · rfl
  · refine ⟨.down, .down hdown, ?_⟩
    cases hs.of_up with
    | loading hrecord hname =>
      subst hname
      obtain ⟨row, hrow, -⟩ := mem_load.mp hrecord
      exact .loaded rfl hrow
    | absent hentry hload =>
      refine .unknown rfl (Option.eq_none_iff_forall_ne_some.mpr fun row hrow => ?_)
      exact hload (row.record name) (mem_load.mpr ⟨row, hrow, rfl⟩) rfl
    | ended hentry | running hsup hentry => simp [AgentProcess.start, Agent.empty] at hentry
    | launching hlaunch hname hpc => simp [AgentProcess.start, Agent.empty] at hlaunch
  · obtain ⟨host, found⟩ := node
    cases hup
    obtain ⟨s, hstand, hmove⟩ := AgentProcess.Stands.step (h.sound.up rfl) h.sound.host
      (h.settled up rfl) hnext hstep hs
    exact ⟨s, .up rfl hstand, hmove⟩

section

variable {ok : System → NodeEvent → Prop} (inv : System → Standing → Prop) {start target : System}
  {schedule : List NodeEvent} (hstart : start.Reached subnet)
  (hkeep : ∀ {node event next s s'}, node.Reached subnet → ok node event →
    node.step subnet event = some next → node.Stands name s → inv node s →
    NameMove node next name event s s' → inv next s')
include hstart hkeep

/-- The invariant rule for one name: what every move of the name keeps, whenever the step
meets the condition, holds wherever a run ends that meets it throughout. -/
theorem System.Reached.name_preserves (hinv : ∀ {s}, start.Stands name s → inv start s)
    (hok : Along (System.step subnet) ok start schedule)
    (hrun : run (System.step subnet) start schedule = some target)
    (hs : target.Stands name s) : inv target s := by
  have hstep {node next event} (hok : ok node event)
      (hnode : node.Reached subnet ∧ ∀ s, node.Stands name s → inv node s)
      (hstep : node.step subnet event = some next) :
      next.Reached subnet ∧ ∀ s, next.Stands name s → inv next s := by
    refine ⟨hnode.1.step hstep, fun s' hs' => ?_⟩
    obtain ⟨s, hs, hmove⟩ := hnode.1.nameMove hstep hs'
    exact hkeep hnode.1 hok hstep hs (hnode.2 s hs) hmove
  have hend : target.Reached subnet ∧ ∀ s, target.Stands name s → inv target s :=
    run_preserves (fun hok hnode hnext => hstep hok hnode hnext)
      ⟨hstart, fun s hs => hinv hs⟩ hok hrun
  exact hend.2 s hs

/-- The rule for runs that start without an agent. -/
theorem System.Reached.preserves_from_down (hnone : start.up = none) (hinv : inv start .down)
    (hok : Along (System.step subnet) ok start schedule)
    (hrun : run (System.step subnet) start schedule = some target)
    (hs : target.Stands name s) : inv target s := by
  refine hstart.name_preserves inv hkeep (fun hs => ?_) hok hrun hs
  cases hs with
  | down hup => exact hinv
  | up hup _ =>
    rw [hnone] at hup
    cases hup

end

end Cirrocumulus.Node
