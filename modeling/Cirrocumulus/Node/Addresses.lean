/-
# VM addresses

A VM address is handed out when no entry holds it, and an adopted VM brings the
address that its row names. So that addresses are never shared rests on the rows: each
live one belongs to the one task that works for its name, and that name's entry holds
the address.
-/

import Cirrocumulus.Node.Live

namespace Cirrocumulus.Node

open Std (ExtTreeMap)
open Lib

variable {vm : Vm} {launch : Launch} {name : Str} {pc : LaunchPc} {agent : Agent}
  {vmAddress : Ipv4Addr} {process : ProcessId} {record : Record} {vms : Table}

/-! ## The table -/

/-- The addresses of a table's entries are VM addresses, each held once. -/
structure AddressesHeld (subnet : Subnet) (vms : Table) : Prop where
  mem : ∀ {name : Str} {entry} {vmAddress}, vms[name]? = some entry →
    entry.vmAddress = some vmAddress → vmAddress ∈ subnet.vmAddresses
  unique : ∀ {name other : Str} {entry entry'} {vmAddress},
    vms[name]? = some entry → vms[other]? = some entry' →
      entry.vmAddress = some vmAddress → entry'.vmAddress = some vmAddress → name = other

/-- Every address that an entry of `less` holds, the same name holds in `vms`. -/
def HoldsLess (less vms : Table) : Prop :=
  ∀ {name : Str} {entry : Entry} {vmAddress : Ipv4Addr}, less[name]? = some entry →
    entry.vmAddress = some vmAddress →
      ∃ held : Entry, vms[name]? = some held ∧ held.vmAddress = some vmAddress

theorem holdsLess_of_update {less left}
    (hvms : ∀ other : Str, less[other]? = if other = name then left else vms[other]?)
    (hleft : ∀ entry vmAddress, left = some entry → entry.vmAddress = some vmAddress →
      ∃ held : Entry, vms[name]? = some held ∧ held.vmAddress = some vmAddress) :
    HoldsLess less vms := by
  intro other entry vmAddress hentry haddress
  rw [hvms] at hentry
  split at hentry
  · rename_i heq
    rw [heq]
    exact hleft entry vmAddress hentry haddress
  · exact ⟨entry, hentry, haddress⟩

theorem AddressesHeld.of_less {subnet less} (h : AddressesHeld subnet vms)
    (hless : HoldsLess less vms) : AddressesHeld subnet less where
  mem := by
    intro name entry vmAddress hentry haddress
    obtain ⟨held, hheld, hsame⟩ := hless hentry haddress
    exact h.mem hheld hsame
  unique := by
    intro name other entry entry' vmAddress hentry hentry' haddress haddress'
    obtain ⟨held, hheld, hsame⟩ := hless hentry haddress
    obtain ⟨held', hheld', hsame'⟩ := hless hentry' haddress'
    exact h.unique hheld hheld' hsame hsame'

/-- A name takes an address that no entry holds. -/
theorem AddressesHeld.insert {subnet} (h : AddressesHeld subnet vms) {entry}
    (haddress : entry.vmAddress = some vmAddress) (hmem : vmAddress ∈ subnet.vmAddresses)
    (hfree : ∀ (other : Str) (held : Entry), vms[other]? = some held →
      held.vmAddress ≠ some vmAddress) : AddressesHeld subnet (vms.insert name entry) where
  mem := by
    intro other held otherAddress hheld hother
    obtain ⟨-, rfl⟩ | ⟨-, hheld⟩ := of_lookup_insert hheld
    · cases haddress.symm.trans hother
      exact hmem
    · exact h.mem hheld hother
  unique := by
    intro first second entry₁ entry₂ shared hfirst hsecond haddress₁ haddress₂
    refine unique_insert
      (R := fun a b => a.vmAddress = some shared ∧ b.vmAddress = some shared)
      (fun hfirst hsecond hsame => h.unique hfirst hsecond hsame.1 hsame.2)
      (fun _ hfound => ⟨fun hsame => ?_, fun hsame => ?_⟩) hfirst hsecond
      ⟨haddress₁, haddress₂⟩
    · cases haddress.symm.trans hsame.1
      exact hfree _ _ hfound hsame.2
    · cases haddress.symm.trans hsame.2
      exact hfree _ _ hfound hsame.1

/-! ## The agent -/

/-- The records an agent that starts has yet to take back. -/
def Boot.todo : Boot → List Record
  | .snapshots _ all => all
  | .records todo => todo
  | _ => []

namespace AgentProcess

/-- A task works for the name's VM, which is recorded and has this address and VMM. -/
inductive HoldsLive (up : AgentProcess) (name : Str) (vmAddress : Ipv4Addr) (process : ProcessId) :
    Prop
  | supervisor {task : Nat} {pc vm} (hsup : up.agent.supervisors[task]? = some name)
      (hpc : up.supervising[task]? = some (pc, vm)) (haddress : vm.vmAddress = vmAddress)
      (hprocess : vm.process = some process) : HoldsLive up name vmAddress process
  | launch {task : Nat} {launch pc vm} (hlaunch : up.agent.launches[task]? = some launch)
      (hname : launch.name = name) (hpc : up.launching[task]? = some (pc, vm))
      (hrecorded : pc.recorded) (haddress : launch.vmAddress = vmAddress)
      (hprocess : vm.process = some process) : HoldsLive up name vmAddress process

/-- What a launch's task knows of its VM. -/
structure LaunchSound (host : Host) (launch : Launch) (pc : LaunchPc) (vm : Vm) : Prop where
  vmAddress : vm.vmAddress = launch.vmAddress
  process_lt : ∀ {process}, vm.process = some process → process < host.nextProcess
  recorded : pc.recorded → ∃ process, vm.process = some process

/-- What a supervisor knows of its VM. -/
structure SuperviseSound (host : Host) (info : VmInfo) (pc : SupervisePc) (vm : Vm) : Prop where
  vmAddress : info.vmAddress = some vm.vmAddress
  process : ∃ process, vm.process = some process ∧ process < host.nextProcess ∧
    (pc.torn → host.isRunning vm.vmAddress process = false)

/-- A launch's task is at a point of its work. -/
def LaunchAt (host : Host) (launching : ExtTreeMap Nat (LaunchPc × Vm) compare) (task : Nat)
    (launch : Launch) : Prop :=
  ∃ pc vm, launching[task]? = some (pc, vm) ∧ LaunchSound host launch pc vm

/-- A supervisor is at a point of its work, and its VM's entry says so. -/
def SuperviseAt (host : Host) (supervising : ExtTreeMap Nat (SupervisePc × Vm) compare)
    (vms : Table) (task : Nat) (name : Str) : Prop :=
  ∃ pc vm info log, supervising[task]? = some (pc, vm) ∧
    vms[name]? = some (.running info log task) ∧ SuperviseSound host info pc vm

/-- The records left to take back are the rows that no entry stands for yet. -/
structure TodoSound (host : Host) (up : AgentProcess) : Prop where
  nodup : (up.boot.todo.map fun record => record.info.name).Nodup
  absent : ∀ {record}, record ∈ up.boot.todo → up.agent.vms[record.info.name]? = none
  row : ∀ {record}, record ∈ up.boot.todo →
    ∃ row, host.rows[record.info.name]? = some row ∧ row.record record.info.name = record
  free : ∀ {record vmAddress process}, record ∈ up.boot.todo →
    host.LiveRow record.info.name vmAddress process →
      ∀ (name : Str) (entry : Entry), up.agent.vms[name]? = some entry →
        entry.vmAddress ≠ some vmAddress

/-- What holds of an agent at work, whatever came before. -/
structure Sound (subnet : Subnet) (host : Host) (up : AgentProcess) : Prop where
  owned : Owned up.agent
  held : AddressesHeld subnet up.agent.vms
  launching : ∀ {task : Nat} {launch}, up.agent.launches[task]? = some launch →
    LaunchAt host up.launching task launch
  supervising : ∀ {task : Nat} {name : Str}, up.agent.supervisors[task]? = some name →
    SuperviseAt host up.supervising up.agent.vms task name
  owner : ∀ {name vmAddress process}, host.LiveRow name vmAddress process →
    (∃ record ∈ up.boot.todo, record.info.name = name) ∨ up.HoldsLive name vmAddress process
  booting : up.boot ≠ .ready → (∀ task : Nat, up.agent.launches[task]? = none) ∧ up.removing = none
  todo : TodoSound host up

end AgentProcess

/-- The invariant of a Node. -/
structure System.Sound (subnet : Subnet) (node : System) : Prop where
  host : node.host.Sound subnet
  up : ∀ {up}, node.up = some up → up.Sound subnet node.host

namespace AgentProcess

variable {subnet : Subnet} {host later : Host} {up : AgentProcess} {task : Nat}
  {outcome : Outcome} {now : Nat}

theorem LaunchAt.mono {launching launching'} (h : LaunchAt host launching task launch)
    (hlater : host.Later later) (hsame : launching'[task]? = launching[task]?) :
    LaunchAt later launching' task launch := by
  obtain ⟨pc, vm, hpc, hsound⟩ := h
  exact ⟨pc, vm, hsame.trans hpc, hsound.vmAddress,
    fun hprocess => (hsound.process_lt hprocess).trans_le hlater.next_le, hsound.recorded⟩

theorem SuperviseAt.mono {supervising supervising' vms'}
    (h : SuperviseAt host supervising vms task name) (hlater : host.Later later)
    (hsame : supervising'[task]? = supervising[task]?) (hvms : vms'[name]? = vms[name]?) :
    SuperviseAt later supervising' vms' task name := by
  obtain ⟨pc, vm, info, log, hpc, hentry, haddress, process, hprocess, hlt, hdead⟩ := h
  exact ⟨pc, vm, info, log, hsame.trans hpc, hvms.trans hentry, haddress, process, hprocess,
    hlt.trans_le hlater.next_le, fun htorn => hlater.dead hlt (hdead htorn)⟩

theorem TodoSound.of_nil (h : up.boot.todo = []) : TodoSound host up := by
  refine ⟨by simp [h], ?_, ?_, ?_⟩ <;> simp [h]

/-- Tasks that go on with their VMs still work for them. -/
theorem HoldsLive.mono {up' : AgentProcess} (h : up.HoldsLive name vmAddress process)
    (hsup : ∀ {task : Nat} {pc : SupervisePc} {vm : Vm},
      up.agent.supervisors[task]? = some name → up.supervising[task]? = some (pc, vm) →
      vm.vmAddress = vmAddress → vm.process = some process →
        up'.agent.supervisors[task]? = some name ∧ ∃ pc' vm',
          up'.supervising[task]? = some (pc', vm') ∧ vm'.vmAddress = vm.vmAddress ∧
            vm'.process = vm.process)
    (hlaunch : ∀ {task : Nat} {launch : Launch} {item : LaunchPc × Vm},
      up.agent.launches[task]? = some launch → up.launching[task]? = some item →
      item.1.recorded →
        up'.agent.launches[task]? = some launch ∧ up'.launching[task]? = some item) :
    up'.HoldsLive name vmAddress process := by
  cases h with
  | supervisor hown hpc haddress hprocess =>
    obtain ⟨hown', pc', vm', hpc', haddress', hprocess'⟩ := hsup hown hpc haddress hprocess
    exact .supervisor hown' hpc' (haddress'.trans haddress) (hprocess'.trans hprocess)
  | launch hown hname hpc hrecorded haddress hprocess =>
    obtain ⟨hown', hpc'⟩ := hlaunch hown hpc hrecorded
    exact .launch hown' hname hpc' hrecorded haddress hprocess

/-- So do tasks that are left alone. -/
theorem HoldsLive.of_same {up' : AgentProcess} (h : up.HoldsLive name vmAddress process)
    (hsupervisors : up'.agent.supervisors = up.agent.supervisors)
    (hlaunches : up'.agent.launches = up.agent.launches)
    (hsupervising : up'.supervising = up.supervising)
    (hlaunching : up'.launching = up.launching) : up'.HoldsLive name vmAddress process := by
  refine h.mono (fun hsup hpc _ _ => ?_) fun hlaunch hpc _ => ?_
  · exact ⟨hsupervisors ▸ hsup, _, _, hsupervising ▸ hpc, rfl, rfl⟩
  · exact ⟨hlaunches ▸ hlaunch, hlaunching ▸ hpc⟩

namespace Sound

theorem todo_of_ready (hready : up.boot = .ready) : up.boot.todo = [] := by
  rw [hready]
  rfl

variable (h : up.Sound subnet host)
include h

/-- An agent that launches VMs is ready. -/
theorem ready_of_launch (hlaunch : up.agent.launches[task]? = some launch) : up.boot = .ready := by
  by_contra hboot
  rw [(h.booting hboot).1] at hlaunch
  cases hlaunch

/-- So is one that removes history. -/
theorem ready_of_removing {item} (hremoving : up.removing = some item) : up.boot = .ready := by
  by_contra hboot
  rw [(h.booting hboot).2] at hremoving
  cases hremoving

theorem launchSound (hlaunch : up.agent.launches[task]? = some launch)
    (hpc : up.launching[task]? = some (pc, vm)) : LaunchSound host launch pc vm := by
  obtain ⟨_, _, hfound, hsound⟩ := h.launching hlaunch
  cases hpc.symm.trans hfound
  exact hsound

theorem superviseSound {pc} (hsup : up.agent.supervisors[task]? = some name)
    (hpc : up.supervising[task]? = some (pc, vm)) : ∃ info log,
      up.agent.vms[name]? = some (.running info log task) ∧ SuperviseSound host info pc vm := by
  obtain ⟨_, _, info, log, hfound, hsound⟩ := h.supervising hsup
  cases hpc.symm.trans hfound
  exact ⟨info, log, hsound⟩

/-- Whoever works for a live row's name holds the row's address in the table. -/
theorem entry_of_holdsLive (hholds : up.HoldsLive name vmAddress process) :
    ∃ entry : Entry, up.agent.vms[name]? = some entry ∧ entry.vmAddress = some vmAddress := by
  cases hholds with
  | supervisor hsup hpc haddress hprocess =>
    obtain ⟨info, log, hentry, hsound⟩ := h.superviseSound hsup hpc
    exact ⟨_, hentry, haddress ▸ hsound.vmAddress⟩
  | launch hlaunch hname hpc hrecorded haddress hprocess =>
    subst hname
    exact ⟨_, h.owned.launch_entry hlaunch, congrArg some haddress⟩

/-- The same agent on a host in which nothing came to life. -/
theorem of_host (hlater : host.Later later) (hrows : ∀ {record}, record ∈ up.boot.todo →
      later.rows[record.info.name]? = host.rows[record.info.name]?)
    (hlive : ∀ {name vmAddress process}, later.LiveRow name vmAddress process →
      host.LiveRow name vmAddress process) : up.Sound subnet later where
  owned := h.owned
  held := h.held
  launching := fun hlaunch => (h.launching hlaunch).mono hlater rfl
  supervising := fun hsup => (h.supervising hsup).mono hlater rfl rfl
  owner := fun hrow => h.owner (hlive hrow)
  booting := h.booting
  todo := {
    nodup := h.todo.nodup
    absent := h.todo.absent
    row := fun hrecord => hrows hrecord ▸ h.todo.row hrecord
    free := fun hrecord hrow => h.todo.free hrecord (hlive hrow) }

theorem of_same_rows (hhost : host.Sound subnet)
    (hlater : host.Later later) (hrows : later.rows = host.rows) : up.Sound subnet later :=
  h.of_host hlater (fun _ => by rw [hrows]) (hhost.live_of_same hlater (by rw [hrows]))

/-- A table and tasks that stay as they are. -/
theorem of_sameTasks (hsame : SameTasks up.agent agent)
    {boot : Boot} {removing} (htodo : boot.todo = up.boot.todo)
    (hbooting : boot ≠ .ready → up.boot ≠ .ready ∧ removing = none) :
    Sound subnet host { up with agent, boot, removing } := by
  obtain ⟨vms, machines, down, launches, supervisors, nextTask⟩ := agent
  obtain ⟨rfl, rfl, rfl, rfl⟩ := hsame
  exact {
    owned := h.owned.of_sameTasks ⟨rfl, rfl, rfl, rfl⟩
    held := h.held
    launching := h.launching
    supervising := h.supervising
    owner := fun {name vmAddress process} hrow => by
      rcases h.owner hrow with hrecord | hholds
      · exact .inl (htodo ▸ hrecord)
      · exact .inr (hholds.of_same rfl rfl rfl rfl)
    booting := fun hboot => ⟨(h.booting (hbooting hboot).1).1, (hbooting hboot).2⟩
    todo := {
      nodup := htodo ▸ h.todo.nodup
      absent := htodo ▸ h.todo.absent
      row := htodo ▸ h.todo.row
      free := htodo ▸ h.todo.free } }

/-- Once the table is complete, a task works for every live row. -/
theorem holdsLive (hready : up.boot = .ready)
    (hrow : host.LiveRow name vmAddress process) : up.HoldsLive name vmAddress process := by
  rcases h.owner hrow with ⟨record, hrecord, -⟩ | hholds
  · rw [todo_of_ready hready] at hrecord
    cases hrecord
  · exact hholds

/-- A supervisor's VM is untouched when an idle name's entry changes. -/
theorem supervising_of_idle {left}
    (hvms : ∀ other : Str, vms[other]? = if other = name then left else up.agent.vms[other]?)
    (hidle : Idle up.agent name) {owner} (hsup : up.agent.supervisors[task]? = some owner) :
    SuperviseAt host up.supervising vms task owner :=
  (h.supervising hsup).mono (.refl host) rfl
    ((hvms owner).trans (if_neg (h.owned.name_ne_of_idle_supervisor hidle hsup)))

omit h in
/-- An agent whose table is complete has no records to take back. -/
theorem of_ready (hready : up.boot = .ready) (howned : Owned up.agent)
    (hheld : AddressesHeld subnet up.agent.vms)
    (hlaunching : ∀ {task : Nat} {launch}, up.agent.launches[task]? = some launch →
      LaunchAt host up.launching task launch)
    (hsupervising : ∀ {task : Nat} {name : Str}, up.agent.supervisors[task]? = some name →
      SuperviseAt host up.supervising up.agent.vms task name)
    (howner : ∀ {name vmAddress process}, host.LiveRow name vmAddress process →
      up.HoldsLive name vmAddress process) : up.Sound subnet host :=
  ⟨howned, hheld, hlaunching, hsupervising, fun hrow => .inr (howner hrow),
    fun hboot => absurd hready hboot, .of_nil (todo_of_ready hready)⟩

/-! ## A launch's effects -/

omit h in
/-- What an effect of a launch does to its VM's row: the row is live only if it was, or if it
was recorded now. -/
theorem launchRow (hhost : host.Sound subnet) (hsound : LaunchSound host launch pc vm)
    {pc' vm' view'} (hstep : launch.step host.nextProcess outcome now pc vm
      (host.view launch.name launch.vmAddress) = some (pc', vm', view'))
    (hlater : host.Later later) (hrow : later.rows[launch.name]? = view'.row) :
    (∀ row, later.rows[launch.name]? = some row → row.Valid later.nextProcess) ∧
    (∀ {vmAddress process}, later.LiveRow launch.name vmAddress process →
      host.LiveRow launch.name vmAddress process ∧
          (pc.recorded → pc'.recorded ∧ vm' = vm) ∨
        launch.vmAddress = vmAddress ∧ pc'.recorded ∧ vm'.process = some process) ∧
    (pc'.recorded → ∃ process, vm'.process = some process) := by
  cases (Launch.stepped hstep).row with
  | same hsame hstarted hvm =>
    have hrec : pc'.recorded = pc.recorded := congrArg Option.isSome hstarted
    replace hrow := hrow.trans hsame
    refine ⟨fun row hget => ?_, fun hlive => .inl ⟨?_, fun hrecorded => ?_⟩, fun hrecorded => ?_⟩
    · rw [hrow] at hget
      exact (hhost.valid hget).mono hlater.next_le
    · exact hhost.live_of_same hlater hrow hlive
    · exact ⟨hrec.trans hrecorded, hvm hrecorded⟩
    · rw [hrec] at hrecorded
      rw [hvm hrecorded]
      exact hsound.recorded hrecorded
  | @recorded _ _ process hok hprocess =>
    refine ⟨fun row hget => ?_, fun hlive => .inr ?_, fun _ => ⟨process, hprocess⟩⟩
    · cases hrow.symm.trans hget
      exact valid_runningRow rfl _ ((hsound.process_lt hprocess).trans_le hlater.next_le)
    · obtain ⟨row, hget, -, haddress, hrunning, -⟩ := hlive
      cases hrow.symm.trans hget
      cases hrunning
      exact ⟨Option.some.inj haddress, rfl, hprocess⟩
  | lost hok =>
    have hended {row} (hget : later.rows[launch.name]? = some row) :
        ∃ old : Row, old.markEnded ⟨now, .forced⟩ = row :=
      let ⟨old, _, heq⟩ := Option.map_eq_some_iff.mp (hrow.symm.trans hget)
      ⟨old, heq⟩
    refine ⟨fun row hget => ?_, fun hlive => ?_, fun hrecorded => by cases hrecorded⟩
    · obtain ⟨old, rfl⟩ := hended hget
      exact old.valid_markEnded _ _
    · obtain ⟨row, hget, hnone, -⟩ := hlive
      obtain ⟨old, rfl⟩ := hended hget
      cases hnone

theorem launchEffect (hhost : host.Sound subnet) {pc' vm' view'}
    (hlaunch : up.agent.launches[task]? = some launch) (hpc : up.launching[task]? = some (pc, vm))
    (hstep : launch.step host.nextProcess outcome now pc vm
      (host.view launch.name launch.vmAddress) = some (pc', vm', view')) :
    System.Sound subnet ⟨host.put launch.name launch.vmAddress view',
      some { up with launching := up.launching.insert task (pc', vm') }⟩ := by
  have hsound := h.launchSound hlaunch hpc
  have hstepped := Launch.stepped hstep
  have hlater : host.Later (host.put launch.name launch.vmAddress view') :=
    Host.later_put hstepped.procs
  have hother : ∀ other : Str, other ≠ launch.name →
      (host.put launch.name launch.vmAddress view').rows[other]? = host.rows[other]? := by
    intro other hne
    rw [Host.rows_put, if_neg hne]
  obtain ⟨hvalid, hself, hrecorded⟩ := launchRow hhost hsound hstep hlater
    (by rw [Host.rows_put, if_pos rfl])
  have hready := h.ready_of_launch hlaunch
  have hnow := ExtTreeMap.getElem?_insert_self (t := up.launching) (k := task) (v := (pc', vm'))
  -- Who works for a live row still does.
  have howner {name : Str} {vmAddress} {process}
      (hrow : host.LiveRow name vmAddress process)
      (hself : name = launch.name → pc.recorded → pc'.recorded ∧ vm' = vm) :
      HoldsLive { up with launching := up.launching.insert task (pc', vm') } name vmAddress
        process := by
    cases h.holdsLive hready hrow with
    | supervisor hsup hpc haddress hprocess => exact .supervisor hsup hpc haddress hprocess
    | @launch other launch' pc₁ vm₁ hlaunch' hname hpc₁ hrec haddress hprocess =>
      by_cases heq : other = task
      · subst heq
        cases hlaunch.symm.trans hlaunch'
        cases hpc.symm.trans hpc₁
        obtain ⟨hrec, rfl⟩ := hself hname.symm hrec
        exact .launch hlaunch hname hnow hrec haddress hprocess
      · exact .launch hlaunch' hname ((lookup_insert_of_ne _ heq).trans hpc₁) hrec haddress
          hprocess
  refine ⟨hhost.update hlater hother hvalid fun hlive => ?_, fun hup => ?_⟩
  · rcases hself hlive with ⟨hlive, -⟩ | ⟨rfl, -, -⟩
    · exact .inl hlive
    · have hentry := h.owned.launch_entry hlaunch
      refine .inr ⟨h.held.mem hentry rfl, fun {other process''} hrow => ?_⟩
      obtain ⟨entry, hentry', haddress⟩ := h.entry_of_holdsLive (h.holdsLive hready hrow)
      exact h.held.unique hentry' hentry haddress rfl
  · cases hup
    refine of_ready hready h.owned h.held ?_ ?_ fun {name vmAddress process} hlive => ?_
    · intro other launch' hlaunch'
      by_cases heq : other = task
      · subst heq
        cases hlaunch.symm.trans hlaunch'
        refine ⟨pc', vm', hnow, hstepped.vmAddress.trans hsound.vmAddress, ?_, hrecorded⟩
        intro process hprocess
        rcases hstepped.process with hsame | hfresh
        · exact (hsound.process_lt (hsame ▸ hprocess)).trans_le hlater.next_le
        · rw [hfresh] at hprocess
          cases hprocess
          exact Nat.lt_succ_self _
      · exact (h.launching hlaunch').mono hlater (lookup_insert_of_ne _ heq)
    · exact fun hsup => (h.supervising hsup).mono hlater rfl rfl
    · by_cases heq : name = launch.name
      · subst heq
        rcases hself hlive with ⟨hlive, hkept⟩ | ⟨haddress, hrec, hprocess⟩
        · exact howner hlive fun _ => hkept
        · exact .launch hlaunch rfl hnow hrec haddress hprocess
      · exact howner (hhost.live_of_same hlater (hother name heq) hlive)
          fun hname => absurd hname heq

/-! ## The agent's start -/

omit h in
theorem start : Sound subnet host (.start host) where
  owned := owned_empty
  held := by constructor <;> simp [AgentProcess.start, Agent.empty]
  launching := by simp [AgentProcess.start, Agent.empty]
  supervising := by simp [AgentProcess.start, Agent.empty]
  owner := by
    rintro name vmAddress process ⟨row, hrow, -⟩
    exact .inl ⟨row.record name, mem_load.mpr ⟨row, hrow, rfl⟩, rfl⟩
  booting := by simp [AgentProcess.start, Agent.empty]
  todo := {
    nodup := nodup_load host.rows
    absent := by simp [AgentProcess.start, Agent.empty]
    row := fun hrecord => mem_load.mp hrecord
    free := by simp [AgentProcess.start, Agent.empty] }

variable {todo : List Record}

omit h in
theorem mem_todo (hboot : up.boot = .records (record :: todo))
    {other} : other ∈ up.boot.todo ↔ other = record ∨ other ∈ todo := by
  rw [hboot]
  exact List.mem_cons

/-- The next record to take back, and those behind it. -/
theorem todo_cons (hboot : up.boot = .records (record :: todo)) :
    up.agent.vms[record.info.name]? = none ∧
      (∀ other ∈ todo, other.info.name ≠ record.info.name) ∧
      (todo.map fun record => record.info.name).Nodup ∧
      ∃ row, host.rows[record.info.name]? = some row ∧ row.record record.info.name = record := by
  have hmem : record ∈ up.boot.todo := (mem_todo hboot).mpr (.inl rfl)
  have hnodup := h.todo.nodup
  rw [hboot] at hnodup
  obtain ⟨hnew, hrest⟩ := List.nodup_cons.mp hnodup
  refine ⟨h.todo.absent hmem, fun other hother heq => ?_, hrest, h.todo.row hmem⟩
  exact hnew (List.mem_map.mpr ⟨other, hother, heq⟩)

/-- A record is taken back as history, on a host where its row is not live. -/
theorem restoreEnded (hboot : up.boot = .records (record :: todo)) (info : VmInfo)
    (hname : info.name = record.info.name) (hlater : host.Later later)
    (hrows : ∀ other : Str, other ≠ record.info.name → later.rows[other]? = host.rows[other]?)
    (hlive : ∀ {name vmAddress process}, later.LiveRow name vmAddress process →
      name ≠ record.info.name ∧ host.LiveRow name vmAddress process) (log : Str) :
    Sound subnet later { up with
      agent := up.agent.restoreEnded info log
      boot := .records todo } := by
  obtain ⟨habsent, hnames, hnodup, -⟩ := h.todo_cons hboot
  have hsub {other : Record} (hother : other ∈ todo) : other ∈ up.boot.todo :=
    (mem_todo hboot).mpr (.inr hother)
  have hvms (other : Str) : (up.agent.restoreEnded info log).vms[other]? =
      if other = record.info.name then some (.ended info log) else up.agent.vms[other]? :=
    hname ▸ lookup_insert up.agent.vms info.name _ other
  have hless : HoldsLess (up.agent.restoreEnded info log).vms up.agent.vms := by
    refine holdsLess_of_update hvms ?_
    intro entry vmAddress hentry haddress
    cases hentry
    cases haddress
  have hidle := idle_of_absent habsent
  refine {
    owned := h.owned.restoreEnded info (hname ▸ hidle) log
    held := h.held.of_less hless
    launching := fun hlaunch => (h.launching hlaunch).mono hlater rfl
    supervising := fun hsup => (h.supervising_of_idle hvms hidle hsup).mono hlater rfl rfl
    owner := ?_
    booting := fun _ => h.booting (by rw [hboot]; simp)
    todo := { nodup := hnodup, absent := ?_, row := ?_, free := ?_ } }
  · intro name vmAddress process hrow
    obtain ⟨hne, hrow⟩ := hlive hrow
    rcases h.owner hrow with ⟨other, hother, rfl⟩ | hholds
    · rcases (mem_todo hboot).mp hother with rfl | hother
      · exact absurd rfl hne
      · exact .inl ⟨other, hother, rfl⟩
    · exact .inr (hholds.of_same rfl rfl rfl rfl)
  · intro other hother
    rw [hvms, if_neg (hnames other hother)]
    exact h.todo.absent (hsub hother)
  · intro other hother
    rw [hrows _ (hnames other hother)]
    exact h.todo.row (hsub hother)
  · intro other vmAddress process hother hrow name entry hentry haddress
    obtain ⟨held, hheld, hsame⟩ := hless hentry haddress
    exact h.todo.free (hsub hother) (hlive hrow).2 name held hheld hsame

/-- A record is taken back as a VM that runs. -/
theorem adopt (hhost : host.Sound subnet)
    (hboot : up.boot = .records (record :: todo)) (hended : record.info.ended = none)
    (haddress : record.info.vmAddress = some vmAddress) (hprocess : record.process = some process)
    (halive : host.isRunning vmAddress process) :
    Sound subnet host { up with
      agent := up.agent.adopt record.info record.log
      supervising := up.supervising.insert up.agent.nextTask (.watch, .adopt vmAddress process)
      boot := .records todo } := by
  obtain ⟨habsent, hnames, hnodup, row, hrow, hrecord⟩ := h.todo_cons hboot
  have hsub {other : Record} (hother : other ∈ todo) : other ∈ up.boot.todo :=
    (mem_todo hboot).mpr (.inr hother)
  have hrowAddress : row.vmAddress = some vmAddress := by
    rw [← haddress, ← hrecord]
    rfl
  have hrowProcess : row.process = some process := by
    rw [← hprocess, ← hrecord]
    rfl
  have hlive : host.LiveRow record.info.name vmAddress process := by
    refine ⟨row, hrow, ?_, hrowAddress, hrowProcess, halive⟩
    rw [← hended, ← hrecord]
    rfl
  have hfree := h.todo.free ((mem_todo hboot).mpr (.inl rfl)) hlive
  have hidle := idle_of_absent habsent
  have hvms (name : Str) : (up.agent.adopt record.info record.log).vms[name]? =
      if name = record.info.name then some (.running record.info record.log up.agent.nextTask)
      else up.agent.vms[name]? :=
    lookup_insert up.agent.vms record.info.name _ name
  refine {
    owned := h.owned.adopt hidle (by simp [haddress]) record.log
    held := h.held.insert haddress (hhost.live_mem hlive) hfree
    launching := h.launching
    supervising := ?_
    owner := ?_
    booting := fun _ => h.booting (by rw [hboot]; simp)
    todo := { nodup := hnodup, absent := ?_, row := fun hother => h.todo.row (hsub hother)
              free := ?_ } }
  · intro task name hsup
    obtain ⟨rfl, rfl⟩ | ⟨htask, hsup⟩ := of_lookup_insert hsup
    · refine ⟨.watch, .adopt vmAddress process, record.info, record.log, by simp, ?_, haddress,
        process, rfl, (hhost.valid hrow).process_lt hrowProcess, by simp [SupervisePc.torn]⟩
      rw [hvms, if_pos rfl]
    · exact (h.supervising_of_idle hvms hidle hsup).mono (.refl host)
        (lookup_insert_of_ne _ htask) rfl
  · intro name address other hrow'
    rcases h.owner hrow' with ⟨record', hrecord', rfl⟩ | hholds
    · rcases (mem_todo hboot).mp hrecord' with rfl | hrecord'
      · right
        obtain ⟨row', hget, -, haddress', hprocess', -⟩ := hrow'
        cases hrow.symm.trans hget
        cases haddress'.symm.trans hrowAddress
        cases hprocess'.symm.trans hrowProcess
        exact .supervisor (by simp [Agent.adopt]) ExtTreeMap.getElem?_insert_self rfl rfl
      · exact .inl ⟨record', hrecord', rfl⟩
    · refine .inr (hholds.mono (fun hsup hpc _ _ => ?_) fun hlaunch hpc _ => ⟨hlaunch, hpc⟩)
      have hne := (h.owned.supervisor_lt hsup).ne
      exact ⟨(lookup_insert_of_ne _ hne).trans hsup, _, _,
        (lookup_insert_of_ne _ hne).trans hpc, rfl, rfl⟩
  · intro other hother
    rw [hvms, if_neg (hnames other hother)]
    exact h.todo.absent (hsub hother)
  · intro other address process' hother hrow' name entry hentry haddress'
    rw [hvms] at hentry
    split at hentry
    · cases hentry
      rw [Entry.vmAddress, haddress] at haddress'
      cases haddress'
      exact hnames other hother (hhost.live_unique hrow' hlive)
    · exact h.todo.free (hsub hother) hrow' name entry hentry haddress'

/-! ## Requests -/

theorem begin (hready : up.boot = .ready) (hreserves : up.agent.MayReserve subnet launch) :
    Sound subnet host { up with
      agent := up.agent.reserve launch
      launching := up.launching.insert up.agent.nextTask
        (.addNetns, .empty launch.vmAddress) } := by
  have hidle := hreserves.idle
  obtain ⟨hmem, hfree⟩ := freeVmAddress_eq_ok hreserves.free
  refine of_ready hready (h.owned.reserve hidle) (h.held.insert rfl hmem hfree) ?_ ?_ ?_
  · intro other launch' hlaunch
    obtain ⟨rfl, rfl⟩ | ⟨hne, hlaunch⟩ := of_lookup_insert hlaunch
    · refine ⟨.addNetns, .empty launch.vmAddress, by simp, rfl, fun hprocess => ?_,
        by simp [LaunchPc.recorded, LaunchPc.startedAt]⟩
      cases hprocess
    · exact (h.launching hlaunch).mono (.refl host) (lookup_insert_of_ne _ hne)
  · exact h.supervising_of_idle (lookup_insert up.agent.vms launch.name _) hidle
  · intro name vmAddress process hrow
    refine (h.holdsLive hready hrow).mono (fun hsup hpc _ _ => ⟨hsup, _, _, hpc, rfl, rfl⟩)
      fun hlaunch hpc _ => ?_
    have hne := (h.owned.launch_lt hlaunch).ne
    exact ⟨(lookup_insert_of_ne _ hne).trans hlaunch, (lookup_insert_of_ne _ hne).trans hpc⟩

/-- A supervisor goes on, with its VM's address and VMM as they were. -/
theorem setSupervising {pc pc' : SupervisePc} {vm'}
    (hpc : up.supervising[task]? = some (pc, vm)) (haddress : vm'.vmAddress = vm.vmAddress)
    (hprocess : vm'.process = vm.process) (htorn : pc'.torn → ∀ process, vm.process = some process →
      (pc.torn → host.isRunning vm.vmAddress process = false) →
        host.isRunning vm.vmAddress process = false) :
    Sound subnet host
      { up with supervising := up.supervising.insert task (pc', vm') } := by
  refine { h with supervising := ?_, owner := ?_, todo := { h.todo with } }
  · intro other name hsup
    by_cases heq : other = task
    · subst heq
      obtain ⟨info, log, hentry, hsound⟩ := h.superviseSound hsup hpc
      obtain ⟨process, hproc, hlt, hdead⟩ := hsound.process
      refine ⟨pc', vm', info, log, by simp, hentry, haddress ▸ hsound.vmAddress, process,
        hprocess ▸ hproc, hlt, fun hpc' => ?_⟩
      rw [haddress]
      exact htorn hpc' process hproc hdead
    · exact (h.supervising hsup).mono (.refl host) (lookup_insert_of_ne _ heq) rfl
  · intro name vmAddress process hrow
    rcases h.owner hrow with hrecord | hholds
    · exact .inl hrecord
    · refine .inr (hholds.mono (fun {other pc₁ vm₁} hsup hpc₁ _ _ => ⟨hsup, ?_⟩)
        fun hlaunch hpc _ => ⟨hlaunch, hpc⟩)
      by_cases heq : other = task
      · subst heq
        cases hpc.symm.trans hpc₁
        exact ⟨pc', vm', by simp, haddress, hprocess⟩
      · exact ⟨pc₁, vm₁, (lookup_insert_of_ne _ heq).trans hpc₁, rfl, rfl⟩

/-- History is removed from the table. -/
theorem eraseHistory (hready : up.boot = .ready)
    {info : VmInfo} {log} (hentry : up.agent.vms[name]? = some (.ended info log)) :
    Sound subnet host { up with
      agent := { up.agent with vms := up.agent.vms.erase name }
      removing := none } := by
  have hidle := idle_of_ended hentry
  have hvms := lookup_erase up.agent.vms name
  refine of_ready hready (h.owned.setHistory hidle none hvms)
    (h.held.of_less (holdsLess_of_update hvms (by simp))) h.launching
    (h.supervising_of_idle hvms hidle) ?_
  intro other vmAddress process hrow
  exact (h.holdsLive hready hrow).of_same rfl rfl rfl rfl

/-! ## Tasks that end -/

/-- A launch without a recorded VM leaves only history behind. -/
theorem endLaunch (hpc : up.launching[task]? = some (pc, vm)) (hrecorded : pc.recorded = false)
    {left : Option Replaced} (hend : LaunchEnded up.agent task agent launch left) :
    Sound subnet host { up with agent, launching := up.launching.erase task } := by
  have hready := h.ready_of_launch hend.launch_eq
  have hagent := hend.next_eq
  have hlaunches : agent.launches = up.agent.launches.erase task := by rw [hagent]; rfl
  have hsupervisors : agent.supervisors = up.agent.supervisors := by rw [hagent]; rfl
  refine of_ready hready (by rw [hagent]; exact h.owned.endLaunch hend.launch_eq left hend.vms_eq)
    (h.held.of_less (holdsLess_of_update hend.vms_eq ?_)) ?_ ?_ ?_
  · intro entry vmAddress hleft haddress
    obtain ⟨old, -, rfl⟩ := Option.map_eq_some_iff.mp hleft
    cases haddress
  · intro other launch' hlaunch'
    obtain ⟨hne, hlaunch'⟩ := of_lookup_erase (hlaunches ▸ hlaunch')
    exact (h.launching hlaunch').mono (.refl host) (lookup_erase_of_ne hne)
  · intro other name hsup
    rw [hsupervisors] at hsup
    exact (h.supervising hsup).mono (.refl host) rfl
      ((hend.vms_eq name).trans (if_neg (h.owned.supervisor_ne_launch hend.launch_eq hsup)))
  · intro name vmAddress process hrow
    refine (h.holdsLive hready hrow).mono
      (fun hsup hpc _ _ => ⟨hsupervisors ▸ hsup, _, _, hpc, rfl, rfl⟩)
      fun {other launch' item} hlaunch hpc' hrec => ?_
    have hne : other ≠ task := by
      rintro rfl
      cases hpc.symm.trans hpc'
      cases hrecorded.symm.trans hrec
    exact ⟨by rw [hlaunches, lookup_erase_of_ne hne, hlaunch],
      (lookup_erase_of_ne hne).trans hpc'⟩

/-- A launch with a recorded VM hands it to a supervisor. -/
theorem handOver (hlaunch : up.agent.launches[task]? = some launch)
    (hpc : up.launching[task]? = some (pc, vm)) (hrecorded : pc.recorded) {startedAt}
    (hagent : up.agent.launched task startedAt = some agent) :
    Sound subnet host { up with
      agent
      launching := up.launching.erase task
      supervising := up.supervising.insert up.agent.nextTask (.watch, vm) } := by
  obtain ⟨found, hfound, rfl⟩ := launched_eq_some hagent
  cases hlaunch.symm.trans hfound
  have hsound := h.launchSound hlaunch hpc
  obtain ⟨process, hprocess⟩ := hsound.recorded hrecorded
  have hready := h.ready_of_launch hlaunch
  have hentry := h.owned.launch_entry hlaunch
  have hvms := lookup_launched up.agent task launch startedAt
  have hnew := ExtTreeMap.getElem?_insert_self (t := up.supervising)
    (k := up.agent.nextTask) (v := (.watch, vm))
  refine of_ready hready ?_ (h.held.of_less (holdsLess_of_update hvms ?_)) ?_ ?_ ?_
  · refine (h.owned.endLaunch hlaunch none ?_).adopt (idle_endLaunch_erase task launch.name)
      rfl _
    exact lookup_erase up.agent.vms launch.name
  · intro entry vmAddress hrunning haddress
    cases hrunning
    exact ⟨_, hentry, haddress⟩
  · intro other launch' hlaunch'
    obtain ⟨hne, hlaunch'⟩ := of_lookup_erase hlaunch'
    exact (h.launching hlaunch').mono (.refl host) (lookup_erase_of_ne hne)
  · intro other name hsup
    obtain ⟨rfl, rfl⟩ | ⟨hne, hsup⟩ := of_lookup_insert hsup
    · refine ⟨.watch, vm, launch.info startedAt, launch.log, hnew, ?_, ?_, process, hprocess,
        hsound.process_lt hprocess, by simp [SupervisePc.torn]⟩
      · exact (hvms launch.name).trans (if_pos rfl)
      · rw [hsound.vmAddress]
        rfl
    · exact (h.supervising hsup).mono (.refl host) (lookup_insert_of_ne _ hne)
        ((hvms name).trans (if_neg (h.owned.supervisor_ne_launch hlaunch hsup)))
  · intro name vmAddress other hrow
    cases h.holdsLive hready hrow with
    | @supervisor other pc' vm' hsup hpc' haddress hprocess' =>
      have hne := (h.owned.supervisor_lt hsup).ne
      exact .supervisor ((lookup_insert_of_ne _ hne).trans hsup)
        ((lookup_insert_of_ne _ hne).trans hpc') haddress hprocess'
    | @launch other launch' pc' vm' hlaunch' hname hpc' hrec haddress hprocess' =>
      by_cases heq : other = task
      · -- The row of the VM that is handed over.
        subst heq
        cases hlaunch.symm.trans hlaunch'
        cases hpc.symm.trans hpc'
        refine .supervisor ?_ hnew (hsound.vmAddress.trans haddress) hprocess'
        rw [← hname]
        simp [Agent.adopt, Agent.endLaunch, Launch.info]
      · exact .launch ((lookup_erase_of_ne heq).trans hlaunch') hname
          ((lookup_erase_of_ne heq).trans hpc') hrec haddress hprocess'

/-- A supervisor whose VMM is dead ends, and leaves history. -/
theorem endSupervisor {pc : SupervisePc}
    (hsup : up.agent.supervisors[task]? = some name) (hpc : up.supervising[task]? = some (pc, vm))
    (htorn : pc.torn) {ended} (hagent : up.agent.vmEnded task ended = some agent) :
    Sound subnet host { up with agent, supervising := up.supervising.erase task } := by
  obtain ⟨found, hfound, rfl⟩ := vmEnded_eq_some hagent
  cases hsup.symm.trans hfound
  obtain ⟨info, log, hentry, hsound⟩ := h.superviseSound hsup hpc
  obtain ⟨process, hprocess, -, hdead⟩ := hsound.process
  have hvms := lookup_recordEnd hentry ended
  refine {
    owned := h.owned.endSupervisor hsup ⟨endedInfo info ended, log⟩ hvms
    held := h.held.of_less (holdsLess_of_update hvms ?_)
    launching := h.launching
    supervising := ?_
    owner := ?_
    booting := h.booting
    todo := { h.todo with absent := ?_, free := ?_ } }
  · intro entry vmAddress hleft haddress
    cases hleft
    cases haddress
  · intro other name' hsup'
    obtain ⟨hne, hother⟩ := of_lookup_erase hsup'
    refine (h.supervising hother).mono (.refl host) (lookup_erase_of_ne hne)
      ((hvms name').trans (if_neg ?_))
    rintro rfl
    exact hne (h.owned.supervisor_unique hother hsup)
  · intro name' vmAddress other hrow
    rcases h.owner hrow with hrecord | hholds
    · exact .inl hrecord
    · refine .inr (hholds.mono (fun {other' pc' vm'} hsup' hpc' haddress hprocess' => ?_)
        fun hlaunch hpc _ => ⟨hlaunch, hpc⟩)
      by_cases heq : other' = task
      · subst heq
        cases hpc.symm.trans hpc'
        cases hprocess.symm.trans hprocess'
        subst haddress
        obtain ⟨row, -, -, -, -, hrunning⟩ := hrow
        cases (hdead htorn).symm.trans hrunning
      · exact ⟨(lookup_erase_of_ne heq).trans hsup', pc', vm',
          (lookup_erase_of_ne heq).trans hpc', rfl, rfl⟩
  · intro record hrecord
    have habsent := h.todo.absent hrecord
    dsimp only
    rw [hvms, if_neg ?_, habsent]
    intro heq
    rw [heq, hentry] at habsent
    cases habsent
  · intro record vmAddress other hrecord hrow name' entry hentry' haddress
    dsimp only at hentry'
    rw [hvms] at hentry'
    split at hentry'
    · cases hentry'
      cases haddress
    · exact h.todo.free hrecord hrow name' entry hentry' haddress

end Sound

end AgentProcess

/-! ## Every run -/

namespace System.Sound

variable {subnet : Subnet} {host later : Host} {up : AgentProcess} {task : Nat}
  {outcome : Outcome} {now : Nat} {node next : System}

theorem fresh (subnet : Subnet) : System.fresh.Sound subnet := by
  refine ⟨⟨?_, ?_, ?_⟩, ?_⟩
  · simp [System.fresh, Host.empty]
  · rintro name vmAddress process ⟨row, hrow, -⟩
    simp [System.fresh, Host.empty] at hrow
  · rintro name other vmAddress process process' ⟨row, hrow, -⟩
    simp [System.fresh, Host.empty] at hrow
  · simp [System.fresh]

/-- The agent is gone, and its host is left as it is. -/
theorem down (h : host.Sound subnet) : System.Sound subnet ⟨host, none⟩ :=
  ⟨h, fun hup => by cases hup⟩

section

variable (hhost : host.Sound subnet) (hup : up.Sound subnet host)
include hhost hup

theorem of_up :
    System.Sound subnet ⟨host, some up⟩ := by
  refine ⟨hhost, fun heq => ?_⟩
  cases heq
  exact hup

/-- A host with the same rows, on which nothing came to life. -/
theorem of_later (hlater : host.Later later) (hrows : later.rows = host.rows) :
    System.Sound subnet ⟨later, some up⟩ :=
  of_up (hhost.of_same_rows hlater hrows) (hup.of_same_rows hhost hlater hrows)

theorem bootMove (hmove : up.BootMove subnet host outcome now next) : next.Sound subnet := by
  -- Whatever comes before the table is complete runs no request.
  have hgo (boot : Boot) (hboot : up.boot ≠ .ready) (htodo : boot.todo = up.boot.todo) :
      AgentProcess.Sound subnet host { up with boot } :=
    hup.of_sameTasks ⟨rfl, rfl, rfl, rfl⟩ htodo fun _ => ⟨hboot, (hup.booting hboot).2⟩
  cases hmove with
  | keepSnapshot hboot | snapshotsDone hboot | recordsDone hboot | cleaned hboot =>
    exact of_up hhost (hgo _ (by simp [hboot]) (by rw [hboot]; rfl))
  | dropSnapshot hboot hunowned =>
    exact of_later hhost (hgo _ (by simp [hboot]) (by rw [hboot]; rfl))
      (Host.later_removeSnapshot _ _) rfl
  | @ended record todo hboot hended =>
    refine of_up hhost
      (hup.restoreEnded hboot record.info rfl (.refl host) (fun _ _ => rfl) ?_ record.log)
    intro name vmAddress process hlive
    refine ⟨?_, hlive⟩
    rintro rfl
    obtain ⟨-, -, -, row, hrow, hrecord⟩ := hup.todo_cons hboot
    rw [← hrecord] at hended
    exact Host.not_live_of_ended hrow (Option.isSome_iff_ne_none.mp hended) hlive
  | alive hboot hended haddress hprocess halive =>
    exact of_up hhost (hup.adopt hhost hboot hended haddress hprocess halive)
  | @gone record todo vmAddress process hboot hended haddress hprocess hdead hok =>
    refine of_up (hhost.markEnded _ _) ?_
    refine hup.restoreEnded hboot (endedInfo record.info ⟨now, .agentDown⟩) rfl
      (Host.later_rows _) ?_ ?_ record.log
    · intro other hne
      exact (lookup_markEnded ..).trans (if_neg hne)
    · intro name vmAddress process hlive
      exact hhost.live_of_markEnded hlive
  | unmarked | refused => exact down hhost
  | killAll hboot =>
    refine of_later hhost (hgo _ (by simp [hboot]) (by rw [hboot]; rfl))
      (Host.later_ite (Host.later_setObjects (Objects.procs_killAll_subset _))) ?_
    split <;> rfl
  | undo hboot =>
    refine of_later hhost (hgo _ (by simp [hboot]) (by rw [hboot]; rfl))
      (Host.later_ite (Host.later_setObjects fun p hp => ?_)) ?_
    · simpa using hp
    · split <;> rfl

theorem removeMove (hmove : up.RemoveMove host outcome next) : next.Sound subnet := by
  have hgo (removing : Option (Str × RemovePc)) {item}
      (hremoving : up.removing = some item) :
      AgentProcess.Sound subnet host { up with removing } :=
    hup.of_sameTasks ⟨rfl, rfl, rfl, rfl⟩ rfl fun hboot =>
      absurd (hup.ready_of_removing hremoving) hboot
  cases hmove with
  | snapshot hremoving hentry hparked =>
    exact of_later hhost (hgo _ hremoving) (Host.later_removeSnapshot _ _) rfl
  | noSnapshot hremoving | refused hremoving => exact of_up hhost (hgo _ hremoving)
  | @delete name hremoving hok =>
    refine of_up (hhost.delete name) ((hgo _ hremoving).of_host (Host.later_rows _) ?_ ?_)
    · intro record hrecord
      rw [AgentProcess.Sound.todo_of_ready (hup.ready_of_removing hremoving)] at hrecord
      cases hrecord
    · intro other vmAddress process hlive
      exact hhost.live_of_delete hlive
  | erase hremoving hentry =>
    exact of_up hhost (hup.eraseHistory (hup.ready_of_removing hremoving) hentry)

theorem launchMove (hlaunch : up.agent.launches[task]? = some launch)
    (hpc : up.launching[task]? = some (pc, vm))
    (hmove : up.LaunchMove host task outcome now launch pc vm next) : next.Sound subnet := by
  cases hmove with
  | handOver hpc' hunlocked hagent =>
    exact of_up hhost (hup.handOver hlaunch hpc (by rw [hpc']; rfl) hagent)
  | giveUp hpc' hunlocked hend | lose hpc' hunlocked hkind hend =>
    exact of_up hhost (hup.endLaunch hpc (by rw [hpc']; rfl) hend)
  | effect hstep => exact hup.launchEffect hhost hlaunch hpc hstep

theorem superviseMove {reason pc}
    (hsup : up.agent.supervisors[task]? = some name) (hpc : up.supervising[task]? = some (pc, vm))
    (hmove : up.SuperviseMove host task outcome reason now name pc vm next) :
    next.Sound subnet := by
  cases hmove with
  | @record why agent hpc' hunlocked hagent =>
    have hup' := hup.endSupervisor hsup hpc (by rw [hpc']; rfl) hagent
    split
    · refine of_up (hhost.markEnded _ _) (hup'.of_host (Host.later_rows _) ?_ ?_)
      · intro record hrecord
        refine (lookup_markEnded ..).trans (if_neg ?_)
        rintro rfl
        obtain ⟨info, log, hentry, -⟩ := hup.owned.supervisor_entry hsup
        rw [hup.todo.absent hrecord] at hentry
        cases hentry
      · intro other vmAddress process hlive
        exact (hhost.live_of_markEnded hlive).2
    · exact of_up hhost hup'
  | @effect pc' vm' view' hstep =>
    have hdone := Vm.supervised hstep
    have hlater : host.Later (host.put name vm.vmAddress view') :=
      Host.later_put fun p hp => .inl (hdone.procs p hp)
    have hrows : (host.put name vm.vmAddress view').rows = host.rows := by
      refine ExtTreeMap.ext_getElem? fun other => ?_
      rw [Host.rows_put, hdone.row]
      split
      · rename_i heq
        rw [heq]
        rfl
      · rfl
    refine of_up (hhost.of_same_rows hlater hrows) ?_
    refine (hup.of_same_rows hhost hlater hrows).setSupervising hpc hdone.vmAddress
      hdone.process fun htorn process hprocess hwas => ?_
    rcases hdone.torn htorn with hpc | hkilled
    · exact hwas hpc
    · rw [Bool.eq_false_iff, Ne, Host.isRunning_iff, Host.objectsAt_put, if_pos rfl]
      exact hkilled process hprocess

theorem agentMove {event} (hmove : up.Move subnet host event next) : next.Sound subnet := by
  cases hmove with
  | starts hmove => exact bootMove hhost hup hmove
  | opens hboot =>
    refine of_up hhost (hup.of_sameTasks ?_ ?_ fun hnot => absurd rfl hnot)
    · exact ⟨rfl, rfl, rfl, rfl⟩
    · rw [hboot]
      rfl
  | begins hfrom hmove =>
    obtain ⟨hready, -, hreserves⟩ := hmove
    exact of_up hhost (hup.begin hready hreserves)
  | asked hready hpc htake =>
    refine of_up hhost (hup.setSupervising hpc rfl rfl fun htorn => ?_)
    rw [SupervisePc.torn_of_take htake] at htorn
    cases htorn
  | removing hready =>
    exact of_up hhost (hup.of_sameTasks ⟨rfl, rfl, rfl, rfl⟩ rfl
      fun hboot => absurd hready hboot)
  | removes hmove => exact removeMove hhost hup hmove
  | onMachines hready hsame =>
    exact of_up hhost (hup.of_sameTasks hsame rfl fun hboot => absurd hready hboot)
  | sigterm hready =>
    refine of_up hhost (hup.of_sameTasks ?_ rfl fun hboot => absurd hready hboot)
    exact ⟨rfl, rfl, rfl, rfl⟩
  | exits | crashes => exact down hhost
  | launches hlaunch hpc hmove => exact launchMove hhost hup hlaunch hpc hmove
  | supervises hsup hpc hmove => exact superviseMove hhost hup hsup hpc hmove

end

theorem step {event} (h : node.Sound subnet)
    (hstep : node.step subnet event = some next) : next.Sound subnet := by
  rcases step_eq_some hstep with ⟨vmAddress, process, -, rfl⟩ | ⟨-, -, rfl⟩ |
    ⟨up, hup, hmove⟩
  · have hlater : node.host.Later (node.host.setObjects vmAddress
        ((node.host.objectsAt (hostId vmAddress)).kill (some process))) :=
      Host.later_setObjects (Objects.procs_kill_subset _ _)
    exact ⟨h.host.of_same_rows hlater rfl, fun hup => (h.up hup).of_same_rows h.host hlater rfl⟩
  · exact of_up h.host .start
  · exact agentMove h.host (h.up hup) hmove

/-- The invariant holds in every state that a Node reaches. -/
theorem of_run {schedule}
    (hrun : run (System.step subnet) .fresh schedule = some node) : node.Sound subnet :=
  run_preserves_all (fun h hstep => h.step hstep) (fresh subnet) hrun

end System.Sound

/-! ## No two VMs share an address -/

/-- In every state that a Node reaches, over any number of agents: the addresses that
entries hold are VM addresses of the subnet, two names hold different ones and so have
different host objects and uids, and a VM is refused an address only when every one is
held. -/
theorem addresses_never_shared (subnet : Subnet) {schedule : List NodeEvent} {node : System}
    {up : AgentProcess} (hrun : run (System.step subnet) .fresh schedule = some node)
    (hup : node.up = some up) :
    (∀ (name : Str) (entry : Entry) (a : Ipv4Addr), up.agent.vms[name]? = some entry →
      entry.vmAddress = some a →
        subnet.nodeAddress.toNat < a.toNat ∧ a.toNat < subnet.broadcast.toNat) ∧
    (∀ (name other : Str) (entry entry' : Entry) (a b : Ipv4Addr), name ≠ other →
      up.agent.vms[name]? = some entry → up.agent.vms[other]? = some entry' →
      entry.vmAddress = some a → entry'.vmAddress = some b →
        a ≠ b ∧ hostId a ≠ hostId b ∧ vmUid a ≠ vmUid b) ∧
    ∀ error, freeVmAddress subnet up.agent.vms = .error error →
      ∀ a : Ipv4Addr, subnet.nodeAddress.toNat < a.toNat → a.toNat < subnet.broadcast.toNat →
        ∃ (name : Str) (entry : Entry), up.agent.vms[name]? = some entry ∧
          entry.vmAddress = some a := by
  have hheld := ((System.Sound.of_run hrun).up hup).held
  refine ⟨?_, ?_, ?_⟩
  · intro name entry a hentry haddress
    exact subnet.mem_vmAddresses.mp (hheld.mem hentry haddress)
  · intro name other entry entry' a b hne hentry hentry' haddress haddress'
    have hab : a ≠ b := by
      rintro rfl
      exact hne (hheld.unique hentry hentry' haddress haddress')
    exact ⟨hab, subnet.names_ne (hheld.mem hentry haddress) (hheld.mem hentry' haddress') hab⟩
  · intro error herror a hlow hhigh
    exact freeVmAddress_eq_error herror (subnet.mem_vmAddresses.mpr ⟨hlow, hhigh⟩)

/-- Two VMs start, and the agent crashes and starts again. -/
def restartSchedule : List NodeEvent :=
  NodeEvent.boots 2 ++ NodeEvent.starts "web" 0 ++ NodeEvent.starts "db" 2 ++
    .crash :: NodeEvent.boots 4

/-- The theorem applies: two VMs run on after a restart. -/
theorem addresses_distinct_after_restart :
    ∃ node up, run (System.step .sample) .fresh restartSchedule = some node ∧
      node.up = some up ∧
      ∀ (name other : Str) (entry entry' : Entry) (a b : Ipv4Addr), name ≠ other →
        up.agent.vms[name]? = some entry → up.agent.vms[other]? = some entry' →
        entry.vmAddress = some a → entry'.vmAddress = some b →
          a ≠ b ∧ hostId a ≠ hostId b ∧ vmUid a ≠ vmUid b := by
  obtain ⟨node, hrun, up, hup, -⟩ : ∃ node,
      run (System.step .sample) .fresh restartSchedule = some node ∧
      ∃ up, node.up = some up ∧ "web".toList ∈ up.agent.vms ∧ "db".toList ∈ up.agent.vms := by
    decide +kernel
  exact ⟨node, up, hrun, hup, (addresses_never_shared .sample hrun hup).2.1⟩

end Cirrocumulus.Node
