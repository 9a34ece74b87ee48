/-
# Whose VMMs run

Of the VMMs that run on a Node, some ran before its agent started. Each of the others is
that of a task: of a launch that has not killed it, or of a supervisor, whose VM has a
row. So once no launch is left, every VMM that this agent started has its row.
-/

import Cirrocumulus.Node.Places
import Cirrocumulus.Node.Records

namespace Cirrocumulus.Node

/-- The launch has not spawned its VMM. -/
def LaunchPc.unspawned : LaunchPc → Bool
  | .addNetns | .spawnJailer => true
  | _ => false

/-- The launch has killed its VMM. -/
def LaunchPc.killed : LaunchPc → Bool
  | .unwind _ | .giveUp | .markLost | .lose _ => true
  | _ => false

/-- The VMMs at a task's address are `known`, or the task's own. -/
def Standing.Accounts (known : ProcessId → Prop) (procs : List ProcessId) : Standing → Prop
  | .launching _ _ pc vm =>
    (∀ p ∈ procs, known p ∨ vm.process = some p ∧ pc.killed = false) ∧
    (pc.unspawned = true → vm.process = none)
  | .running _ _ _ _ vm => ∀ p ∈ procs, known p ∨ vm.process = some p
  | _ => True

/-- At an address at which nobody works, all VMMs are `known`. -/
def Holder.Accounts (known : ProcessId → Prop) (procs : List ProcessId) : Holder → Prop
  | some (_, s) => s.Accounts known procs
  | none => ∀ p ∈ procs, known p

variable {subnet : Subnet} {host before : Host} {node next : System} {event : NodeEvent}
  {name : Str} {s s' : Standing} {a : Ipv4Addr} {task now : Nat} {outcome : Outcome}
  {vm vm' : Vm} {view view' : View} {known : ProcessId → Prop}

/-! ## What a launch does to its VMM -/

/-- A step that spawns no VMM. -/
structure Launch.Quiet (pc : LaunchPc) (vm : Vm) (view : View) (pc' : LaunchPc) (vm' : Vm)
    (view' : View) : Prop where
  process : vm'.process = vm.process
  procs : ∀ p ∈ view'.objects.procs, p ∈ view.objects.procs
  unspawned : pc'.unspawned → vm.process = none ∨ pc.unspawned
  killed : pc'.killed → pc.killed ∨ ∀ p, vm.process = some p → p ∉ view'.objects.procs

/-- A launch spawns its VMM in one step, and kills it in one. -/
theorem Launch.quiet_or_spawns {launch : Launch} {fresh pc pc'}
    (hstep : launch.step fresh outcome now pc vm view = some (pc', vm', view')) :
    Launch.Quiet pc vm view pc' vm' view' ∨
      pc = .spawnJailer ∧ pc' = .addLinks ∧ vm'.process = some fresh ∧
        ∀ p ∈ view'.objects.procs, p ∈ view.objects.procs ∨ p = fresh := by
  -- Where a step leads to a place at which nothing is said of the VMM.
  have hquiet {pc₁ pc₂ vm₂ view₂}
      (hpc : pc₂.unspawned = false ∧ pc₂.killed = false) (hprocess : vm₂.process = vm.process)
      (hprocs : ∀ p ∈ view₂.objects.procs, p ∈ view.objects.procs) :
      Launch.Quiet pc₁ vm view pc₂ vm₂ view₂ := by
    refine ⟨hprocess, hprocs, fun hpc' => ?_, fun hpc' => ?_⟩
    · cases hpc.1.symm.trans hpc'
    · cases hpc.2.symm.trans hpc'
  have hfails {pc₁ pc₂ vm₂ view₂}
      (hpc : pc₂.unspawned = false ∧ pc₂.killed = false)
      (hfailure : Launch.Failure outcome vm view pc₁ vm₂ view₂) :
      Launch.Quiet pc₁ vm view pc₂ vm₂ view₂ := by
    refine hquiet hpc hfailure.failed.process ?_
    rw [hfailure.failed.procs]
    exact fun p hp => hp
  cases Launch.effect_of_step hstep with
  | addNetns =>
    exact .inl ⟨rfl, fun p hp => hp, fun _ => .inr rfl, fun hpc' => (by cases hpc')⟩
  | spawnJailer =>
    exact .inr ⟨rfl, rfl, rfl, fun p hp => by simpa [Objects.spawn, or_comm] using hp⟩
  | addLinks | starts | wakes | copyRootfs | boot | notMovedIn | movedIn | loadSnapshot | record |
    unrecorded | tidy | notMovedBack | movedBack =>
      exact .inl (hquiet ⟨rfl, rfl⟩ rfl fun p hp => hp)
  | moveIn hok hmoved =>
    obtain ⟨files, inJail, -, -, rfl⟩ := View.moveIn_eq_some hmoved
    exact .inl (hquiet ⟨rfl, rfl⟩ rfl fun p hp => hp)
  | moveBack hok hroot hmoved =>
    obtain ⟨files, inJail, -, -, rfl⟩ := View.moveOut_eq_some hmoved
    exact .inl (hquiet ⟨rfl, rfl⟩ rfl fun p hp => hp)
  | kill =>
    refine .inl ⟨rfl, view.objects.procs_kill_subset _, fun hpc' => (by cases hpc'),
      fun _ => .inr fun p hp => ?_⟩
    rw [hp]
    exact view.objects.not_mem_procs_kill p
  | undo hundo =>
    refine .inl ⟨rfl, fun p hp => ?_, fun hpc' => (by cases hpc'), fun _ => .inl rfl⟩
    split at hp
    · rwa [Objects.procs_undo] at hp
    · exact hp
  | givesUp | loses | markLost =>
    exact .inl ⟨rfl, fun p hp => hp, fun hpc' => (by cases hpc'), fun _ => .inl rfl⟩
  | fails hkind hfailure | failsToWake hkind hfailure => exact .inl (hfails ⟨rfl, rfl⟩ hfailure)

theorem Launch.accounts_step {launch : Launch} {fresh pc pc'} (task : Nat)
    (hstep : launch.step fresh outcome now pc vm view = some (pc', vm', view'))
    (h : (Standing.launching task launch pc vm).Accounts known view.objects.procs) :
    (Standing.launching task launch pc' vm').Accounts known view'.objects.procs := by
  obtain ⟨hprocs, hnone⟩ := h
  rcases Launch.quiet_or_spawns hstep with hquiet | ⟨rfl, rfl, hfresh, hsub⟩
  · refine ⟨fun p hp => ?_, fun hpc' => ?_⟩
    · rcases hprocs p (hquiet.procs p hp) with hknown | ⟨hprocess, hpc⟩
      · exact .inl hknown
      · refine .inr ⟨hquiet.process.trans hprocess, ?_⟩
        rw [Bool.eq_false_iff]
        intro hpc'
        rcases hquiet.killed hpc' with hkilled | hdead
        · cases hpc.symm.trans hkilled
        · exact hdead p hprocess hp
    · rw [hquiet.process]
      rcases hquiet.unspawned hpc' with hprocess | hpc
      · exact hprocess
      · exact hnone hpc
  · refine ⟨fun p hp => ?_, fun hpc' => by cases hpc'⟩
    rcases hsub p hp with hold | rfl
    · rcases hprocs p hold with hknown | ⟨hprocess, -⟩
      · exact .inl hknown
      · cases (hnone rfl).symm.trans hprocess
    · exact .inr ⟨hfresh, rfl⟩

/-! ## Runs of one agent -/

/-- On a Node whose agent started on `before`, every VMM is known from there or a task's. -/
structure System.Accounted (subnet : Subnet) (before : Host) (node : System) : Prop where
  reached : node.Reached subnet
  recorded : ∀ {name s}, node.Stands name s → s.Recorded name node.host.rows[name]?
  places : node.up.isSome → ∀ {a holder}, a ∈ subnet.vmAddresses → node.Occupied a holder →
    Holder.Accounts (before.isRunning a ·) (node.host.objectsAt (hostId a)).procs holder

/-- An agent starts. -/
theorem System.Reached.accounted (h : node.Reached subnet)
    (hrecorded : ∀ {name s}, node.Stands name s → s.Recorded name node.host.rows[name]?)
    (hstep : node.step subnet .boot = some next) : next.Accounted subnet node.host := by
  have hnext := h.step hstep
  have hrecorded' {name s} (hs : next.Stands name s) :
      s.Recorded name next.host.rows[name]? := by
    obtain ⟨s₀, hs₀, hmove⟩ := h.nameMove hstep hs
    exact (hrecorded hs₀).step hmove
  obtain ⟨-, rfl⟩ := System.boot_eq_some hstep
  refine ⟨hnext, hrecorded', fun _ {a holder} _ hholder => ?_⟩
  cases hholder with
  | nobody => exact fun p hp => Host.isRunning_iff.mpr hp
  | somebody hs hat =>
    cases hs.of_up with
    | loading | absent | ended => cases hat
    | launching hlaunch => simp [AgentProcess.start, Agent.empty] at hlaunch
    | running hsup => simp [AgentProcess.start, Agent.empty] at hsup

theorem Standing.Accounts.mono {procs later} (h : s.Accounts known procs)
    (hsub : ∀ p ∈ later, p ∈ procs) : s.Accounts known later := by
  cases s with
  | launching task launch pc vm => exact ⟨fun p hp => h.1 p (hsub p hp), h.2⟩
  | running task info log pc vm => exact fun p hp => h p (hsub p hp)
  | _ => trivial

theorem Holder.Accounts.mono {holder procs later} (h : Holder.Accounts known procs holder)
    (hsub : ∀ p ∈ later, p ∈ procs) : Holder.Accounts known later holder := by
  cases holder with
  | none => exact fun p hp => h p (hsub p hp)
  | some holder => exact Standing.Accounts.mono h hsub

/-- A task that leaves has no VMM: its launch killed it, or its supervisor knows that it is
dead. -/
theorem System.Reached.known_of_leaves (h : node.Reached subnet) (hs : node.Stands name s)
    (hat : s.vmAddress = some a) (hleaves : s.leaves)
    (haccounts : s.Accounts known (node.host.objectsAt (hostId a)).procs) :
    ∀ p ∈ (node.host.objectsAt (hostId a)).procs, known p := by
  intro p hp
  cases s with
  | launching task launch pc vm =>
    refine (haccounts.1 p hp).resolve_right fun hown => ?_
    have hkilled : pc.killed := by
      cases pc <;> first | rfl | cases hleaves
    cases hown.2.symm.trans hkilled
  | running task info log pc vm =>
    refine (haccounts p hp).resolve_right fun hprocess => ?_
    obtain ⟨process, hfound, -, hdead⟩ := (h.superviseSound hs).process
    cases hat
    cases hprocess.symm.trans hfound
    have htorn : pc.torn := by
      cases pc <;> first | rfl | cases hleaves
    cases (hdead htorn).symm.trans (Host.isRunning_iff.mpr hp)
  | _ => cases hat

/-- What a step does at one address. -/
theorem PlaceMove.accounts {holder holder'} (h : PlaceMove node next a event holder holder')
    (hnode : node.Reached subnet) (hholder : node.Occupied a holder) (hup : next.up.isSome)
    (haccounts : Holder.Accounts known (node.host.objectsAt (hostId a)).procs holder) :
    Holder.Accounts known (next.host.objectsAt (hostId a)).procs holder' := by
  cases h with
  | rests hrests => exact haccounts.mono hrests.procs
  | swept hup' hsweep hobjects =>
    intro p hp
    apply haccounts
    rcases hobjects with hobjects | ⟨step, hobjects⟩
    · rw [hobjects] at hp
      exact Objects.procs_killAll_subset _ p hp
    · rwa [hobjects, Objects.procs_undo] at hp
  | begun hlaunch hhost hready =>
    rw [hhost]
    exact ⟨fun p hp => .inl (haccounts p hp), fun _ => rfl⟩
  | adopted hhost =>
    rw [hhost]
    exact fun p hp => .inl (haccounts p hp)
  | @launchStep task now outcome launch pc pc' vm vm' hlaunch heffect =>
    subst hlaunch
    exact Launch.accounts_step task heffect haccounts
  | handedOver hhost =>
    rw [hhost]
    exact fun p hp => (haccounts.1 p hp).imp_right And.left
  | asked hhost htake =>
    rw [hhost]
    exact haccounts
  | superviseStep hvm heffect =>
    subst hvm
    have hdone := Vm.supervised heffect
    intro p hp
    rw [hdone.process]
    exact haccounts p (hdone.procs p hp)
  | released hleaves hobjects =>
    rw [hobjects]
    cases hholder with
    | somebody hs hat => exact hnode.known_of_leaves hs hat hleaves haccounts
  | down hhost hdown =>
    rw [hdown] at hup
    cases hup

theorem System.Accounted.step (h : node.Accounted subnet before) (hevent : event ≠ .boot)
    (hstep : node.step subnet event = some next) : next.Accounted subnet before := by
  refine ⟨h.reached.step hstep, fun hs => ?_, fun hup {a holder'} ha hholder' => ?_⟩
  · obtain ⟨s₀, hs₀, hmove⟩ := h.reached.nameMove hstep hs
    exact (h.recorded hs₀).step hmove
  · have hbefore : node.up.isSome := by
      rcases System.step_eq_some hstep with ⟨_, _, -, rfl⟩ | ⟨hboot, -⟩ | ⟨up, hup, -⟩
      · exact hup
      · exact absurd hboot hevent
      · rw [hup]
        rfl
    obtain ⟨holder, hholder, hmove⟩ := h.reached.placeMove ha hstep hholder'
    exact hmove.accounts h.reached hholder hup (h.places hbefore ha hholder)

/-- Every VMM that was not running on `before` is that of a row. -/
def Host.AllRecorded (subnet : Subnet) (host before : Host) : Prop :=
  ∀ ⦃a p⦄, a ∈ subnet.vmAddresses → host.isRunning a p = true → before.isRunning a p = false →
    ∃ (name : Str) (row : Row), host.rows[name]? = some row ∧ row.ended = none ∧
      row.vmAddress = some a ∧ row.process = some p

/-- An agent with no launch left has recorded every VMM it started. -/
theorem System.Accounted.allRecorded (h : node.Accounted subnet before) {up}
    (hup : node.up = some up) (hnone : ∀ task : Nat, up.agent.launches[task]? = none) :
    node.host.AllRecorded subnet before := by
  intro a p ha hrunning hnew
  have hp := Host.isRunning_iff.mp hrunning
  obtain ⟨holder, hholder⟩ := node.exists_occupied a
  have haccounts := h.places (by rw [hup]; rfl) ha hholder
  cases hholder with
  | nobody hfree => cases hnew.symm.trans (haccounts p hp)
  | @somebody name s hs hat =>
    have hrecorded := h.recorded hs
    cases hs with
    | down => cases hat
    | up hup' hs =>
      cases hup.symm.trans hup'
      cases hs with
      | loading | absent | ended => cases hat
      | launching hlaunch => cases (hnone _).symm.trans hlaunch
      | @running task info log pc vm hsup hentry hpc =>
        rcases haccounts p hp with hknown | hprocess
        · cases hnew.symm.trans hknown
        · obtain ⟨pc₀, vm₀, info₀, log₀, hpc₀, hentry₀, hsound⟩ :=
            (h.reached.sound.up hup).supervising hsup
          cases hpc.symm.trans hpc₀
          cases hentry.symm.trans hentry₀
          obtain ⟨hended, row, hrow, hrecord⟩ := hrecorded
          have hended' : row.ended = info.ended := congrArg (·.info.ended) hrecord
          have haddress' : row.vmAddress = info.vmAddress := congrArg (·.info.vmAddress) hrecord
          have hprocess' : row.process = vm.process := congrArg (·.process) hrecord
          exact ⟨name, row, hrow, hended'.trans hended,
            haddress'.trans (hsound.vmAddress.trans hat), hprocess'.trans hprocess⟩

end Cirrocumulus.Node
