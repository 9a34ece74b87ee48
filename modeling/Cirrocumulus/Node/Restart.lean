/-
# A restart

What a crash leaves of a name is its row, and what the next agent makes of the name it
makes of the row. While statements of the database succeed, history has the row that
tells it, and so has what a launch set aside until the launch is recorded. An agent that
starts changes a row only when the VM's VMM is gone, and then for good, so it does not
matter how often a start is cut short.
-/

import Cirrocumulus.Node.Records

namespace Cirrocumulus.Node

open Lib

variable {vm : Vm} {before : Host} {schedule : List NodeEvent}

variable {subnet : Subnet} {node next : System} {event : NodeEvent} {name : Str}
  {s s' : Standing} {task now : Nat} {outcome : Outcome}

/-! ## Nothing comes to life -/

namespace AgentProcess

variable {host : Host} {up : AgentProcess}

theorem BootMove.later (hmove : up.BootMove subnet host outcome now next) :
    host.Later next.host := by
  cases hmove with
  | dropSnapshot => exact Host.later_removeSnapshot _ _
  | gone => exact Host.later_rows _
  | killAll => exact Host.later_ite (Host.later_setObjects (Objects.procs_killAll_subset _))
  | undo =>
    refine Host.later_ite (Host.later_setObjects fun p hp => ?_)
    rwa [Objects.procs_undo] at hp
  | _ => exact .refl host

theorem RemoveMove.later (hmove : up.RemoveMove host outcome next) : host.Later next.host := by
  cases hmove with
  | snapshot => exact Host.later_removeSnapshot _ _
  | delete => exact Host.later_rows _
  | _ => exact .refl host

theorem Move.later (hmove : up.Move subnet host event next) : host.Later next.host := by
  cases hmove with
  | starts hmove => exact hmove.later
  | removes hmove => exact hmove.later
  | begins hfrom hmove =>
    cases hmove
    exact .refl host
  | launches hlaunch hpc hmove =>
    cases hmove with
    | effect heffect => exact Host.later_put (Launch.stepped heffect).procs
    | _ => exact .refl host
  | supervises hsup hpc hmove =>
    cases hmove with
    | record => exact Host.later_rows _
    | effect heffect =>
      exact Host.later_put fun p hp => .inl ((Vm.supervised heffect).procs p hp)
  | opens | asked | removing | onMachines | sigterm | exits | crashes => exact .refl host

end AgentProcess

/-- No step brings a process to life that was there before. -/
theorem System.step_later (hstep : node.step subnet event = some next) :
    node.host.Later next.host := by
  rcases step_eq_some hstep with ⟨vmAddress, process, -, rfl⟩ | ⟨-, -, rfl⟩ |
    ⟨up, -, hmove⟩
  · exact Host.later_setObjects (Objects.procs_kill_subset _ _)
  · exact .refl node.host
  · exact hmove.later

theorem Host.Later.trans {host middle later : Host} (h : host.Later middle)
    (h' : middle.Later later) : host.Later later :=
  ⟨h.next_le.trans h'.next_le,
    fun hlt hrunning => h.running hlt (h'.running (hlt.trans_le h.next_le) hrunning)⟩

/-! ## The store -/

/-- The step is a statement of the state database. -/
def System.usesStore (node : System) : NodeEvent → Bool
  | .bootStep _ _ => node.up.any fun up => (up.boot matches .records (_ :: _))
  | .removeStep _ => node.up.any fun up => up.removing.any fun item => item.2 == .delete
  | .launch task _ _ => node.up.any fun up => up.launching[task]?.any fun item =>
    item.1 == .record || item.1 == .markLost
  | .supervise task _ _ _ => node.up.any fun up => up.supervising[task]?.any fun item =>
    (item.1 matches .record _)
  | _ => false

/-- Statements succeed. -/
def StoreSucceeds (node : System) (event : NodeEvent) : Prop :=
  node.usesStore event = true → event.outcome = .ok

instance : Decidable (StoreSucceeds node event) := inferInstanceAs (Decidable (_ → _))

theorem StoreSucceeds.record (h : StoreSucceeds node (.launch task outcome now)) {launch}
    (hs : node.Stands name (.launching task launch .record vm)) : outcome = .ok := by
  refine h ?_
  obtain ⟨up, hup, hlaunch, hname, hpc⟩ := hs.of_launching
  simp [System.usesStore, hup, hpc]

theorem StoreSucceeds.recordEnd {reason why}
    (h : StoreSucceeds node (.supervise task outcome reason now)) {info log}
    (hs : node.Stands name (.running task info log (.record why) vm)) : outcome = .ok := by
  refine h ?_
  obtain ⟨up, hup, hsup, hentry, hpc⟩ := hs.of_running
  simp [System.usesStore, hup, hpc]

/-! ## History and its row -/

/-- The row tells of a VM that has ended. -/
def TellsOf (name : Str) (row : Option Row) (old : Replaced) : Prop :=
  ∃ found, row = some found ∧ found.ended.isSome ∧ (found.record name).info = old.info ∧
    found.log = old.log

/-- A VM woke and can't be recorded. -/
def LaunchPc.lost : LaunchPc → Bool
  | .kill lost | .unwind lost => lost
  | .markLost | .lose _ => true
  | _ => false

/-- Where history is, set aside or not, the row tells of it. -/
def Standing.Told (name : Str) (row : Option Row) : Standing → Prop
  | .ended info log removal => removal ≠ some .erase → TellsOf name row ⟨info, log⟩
  | .launching _ launch pc _ => pc.lost = false ∧
      (pc.recorded = false → ∀ old, launch.setAside = some old → TellsOf name row old)
  | _ => True

/-- A launch whose VM can be recorded is not lost. -/
theorem Launch.lost_eq_false {launch : Launch} {fresh pc pc' vm' view view'}
    (h : launch.step fresh outcome now pc vm view = some (pc', vm', view'))
    (hpc : pc.lost = false) (hok : pc = .record → outcome = .ok) : pc'.lost = false := by
  cases effect_of_step h with
  | kill | undo => exact hpc
  | unrecorded hfailed => exact absurd (hok rfl) hfailed
  | loses | markLost => cases hpc
  | _ => rfl

theorem tellsOf_markEnded {row} {found : Row} {info log} (hrow : row = some found)
    (hinfo : (found.record name).info = info) (hlog : found.log = log) (ended : Ended) :
    TellsOf name (row.map (·.markEnded ended)) ⟨endedInfo info ended, log⟩ := by
  subst hrow hinfo hlog
  exact ⟨_, rfl, rfl, rfl, rfl⟩

theorem Standing.Told.step (hs : node.Stands name s)
    (hrecorded : s.Recorded name node.host.rows[name]?)
    (h : s.Told name node.host.rows[name]?) (hstore : StoreSucceeds node event)
    (hmove : NameMove node next name event s s') : s'.Told name next.host.rows[name]? := by
  cases hmove with
  | untouched hsame =>
    rw [hsame.row]
    exact h
  | down | loaded | unknown | adopted | handedOver | asked | superviseStep | erased => trivial
  | dropped hs hunowned hhost =>
    rcases hs with rfl | rfl <;> trivial
  | restored hhost hrow hended =>
    rw [hhost]
    exact fun _ => ⟨_, hrow, hended, rfl, rfl⟩
  | gone hhost hrow hended haddress hprocess hdead =>
    rw [hhost, lookup_markEnded, if_pos rfl]
    exact fun _ => tellsOf_markEnded hrow rfl rfl _
  | begun hname hhost =>
    refine ⟨rfl, fun _ old hold => ?_⟩
    rw [hold] at h
    rw [hhost]
    exact h (by simp)
  | @launchStep task now outcome launch pc pc' vm vm' hname hstep =>
    obtain ⟨hlost, haside⟩ := h
    have hok : pc = .record → outcome = .ok := by
      rintro rfl
      exact hstore.record hs
    have hlost' := Launch.lost_eq_false hstep hlost hok
    refine ⟨hlost', ?_⟩
    change _ → ∀ old, _ → TellsOf name (next.host.view name launch.vmAddress).row old
    generalize next.host.view name launch.vmAddress = view' at hstep
    cases (Launch.stepped hstep).row with
    | same hrow hstarted hvm =>
      rw [hrow]
      intro hpc' old hold
      exact haside ((congrArg Option.isSome hstarted).symm.trans hpc') old hold
    | recorded hok hprocess => exact fun hpc' => by cases hpc'
    | lost hok => cases hlost
  | @gaveUp task now outcome launch vm hname hhost =>
    rw [hhost]
    cases haside : launch.setAside with
    | none => trivial
    | some old => exact fun _ => h.2 rfl old haside
  | lost hname hhost hkind => cases h.1
  | @recorded task now outcome reason why info log vm hhost =>
    obtain ⟨-, found, hfound, hrecord⟩ := hrecorded
    rw [hhost, hstore.recordEnd hs]
    dsimp only
    rw [if_pos rfl, lookup_markEnded, if_pos rfl]
    exact fun _ => tellsOf_markEnded hfound (by rw [hrecord]) (congrArg Record.log hrecord) _
  | removing hhost | unsnapped hparked hhost | notParked hparked hhost | undeleted hfailed hhost =>
    rw [hhost]
    exact fun _ => h (by simp)
  | deleted hok hhost => exact fun hremoval => absurd rfl hremoval

/-- While statements succeed, history has its row. -/
theorem System.told_of_run (hrun : run (step subnet) .fresh schedule = some node)
    (hstore : Along (step subnet) StoreSucceeds .fresh schedule)
    (hs : node.Stands name s) : s.Told name node.host.rows[name]? := by
  have hboth := (Reached.fresh subnet).preserves_from_down
    (fun node s => s.Recorded name node.host.rows[name]? ∧ s.Told name node.host.rows[name]?)
    (fun _ hok _ hs h hmove => ⟨h.1.step hmove, h.2.step hs h.1 hok hmove⟩) rfl
    ⟨trivial, trivial⟩ hstore hrun hs
  exact hboth.2

/-! ## An agent that starts -/

namespace AgentProcess

variable {host : Host} {up : AgentProcess}

theorem BootMove.not_ready (hmove : up.BootMove subnet host outcome now next) : ¬ next.Ready := by
  rintro ⟨after, hafter, hready⟩
  cases hmove <;> cases hafter <;> cases hready

/-- What an agent does before its socket is open: its start, and its supervisors' work. -/
inductive StartMove (subnet : Subnet) (up : AgentProcess) (host : Host) (next : System) :
    NodeEvent → Prop
  | bootStep {outcome : Outcome} {now} (hmove : up.BootMove subnet host outcome now next) :
      StartMove subnet up host next (.bootStep outcome now)
  | supervise {task now outcome reason name pc vm} (hsup : up.agent.supervisors[task]? = some name)
      (hpc : up.supervising[task]? = some (pc, vm))
      (hmove : up.SuperviseMove host task outcome reason now name pc vm next) :
      StartMove subnet up host next (.supervise task outcome reason now)
  | gone {event : NodeEvent} (hevent : event = .exit ∨ event = .crash)
      (hnext : next = ⟨host, none⟩) : StartMove subnet up host next event

theorem Sound.startMove (h : up.Sound subnet host) (hboot : up.boot ≠ .ready)
    (hopen : ∀ machines, event ≠ .openSocket machines) (hmove : up.Move subnet host event next) :
    StartMove subnet up host next event := by
  have hlaunches := (h.booting hboot).1
  cases hmove with
  | starts hmove => exact .bootStep hmove
  | opens => exact absurd rfl (hopen _)
  | begins hfrom hmove =>
    obtain ⟨hready, -⟩ := hmove
    exact absurd hready hboot
  | asked hready | removing hready | onMachines hready | sigterm hready =>
    exact absurd hready hboot
  | removes hmove => cases hmove <;> exact absurd (h.ready_of_removing ‹_›) hboot
  | exits => exact .gone (.inl rfl) rfl
  | launches hlaunch => cases (hlaunches _).symm.trans hlaunch
  | supervises hsup hpc hmove => exact .supervise hsup hpc hmove
  | crashes => exact .gone (.inr rfl) rfl

end AgentProcess

/-- An agent opens its socket by the step of that name alone. -/
theorem System.Sound.not_ready (h : node.Sound subnet) (hready : ¬ node.Ready)
    (hopen : ∀ machines, event ≠ .openSocket machines)
    (hstep : node.step subnet event = some next) : ¬ next.Ready := by
  rcases step_eq_some hstep with ⟨vmAddress, process, -, rfl⟩ | ⟨-, -, rfl⟩ |
    ⟨up, hup, hstep⟩
  · exact hready
  · rintro ⟨up, hup, hready⟩
    cases hup
    cases hready
  · have hboot : up.boot ≠ .ready := fun hboot => hready ⟨up, hup, hboot⟩
    cases (h.up hup).startMove hboot hopen hstep with
    | bootStep hmove => exact hmove.not_ready
    | supervise hsup hpc hmove =>
      rintro ⟨after, hafter, hready⟩
      cases hmove <;> cases hafter <;> exact hboot hready
    | gone hevent hnext =>
      rintro ⟨after, hafter, -⟩
      rw [hnext] at hafter
      cases hafter

/-- The rule for one name while agents start, over any number of them. -/
theorem System.Reached.preserves_from_start {ok} (inv : System → Standing → Prop) {down}
    (hdown : down.Reached subnet) (hnone : down.up = none)
    (hkeep : ∀ {node event next s s'}, node.Reached subnet → ¬ node.Ready → ok node event →
      (∀ machines, event ≠ .openSocket machines) → node.step subnet event = some next →
      node.Stands name s → s.Recorded name node.host.rows[name]? → inv node s →
      NameMove node next name event s s' → inv next s')
    (hstart : inv down .down)
    (hopen : ∀ event ∈ schedule, ∀ machines, event ≠ .openSocket machines)
    (hok : Along (System.step subnet) ok down schedule)
    (hrun : run (System.step subnet) down schedule = some node)
    (hs : node.Stands name s) : inv node s := by
  have hquiet : Along (System.step subnet)
      (fun _ event => ∀ machines, event ≠ .openSocket machines) down schedule :=
    .of_forall fun event hevent _ => hopen event hevent
  have hall := hdown.preserves_from_down
    (fun node s => ¬ node.Ready ∧ s.Recorded name node.host.rows[name]? ∧ inv node s)
    (fun hnode hok hstep hs ⟨hready, hrecorded, h⟩ hmove =>
      ⟨hnode.sound.not_ready hready hok.2 hstep, hrecorded.step hmove,
        hkeep hnode hready hok.1 hok.2 hstep hs hrecorded h hmove⟩)
    hnone ⟨System.not_ready_of_none hnone, trivial, hstart⟩ (hok.and hquiet) hrun hs
  exact hall.2.2

/-- The row records that a VM runs, at an address and with a VMM. -/
structure Host.RunningRow (host : Host) (name : Str) (row : Row) (vmAddress : Ipv4Addr)
    (process : ProcessId) : Prop where
  found : host.rows[name]? = some row
  ended : row.ended = none
  vmAddress : row.vmAddress = some vmAddress
  process : row.process = some process

/-- What has become of a name's row since the agent crashed: nothing, or its VM's VMM is
gone and the row says so. -/
inductive RowSince (before host : Host) (name : Str) : Prop
  | same (hsame : host.rows[name]? = before.rows[name]?)
  | marked {row vmAddress process ended} (hbefore : before.RunningRow name row vmAddress process)
      (hrow : host.rows[name]? = some (row.markEnded ended))
      (hdead : host.isRunning vmAddress process = false) (hreason : ended.reason = .agentDown ∨
        before.isRunning vmAddress process ∧ ended.reason.natural)

/-- A supervisor that nobody asked for anything. -/
def SupervisePc.unasked : SupervisePc → Bool
  | .watch => true
  | .kill reason | .unwind reason | .record reason => reason.natural
  | _ => false

/-- Where the next agents stand with a name since the agent crashed. -/
def Standing.Since (before host : Host) (name : Str) : Standing → Prop
  | .down | .loading => RowSince before host name
  | .absent => before.rows[name]? = none ∧ host.rows[name]? = none
  | .ended info log removal => removal = none ∧ RowSince before host name ∧
      TellsOf name host.rows[name]? ⟨info, log⟩
  | .launching _ _ _ _ => False
  | .running _ _ _ pc vm => host.rows[name]? = before.rows[name]? ∧ pc.unasked = true ∧
      ∀ process, vm.process = some process → before.isRunning vm.vmAddress process = true

theorem SupervisePc.unasked_step {reason pc pc' vm' view view'}
    (h : vm.supervise outcome reason pc view = some (pc', vm', view'))
    (hpc : pc.unasked) : pc'.unasked := by
  cases Vm.effect_of_supervise h with
  | ends hdead hnatural => exact hnatural
  | kill | undo | undone => exact hpc
  | _ => cases hpc

theorem RowSince.later {host later} (h : RowSince before host name)
    (hsound : before.Sound subnet) (hsince : before.Later host) (hlater : host.Later later)
    (hrow : later.rows[name]? = host.rows[name]?) : RowSince before later name := by
  cases h with
  | same hsame => exact .same (hrow.trans hsame)
  | marked hbefore hmarked hdead hreason =>
    have hlt := (hsound.valid hbefore.found).process_lt hbefore.process
    exact .marked hbefore (hrow.trans hmarked)
      (hlater.dead (hlt.trans_le hsince.next_le) hdead) hreason

/-- A row of a VM that runs is as it was. -/
theorem RowSince.eq_of_running {host} (h : RowSince before host name) {row}
    (hrow : host.rows[name]? = some row) (hended : row.ended = none) :
    before.rows[name]? = some row := by
  cases h with
  | same hsame => exact hsame.symm.trans hrow
  | marked hbefore hmarked hdead hreason =>
    cases hmarked.symm.trans hrow
    cases hended

theorem Standing.Since.step (hbefore : before.Sound subnet) (hnode : node.Reached subnet)
    (hready : ¬ node.Ready) (hsince : before.Later node.host) (hlater : node.host.Later next.host)
    (hs : node.Stands name s) (hrecorded : s.Recorded name node.host.rows[name]?)
    (h : s.Since before node.host name) (hstore : StoreSucceeds node event)
    (hmove : NameMove node next name event s s') : s'.Since before next.host name := by
  have hrow (hrows : next.host.rows[name]? = node.host.rows[name]?)
      (h : RowSince before node.host name) : RowSince before next.host name :=
    h.later hbefore hsince hlater hrows
  cases hmove with
  | untouched hsame =>
    cases s with
    | down | loading => exact hrow hsame.row h
    | absent => exact ⟨h.1, hsame.row.trans h.2⟩
    | ended info log removal =>
      refine ⟨h.1, hrow hsame.row h.2.1, ?_⟩
      rw [hsame.row]
      exact h.2.2
    | launching task launch pc vm => exact h
    | running task info log pc vm => exact ⟨hsame.row.trans h.1, h.2⟩
  | down hhost hdown hcrash =>
    refine hrow (by rw [hhost]) ?_
    cases s with
    | down => exact h
    | loading => exact h
    | absent => exact .same (h.2.trans h.1.symm)
    | ended info log removal => exact h.2.1
    | launching task launch pc vm => exact h.elim
    | running task info log pc vm => exact .same h.1
  | loaded hhost hfound => exact hrow (by rw [hhost]) h
  | unknown hhost hnone =>
    rw [hhost]
    refine ⟨?_, hnone⟩
    cases h with
    | same hsame => exact hsame.symm.trans hnone
    | marked hfound hmarked hdead hreason =>
      rw [hmarked] at hnone
      cases hnone
  | dropped hs hunowned hhost =>
    rcases hs with rfl | rfl
    · exact hrow (by rw [hhost]; rfl) h
    · rw [hhost]
      exact h
  | restored hhost hfound hended =>
    refine ⟨rfl, hrow (by rw [hhost]) h, ?_⟩
    rw [hhost]
    exact ⟨_, hfound, hended, rfl, rfl⟩
  | adopted hhost hfound hended haddress hprocess halive =>
    have hsame := RowSince.eq_of_running h hfound hended
    rw [hhost]
    refine ⟨hfound.trans hsame.symm, rfl, fun process hsome => ?_⟩
    cases hsome
    exact hsince.running ((hbefore.valid hsame).process_lt hprocess) halive
  | @gone outcome now row vmAddress process hhost hfound hended haddress hprocess hdead =>
    have hsame := RowSince.eq_of_running h hfound hended
    have hmarked : next.host.rows[name]? = some (row.markEnded ⟨now, .agentDown⟩) := by
      rw [hhost, lookup_markEnded, if_pos rfl, hfound]
      rfl
    have hlt := (hbefore.valid hsame).process_lt hprocess
    refine ⟨rfl, .marked ⟨hsame, hended, haddress, hprocess⟩ hmarked
      (hlater.dead (hlt.trans_le hsince.next_le) hdead) (.inl rfl), ?_⟩
    rw [hmarked]
    exact ⟨_, rfl, rfl, rfl, rfl⟩
  | begun hname hhost hup hboot => exact absurd ⟨_, hup, hboot⟩ hready
  | launchStep | handedOver | gaveUp | lost => exact h.elim
  | asked hhost hopen | removing hhost hopen => exact absurd hopen hready
  | superviseStep hstep =>
    have hdone := Vm.supervised hstep
    refine ⟨Eq.trans hdone.row h.1, SupervisePc.unasked_step hstep h.2.1, ?_⟩
    rw [hdone.process, hdone.vmAddress]
    exact h.2.2
  | @recorded task now outcome reason why info log vm hhost =>
    obtain ⟨hsame, hnatural, halive⟩ := h
    obtain ⟨hended, found, hfound, hrecord⟩ := hrecorded
    have hok := hstore.recordEnd hs
    have hmarked : next.host.rows[name]? = some (found.markEnded ⟨now, why⟩) := by
      rw [hhost]
      dsimp only
      rw [if_pos hok, lookup_markEnded, if_pos rfl, hfound]
      rfl
    have hsound := hnode.superviseSound hs
    obtain ⟨process, hprocess, hlt, hdead⟩ := hsound.process
    refine ⟨rfl, .marked ⟨hsame.symm.trans hfound, ?_, ?_, ?_⟩ hmarked
      (hlater.dead hlt (hdead rfl)) (.inr ⟨halive process hprocess, hnatural⟩), ?_⟩
    · exact (congrArg (·.info.ended) hrecord).trans hended
    · exact (congrArg (·.info.vmAddress) hrecord).trans hsound.vmAddress
    · exact (congrArg Record.process hrecord).trans hprocess
    · rw [hmarked]
      exact tellsOf_markEnded rfl (by rw [hrecord]) (congrArg Record.log hrecord) _
  | unsnapped | notParked | deleted | undeleted | erased => cases h.1

/-- The agent is gone, and however often one starts and is gone again: as long as no one
opens its socket, every name stands as its row said. -/
theorem System.since_of_run {down : System} (hdown : down.Reached subnet) (hnone : down.up = none)
    (hopen : ∀ event ∈ schedule, ∀ machines, event ≠ .openSocket machines)
    (hstore : Along (System.step subnet) StoreSucceeds down schedule)
    (hrun : run (System.step subnet) down schedule = some node) (hs : node.Stands name s) :
    s.Since down.host node.host name := by
  have hall := hdown.preserves_from_start
    (fun node s => down.host.Later node.host ∧ s.Since down.host node.host name) hnone
    (fun hnode hready hok _ hstep hs hrecorded h hmove => by
      have hlater := System.step_later hstep
      exact ⟨h.1.trans hlater,
        h.2.step hdown.sound.host hnode hready h.1 hlater hs hrecorded hok hmove⟩)
    ⟨.refl _, .same rfl⟩ hopen hstore hrun hs
  exact hall.2

end Cirrocumulus.Node
