/-
# Entries, tunnels and processes

How the three fit together in every reachable state: the tunnel of an entry is one made
for it that was not aborted, every tunnel that was not aborted is the tunnel of an entry,
and a process belongs to the tunnel that started it. A link that says the host key changed
is the last thing its task wrote.
-/

import Cirrocumulus.Ssh.Moves

namespace Cirrocumulus.Ssh

open Std (ExtTreeMap)
open Lib Option

variable {id : Nat} {machine : Machine} {tunnel : Tunnel} {name : Str}

/-- The `ssh` that a task has started and not accounted for yet. -/
def TunnelPc.process : TunnelPc → Option Nat
  | .reading process _ | .waiting process _ => some process
  | .noting process _ => process
  | .loop | .sleeping | .finished | .dropped => none

/-- Every entry has a tunnel of its own, and no other tunnel goes on. -/
structure Machines.Wired (machines : Machines) : Prop where
  named : machines.Named
  tunnel_lt : ∀ {id : Nat} {tunnel}, machines.tunnels[id]? = some tunnel →
    id < machines.nextTunnel ∧ tunnel.first < machines.nextTunnel
  entry : ∀ {name : Str} {machine}, machines.entries[name]? = some machine →
    ∃ tunnel, machines.tunnels[machine.tunnel]? = some tunnel ∧
      tunnel.record = machine.record ∧ tunnel.first = machine.first ∧ tunnel.aborted = false
  current : ∀ {id : Nat} {tunnel}, machines.tunnels[id]? = some tunnel →
    tunnel.aborted = false →
      ∃ (name : Str) (machine : Machine), machines.entries[name]? = some machine ∧
        machine.tunnel = id
  first_inj : ∀ {name other : Str} {machine machine'},
    machines.entries[name]? = some machine → machines.entries[other]? = some machine' →
      machine.first = machine'.first → name = other

/-- Every process belongs to the tunnel that started it. -/
structure Machines.Tended (machines : Machines) : Prop where
  process_lt : ∀ {id : Nat} {ssh}, machines.processes[id]? = some ssh →
    id < machines.nextProcess
  process : ∀ {id : Nat} {ssh}, machines.processes[id]? = some ssh →
    ∃ tunnel, machines.tunnels[ssh.tunnel]? = some tunnel ∧ ssh.first = tunnel.first ∧
      ssh.forwards = tunnel.forwards
  pc : ∀ {id process : Nat} {tunnel}, machines.tunnels[id]? = some tunnel →
    tunnel.pc.process = some process →
      ∃ ssh, machines.processes[process]? = some ssh ∧ ssh.tunnel = id
  link : ∀ {id : Nat} {tunnel}, machines.tunnels[id]? = some tunnel →
    tunnel.link.hostKeyChanged →
      tunnel.link.status = .unreachable ∧ (tunnel.pc = .finished ∨ tunnel.pc = .dropped)

theorem Machines.lookup_disconnectAll (machines : Machines) (id : Nat) :
    machines.disconnectAll.tunnels[id]? = machines.tunnels[id]?.map
      (.abortIf (machines.entries.toList.any fun item => item.2.tunnel == id)) := by
  refine ExtTreeMap.getElem?_map.trans ?_
  cases machines.entries.toList.any fun item => item.2.tunnel == id <;> rfl

/-! ## Entries and tunnels -/

namespace Machines.Wired

theorem start (stored : Stored) (lines : List Str) : (Machines.start stored lines).Wired := by
  refine ⟨?_, ?_, ?_, ?_, ?_⟩ <;> simp [Machines.start, Machines.Named]

variable {ok : Machines → Event → Prop} {machines next : Machines} (h : machines.Wired)
include h

theorem fresh : machines.tunnels[machines.nextTunnel]? = none := by
  cases htunnel : machines.tunnels[machines.nextTunnel]? with
  | none => rfl
  | some tunnel => exact absurd (h.tunnel_lt htunnel).1 (Nat.lt_irrefl _)

section

variable (hentry : machines.entries[name]? = some machine)
include hentry

theorem entry_lt : machine.tunnel < machines.nextTunnel := by
  obtain ⟨tunnel, htunnel, -⟩ := h.entry hentry
  exact (h.tunnel_lt htunnel).1

theorem first_lt : machine.first < machines.nextTunnel := by
  obtain ⟨tunnel, htunnel, -, hfirst, -⟩ := h.entry hentry
  rw [← hfirst]
  exact (h.tunnel_lt htunnel).2

/-- Two entries have different tunnels. -/
theorem tunnel_inj {other machine'} (hother : machines.entries[other]? = some machine')
    (heq : machine.tunnel = machine'.tunnel) : name = other := by
  obtain ⟨tunnel, htunnel, hrecord, -⟩ := h.entry hentry
  obtain ⟨tunnel', htunnel', hrecord', -⟩ := h.entry hother
  rw [heq] at htunnel
  cases htunnel.symm.trans htunnel'
  rw [← h.named hentry, ← h.named hother, ← hrecord, ← hrecord']

theorem runsFor_eq_false {other} (hne : name ≠ other) :
    machines.runsFor other machine.tunnel = false := by
  cases hother : machines.entries[other]? with
  | none => simp [runsFor, hother]
  | some found =>
    have htunnel : machine.tunnel ≠ found.tunnel := fun heq => hne (h.tunnel_inj hentry hother heq)
    simp [runsFor, hother, htunnel]

end

/-- The tunnels that go on for one Machine are one. -/
theorem eq_of_first {other} (htunnel : machines.tunnels[id]? = some tunnel)
    (hruns : tunnel.aborted = false) (htunnel' : machines.tunnels[other]? = some tunnel')
    (hruns' : tunnel'.aborted = false) (hfirst : tunnel.first = tunnel'.first) : id = other := by
  obtain ⟨name, machine, hentry, rfl⟩ := h.current htunnel hruns
  obtain ⟨name', machine', hentry', rfl⟩ := h.current htunnel' hruns'
  obtain ⟨found, hfound, -, hthis, -⟩ := h.entry hentry
  obtain ⟨found', hfound', -, hthis', -⟩ := h.entry hentry'
  cases htunnel.symm.trans hfound
  cases htunnel'.symm.trans hfound'
  have hname : name = name' := h.first_inj hentry hentry' (by rw [← hthis, ← hthis', hfirst])
  rw [hname] at hentry
  cases hentry.symm.trans hentry'
  rfl

/-- Nothing happens to an entry or a tunnel. -/
theorem of_eq (hentries : next.entries = machines.entries)
    (htunnels : next.tunnels = machines.tunnels) (hnext : next.nextTunnel = machines.nextTunnel) :
    next.Wired := by
  refine ⟨?_, ?_, ?_, ?_, ?_⟩
  · unfold Machines.Named
    rw [hentries]
    exact h.named
  · rw [htunnels, hnext]
    exact h.tunnel_lt
  · rw [hentries, htunnels]
    exact h.entry
  · rw [hentries, htunnels]
    exact h.current
  · rw [hentries]
    exact h.first_inj

theorem setTunnel (htunnel : machines.tunnels[id]? = some tunnel)
    (link : Link) (pc : TunnelPc) (wait : Nat) :
    (machines.setTunnel id { tunnel with link, pc, wait }).Wired where
  named := h.named
  tunnel_lt := by
    intro other found hfound
    have hlt := h.tunnel_lt htunnel
    exact forall_insert hlt h.tunnel_lt hfound
  entry := by
    intro name machine hentry
    refine exists_insert_and (h.entry hentry) fun hfound howner => ?_
    cases htunnel.symm.trans hfound
    exact howner
  current := fun hfound => forall_insert
    (fun hruns => h.current htunnel hruns) h.current hfound
  first_inj := h.first_inj

/-- An entry goes on with the same tunnel. -/
theorem setEntry {old}
    (hupdates : machines.Updates old machine) : (machines.setEntry machine).Wired where
  named := fun hfound => forall_insert rfl h.named hfound
  tunnel_lt := h.tunnel_lt
  entry := by
    intro name found hfound
    have hentry := h.entry hupdates.entry
    rw [← hupdates.tunnel, ← hupdates.record, ← hupdates.first] at hentry
    exact forall_insert hentry h.entry hfound
  current := by
    intro id tunnel htunnel hruns
    obtain ⟨name, found, hfound, hid⟩ := h.current htunnel hruns
    simp only [Machines.setEntry, lookup_insert]
    by_cases heq : name = machine.record.name
    · rw [heq, hupdates.record, hupdates.entry] at hfound
      cases hfound
      exact ⟨name, machine, if_pos heq, hupdates.tunnel.trans hid⟩
    · exact ⟨name, found, by rw [if_neg heq, hfound], hid⟩
  first_inj := by
    intro name other found found' hfound hfound' hfirst
    have hold : machines.entries[machine.record.name]? = some old := by
      rw [hupdates.record]
      exact hupdates.entry
    refine unique_insert (R := fun a b => a.first = b.first) h.first_inj
      (fun hne hother => ⟨fun hsame => ?_, fun hsame => ?_⟩) hfound hfound' hfirst
    · exact hne (h.first_inj hother hold (hsame.symm.trans hupdates.first))
    · exact hne (h.first_inj hother hold (hsame.trans hupdates.first))

/-- An entry gets a new tunnel, and the tunnel that it had is aborted. -/
theorem installs {forwards} (hinstalls : machines.Installs machine forwards next)
    (hfirst : machine.first ≤ machines.nextTunnel)
    (hother : ∀ {name : Str} {found}, machines.entries[name]? = some found →
      name ≠ machine.record.name → found.first ≠ machine.first) : next.Wired := by
  have hnext : next.nextTunnel = machines.nextTunnel + 1 := by rw [hinstalls.next_eq]
  refine ⟨?_, ?_, ?_, ?_, ?_⟩
  · intro name found hfound
    rw [hinstalls.entries] at hfound
    split at hfound
    · rename_i heq
      cases hfound
      exact heq.symm
    · exact h.named hfound
  · intro id found hfound
    rw [hinstalls.tunnels] at hfound
    rw [hnext]
    split at hfound
    · rename_i heq
      cases hfound
      exact ⟨by omega, Nat.lt_succ_of_le hfirst⟩
    · obtain ⟨before, hbefore, rfl⟩ := map_eq_some_iff.mp hfound
      obtain ⟨hid, hold⟩ := h.tunnel_lt hbefore
      exact ⟨hid.trans (Nat.lt_succ_self _), hold.trans (Nat.lt_succ_self _)⟩
  · intro name found hfound
    rw [hinstalls.entries] at hfound
    split at hfound
    · cases hfound
      rw [hinstalls.tunnels, if_pos hinstalls.tunnel]
      exact ⟨_, rfl, rfl, rfl, rfl⟩
    · rename_i hne
      obtain ⟨before, hbefore, hrecord, hthis, hruns⟩ := h.entry hfound
      have hkept := h.runsFor_eq_false hfound hne
      rw [hinstalls.tunnels, if_neg (h.entry_lt hfound).ne, hbefore, map_some, hkept]
      exact ⟨before, rfl, hrecord, hthis, hruns⟩
  · intro id found hfound hruns
    rw [hinstalls.tunnels] at hfound
    split at hfound
    · rename_i heq
      refine ⟨machine.record.name, machine, ?_, hinstalls.tunnel.trans heq.symm⟩
      rw [hinstalls.entries, if_pos rfl]
    · obtain ⟨before, hbefore, rfl⟩ := map_eq_some_iff.mp hfound
      obtain ⟨hkept, hruns⟩ := Bool.or_eq_false_iff.mp hruns
      obtain ⟨name, owner, howner, rfl⟩ := h.current hbefore hruns
      refine ⟨name, owner, ?_, rfl⟩
      rw [hinstalls.entries, if_neg, howner]
      rintro rfl
      simp [runsFor, howner] at hkept
  · intro name other found found' hfound hfound' hsame
    rw [hinstalls.entries] at hfound hfound'
    split at hfound
    · rename_i heq
      cases hfound
      split at hfound'
      · rename_i heq'
        rw [heq, heq']
      · rename_i hne
        exact absurd hsame.symm (hother hfound' hne)
    · rename_i hne
      split at hfound'
      · cases hfound'
        exact absurd hsame (hother hfound hne)
      · exact h.first_inj hfound hfound' hsame

/-- Entries go, and their tunnels are aborted. -/
theorem drops (gone : Str → Bool) (cut : Nat → Bool)
    (hcut : ∀ {name : Str} {machine}, machines.entries[name]? = some machine →
      cut machine.tunnel = gone name) (hentries : ∀ name : Str, next.entries[name]? =
      if gone name then none else machines.entries[name]?)
    (htunnels : ∀ id : Nat, next.tunnels[id]? = machines.tunnels[id]?.map (.abortIf (cut id)))
    (hnext : next.nextTunnel = machines.nextTunnel) : next.Wired := by
  have hstays {name : Str} {machine} (hfound : next.entries[name]? = some machine) :
      gone name = false ∧ machines.entries[name]? = some machine := by
    rw [hentries] at hfound
    split at hfound
    · cases hfound
    · rename_i hgone
      exact ⟨Bool.eq_false_iff.mpr hgone, hfound⟩
  refine ⟨fun hfound => h.named (hstays hfound).2, ?_, ?_, ?_, ?_⟩
  · intro id found hfound
    rw [htunnels] at hfound
    obtain ⟨before, hbefore, rfl⟩ := map_eq_some_iff.mp hfound
    have hlt := h.tunnel_lt hbefore
    rw [hnext]
    exact hlt
  · intro name machine hfound
    obtain ⟨hgone, hentry⟩ := hstays hfound
    obtain ⟨before, hbefore, hsame⟩ := h.entry hentry
    refine ⟨before, ?_, hsame⟩
    rw [htunnels, hbefore, map_some, hcut hentry, hgone]
    rfl
  · intro id found hfound hruns
    rw [htunnels] at hfound
    obtain ⟨before, hbefore, rfl⟩ := map_eq_some_iff.mp hfound
    obtain ⟨hkept, hruns⟩ := Bool.or_eq_false_iff.mp hruns
    obtain ⟨name, machine, hentry, rfl⟩ := h.current hbefore hruns
    refine ⟨name, machine, ?_, rfl⟩
    rw [hentries, ← hcut hentry, hkept, if_neg Bool.false_ne_true, hentry]
  · intro name other machine machine' hfound hfound' hfirst
    exact h.first_inj (hstays hfound).2 (hstays hfound').2 hfirst

theorem removed (hentry : machines.entries[name]? = some machine) :
    ({ machines.abort machine.tunnel with entries := machines.entries.erase name } :
      Machines).Wired := by
  refine h.drops (fun other => other == name) (fun id => id = machine.tunnel) ?_ ?_
    (lookup_abort _) ?_
  · intro other found hfound
    rw [Bool.eq_iff_iff, decide_eq_true_eq, beq_iff_eq]
    constructor
    · exact h.tunnel_inj hfound hentry
    · rintro rfl
      cases hfound.symm.trans hentry
      rfl
  · intro other
    simp only [lookup_erase, beq_iff_eq]
  · rw [abort_eq]

theorem disconnected : machines.disconnectAll.Wired := by
  refine h.drops (fun _ => true)
    (fun id => machines.entries.toList.any fun item => item.2.tunnel == id) ?_ ?_ ?_ rfl
  · intro name machine hentry
    rw [List.any_eq_true]
    exact ⟨(name, machine), mem_items.mpr hentry, beq_self_eq_true _⟩
  · intro name
    simp [disconnectAll]
  · exact lookup_disconnectAll machines

theorem of_move (hmove : Move ok machines next) : next.Wired := by
  cases hmove with
  | books | opened | written | unwritten | checked | printed | exited =>
    exact h.of_eq rfl rfl rfl
  | connected hinstalls hfirst =>
    refine h.installs hinstalls hfirst.le ?_
    intro name found hfound _ heq
    have hlt := h.first_lt hfound
    omega
  | restarted hinstalls hentry hrecord hfirst =>
    refine h.installs hinstalls ?_ ?_
    · rw [hfirst]
      exact (h.first_lt hentry).le
    · intro name found hfound hne heq
      rw [hrecord] at hne
      exact hne (h.first_inj hfound hentry (heq.trans hfirst))
  | reassigned hupdates | fewerApps hupdates => exact h.setEntry hupdates
  | removed hentry => exact h.removed hentry
  | disconnected => exact h.disconnected
  | task htunnel hstep wait => exact (h.setTunnel htunnel _ _ wait).of_eq rfl rfl rfl

end Machines.Wired

/-! ## Tunnels and processes -/

namespace Machines.Tended

theorem start (stored : Stored) (lines : List Str) : (Machines.start stored lines).Tended := by
  refine ⟨?_, ?_, ?_, ?_⟩ <;> simp [Machines.start]

variable {ok : Machines → Event → Prop} {machines next : Machines} (h : machines.Tended)
include h

/-- Tunnels go on as they were, and new ones have done nothing. -/
theorem of_tunnels (hold : ∀ {id : Nat} {tunnel}, machines.tunnels[id]? = some tunnel →
      ∃ tunnel', next.tunnels[id]? = some tunnel' ∧ tunnel'.first = tunnel.first ∧
        tunnel'.forwards = tunnel.forwards)
    (hnew : ∀ {id : Nat} {tunnel'}, next.tunnels[id]? = some tunnel' →
      tunnel'.pc = .loop ∧ tunnel'.link = .fresh ∨
        ∃ tunnel, machines.tunnels[id]? = some tunnel ∧ tunnel'.pc = tunnel.pc ∧
          tunnel'.link = tunnel.link) (hprocesses : next.processes = machines.processes)
    (hnext : next.nextProcess = machines.nextProcess) : next.Tended := by
  refine ⟨?_, ?_, ?_, ?_⟩
  · rw [hprocesses, hnext]
    exact h.process_lt
  · intro id ssh hssh
    rw [hprocesses] at hssh
    obtain ⟨tunnel, htunnel, hfirst, hforwards⟩ := h.process hssh
    obtain ⟨tunnel', htunnel', hfirst', hforwards'⟩ := hold htunnel
    exact ⟨tunnel', htunnel', hfirst.trans hfirst'.symm, hforwards.trans hforwards'.symm⟩
  · intro id process tunnel' htunnel' hpc
    rw [hprocesses]
    rcases hnew htunnel' with ⟨hloop, -⟩ | ⟨tunnel, htunnel, hsame, -⟩
    · rw [hloop] at hpc
      cases hpc
    · rw [hsame] at hpc
      exact h.pc htunnel hpc
  · intro id tunnel' htunnel' hchanged
    rcases hnew htunnel' with ⟨-, hfresh⟩ | ⟨tunnel, htunnel, hpc, hlink⟩
    · rw [hfresh] at hchanged
      cases hchanged
    · rw [hlink] at hchanged ⊢
      rw [hpc]
      exact h.link htunnel hchanged

/-- Nothing happens to a tunnel or a process. -/
theorem of_eq (htunnels : next.tunnels = machines.tunnels)
    (hprocesses : next.processes = machines.processes)
    (hnext : next.nextProcess = machines.nextProcess) : next.Tended := by
  refine h.of_tunnels ?_ ?_ hprocesses hnext
  · intro id tunnel htunnel
    rw [htunnels]
    exact ⟨tunnel, htunnel, rfl, rfl⟩
  · intro id tunnel htunnel
    rw [htunnels] at htunnel
    exact .inr ⟨tunnel, htunnel, rfl, rfl⟩

/-- Some tunnels are aborted. -/
theorem aborts (cut : Nat → Bool)
    (htunnels : ∀ id : Nat, next.tunnels[id]? = machines.tunnels[id]?.map (.abortIf (cut id)))
    (hprocesses : next.processes = machines.processes)
    (hnext : next.nextProcess = machines.nextProcess) : next.Tended := by
  refine h.of_tunnels ?_ ?_ hprocesses hnext
  · intro id tunnel htunnel
    rw [htunnels, htunnel]
    exact ⟨_, rfl, rfl, rfl⟩
  · intro id tunnel' htunnel'
    rw [htunnels] at htunnel'
    obtain ⟨tunnel, htunnel, rfl⟩ := map_eq_some_iff.mp htunnel'
    exact .inr ⟨tunnel, htunnel, rfl, rfl⟩

theorem installs {forwards} (hinstalls : machines.Installs machine forwards next)
    (hfresh : machines.tunnels[machines.nextTunnel]? = none) : next.Tended := by
  have hprocesses : next.processes = machines.processes := by rw [hinstalls.next_eq]
  have hnext : next.nextProcess = machines.nextProcess := by rw [hinstalls.next_eq]
  refine h.of_tunnels ?_ ?_ hprocesses hnext
  · intro id tunnel htunnel
    have hne : id ≠ machines.nextTunnel := by
      rintro rfl
      cases htunnel.symm.trans hfresh
    rw [hinstalls.tunnels, if_neg hne, htunnel]
    exact ⟨_, rfl, rfl, rfl⟩
  · intro id tunnel' htunnel'
    rw [hinstalls.tunnels] at htunnel'
    split at htunnel'
    · cases htunnel'
      exact .inl ⟨rfl, rfl⟩
    · obtain ⟨tunnel, htunnel, rfl⟩ := map_eq_some_iff.mp htunnel'
      exact .inr ⟨tunnel, htunnel, rfl, rfl⟩

/-- A process goes on. -/
theorem setProcess {ssh ssh'} (hssh : machines.processes[id]? = some ssh)
    (htunnel : ssh'.tunnel = ssh.tunnel) (hfirst : ssh'.first = ssh.first)
    (hforwards : ssh'.forwards = ssh.forwards) : (machines.setProcess id ssh').Tended where
  process_lt := fun hfound => forall_insert (h.process_lt hssh) h.process_lt hfound
  process := by
    intro other found hfound
    have hprocess := h.process hssh
    rw [← htunnel, ← hfirst, ← hforwards] at hprocess
    exact forall_insert hprocess h.process hfound
  pc := by
    intro other process tunnel hfound hpc
    refine exists_insert_and (h.pc hfound hpc) fun hprocess howner => ?_
    cases hssh.symm.trans hprocess
    exact htunnel.trans howner
  link := h.link

section

variable (htunnel : machines.tunnels[id]? = some tunnel)
include htunnel

/-- A task goes on, with no `ssh` that is not its own. -/
theorem setTunnel {link pc} (wait : Nat) (hpc : ∀ {process}, pc.process = some process →
      ∃ ssh, machines.processes[process]? = some ssh ∧ ssh.tunnel = id)
    (hlink : link.hostKeyChanged →
      link.status = .unreachable ∧ (pc = .finished ∨ pc = .dropped)) :
    (machines.setTunnel id { tunnel with link, pc, wait }).Tended where
  process_lt := h.process_lt
  process := by
    intro process ssh hssh
    refine exists_insert_and (h.process hssh) fun hfound howner => ?_
    cases htunnel.symm.trans hfound
    exact howner
  pc := fun hfound => forall_insert hpc h.pc hfound
  link := fun hfound => forall_insert hlink h.link hfound

/-- A task starts a process. -/
theorem addProcess : ({ machines.setProcess machines.nextProcess
        ⟨id, tunnel.first, tunnel.forwards, [], [], [], true⟩ with
      nextProcess := machines.nextProcess + 1 } : Machines).Tended where
  process_lt := fun hfound => forall_insert (Nat.lt_succ_self _)
    (fun hfound => (h.process_lt hfound).trans (Nat.lt_succ_self _)) hfound
  process := fun hfound => forall_insert ⟨tunnel, htunnel, rfl, rfl⟩ h.process hfound
  pc := by
    intro other process found hfound hprocess
    obtain ⟨ssh, hssh, howner⟩ := h.pc hfound hprocess
    exact ⟨ssh, (lookup_insert_of_ne _ (h.process_lt hssh).ne).trans hssh, howner⟩
  link := h.link

/-- The link of a task that has not returned does not say that the host key changed. -/
theorem hostKeyChanged_eq_false (hfinished : tunnel.pc ≠ .finished)
    (hdropped : tunnel.pc ≠ .dropped) : tunnel.link.hostKeyChanged = false := by
  cases hchanged : tunnel.link.hostKeyChanged with
  | false => rfl
  | true =>
    rcases (h.link htunnel hchanged).2 with hpc | hpc
    · exact absurd hpc hfinished
    · exact absurd hpc hdropped

theorem task {link pc processes nextProcess}
    (hstep : TaskStep ok machines id tunnel link pc processes nextProcess) (wait : Nat) :
    ({ machines.setTunnel id { tunnel with link, pc, wait } with
      processes, nextProcess } : Machines).Tended := by
  have hfalse := h.hostKeyChanged_eq_false htunnel
  cases hstep with
  | unspawned hpc | stopped _ hpc | reaped hpc | wokeUp hpc =>
    refine h.setTunnel htunnel wait (fun hprocess => h.pc htunnel ?_) fun hchanged => ?_
    · rw [hpc]
      exact hprocess
    · cases (hfalse (by simp [hpc]) (by simp [hpc])).symm.trans hchanged
  | spawned hpc =>
    refine (h.addProcess htunnel).setTunnel htunnel wait (fun hprocess => ?_) fun hchanged => ?_
    · cases hprocess
      exact ⟨_, (lookup_insert ..).trans (if_pos rfl), rfl⟩
    · cases (hfalse (by simp [hpc]) (by simp [hpc])).symm.trans hchanged
  | @heard process ended ended' ssh line unread link hpc hssh hunread hlink =>
    have hread : (machines.setProcess process { ssh with unread }).Tended :=
      h.setProcess hssh rfl rfl rfl
    refine hread.setTunnel htunnel wait (fun hprocess => hread.pc htunnel ?_) fun hchanged => ?_
    · rw [hpc]
      exact hprocess
    · rcases hlink with rfl | rfl
      · cases (hfalse (by simp [hpc]) (by simp [hpc])).symm.trans hchanged
      · cases hchanged
  | noted =>
    refine h.setTunnel htunnel wait (fun hprocess => ?_) fun hchanged => ?_
    · split at hprocess <;> cases hprocess
    · exact ⟨rfl, .inl (if_pos hchanged)⟩
  | dropped =>
    refine h.setTunnel htunnel wait (fun hprocess => ?_) fun hchanged => ?_
    · cases hprocess
    · exact ⟨(h.link htunnel hchanged).1, .inr rfl⟩

end

theorem of_move (hfresh : machines.tunnels[machines.nextTunnel]? = none)
    (hmove : Move ok machines next) : next.Tended := by
  cases hmove with
  | books | opened | written | unwritten | reassigned | fewerApps => exact h.of_eq rfl rfl rfl
  | connected hinstalls | restarted hinstalls => exact h.installs hinstalls hfresh
  | @removed name machine hentry =>
    refine h.aborts (fun id => id = machine.tunnel) (lookup_abort _) ?_ ?_
    · rw [abort_eq]
    · rw [abort_eq]
  | disconnected => exact h.aborts _ (lookup_disconnectAll machines) rfl rfl
  | task htunnel hstep wait => exact h.task htunnel hstep wait
  | checked hssh | printed hssh | exited hssh => exact h.setProcess hssh rfl rfl rfl

end Machines.Tended

/-! ## Runs -/

/-- Entries, tunnels and processes fit together. -/
structure Machines.Coherent (machines : Machines) : Prop where
  wired : machines.Wired
  tended : machines.Tended

namespace Machines.Coherent

variable {ok : Machines → Event → Prop} {machines next : Machines}

theorem start (stored : Stored) (lines : List Str) : (Machines.start stored lines).Coherent :=
  ⟨.start stored lines, .start stored lines⟩

theorem of_move (h : machines.Coherent) (hmove : Move ok machines next) : next.Coherent :=
  ⟨h.wired.of_move hmove, h.tended.of_move h.wired.fresh hmove⟩

theorem moves_of_step (h : machines.Coherent) {event} (hok : ok machines event)
    (hstep : machines.step event = some next) : Moves ok machines next :=
  Machines.moves_of_step ⟨h.wired.named, h.wired.fresh, h.wired.entry_lt⟩ hok hstep

/-- What every move keeps holds along every schedule that keeps its promise. -/
theorem run_of_moves (inv : Machines → Prop)
    (hkeep : ∀ {machines next}, machines.Coherent → inv machines → Move ok machines next →
      inv next) {schedule} (h : machines.Coherent) (hinv : inv machines)
    (hok : Along step ok machines schedule)
    (hrun : run step machines schedule = some next) : next.Coherent ∧ inv next := by
  have hmoves {machines next} (hboth : machines.Coherent ∧ inv machines)
      (hchain : Moves ok machines next) : next.Coherent ∧ inv next := by
    induction hchain with
    | refl => exact hboth
    | tail _ hmove ih => exact ⟨ih.1.of_move hmove, hkeep ih.1 ih.2 hmove⟩
  have hstep {machines} {event} {next} (hevent : ok machines event)
      (hboth : machines.Coherent ∧ inv machines) (hstep : machines.step event = some next) :
      next.Coherent ∧ inv next :=
    hmoves hboth (hboth.1.moves_of_step hevent hstep)
  have hend := run_preserves hstep ⟨h, hinv⟩ hok hrun
  exact hend

theorem step (h : machines.Coherent) {event} (hstep : machines.step event = some next) :
    next.Coherent := by
  have hrun : run Machines.step machines [event] = some next :=
    run_cons_eq_some.mpr ⟨next, hstep, rfl⟩
  have hok : Along Machines.step (fun _ _ => True) machines [event] := .trivial
  exact (run_of_moves _ (fun _ _ _ => trivial) h trivial hok hrun).1

end Machines.Coherent

end Cirrocumulus.Ssh
