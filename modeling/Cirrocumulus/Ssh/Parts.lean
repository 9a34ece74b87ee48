/-
# What a move does to one part

A move changes at most one entry and at most one process, and of the tunnels it changes
one, makes one, or aborts some. Each part that is there after a move is traced back to
what it was before.
-/

import Cirrocumulus.Ssh.Wired

namespace Cirrocumulus.Ssh

open Lib List Option

variable {id : Nat} {tunnel : Tunnel} {ssh : SshProcess}

/-- Where a process comes from. -/
inductive SshMove (ok : Machines → Event → Prop) (machines : Machines) (id : Nat) :
    SshProcess → Prop
  | kept {ssh : SshProcess} (hssh : machines.processes[id]? = some ssh) : SshMove ok machines id ssh
  | spawned {number tunnel} (hid : id = machines.nextProcess)
      (htunnel : machines.tunnels[number]? = some tunnel) :
      SshMove ok machines id ⟨number, tunnel.first, tunnel.forwards, [], [], [], true⟩
  | heard {ssh line unread} (hssh : machines.processes[id]? = some ssh)
      (hunread : ssh.unread = line :: unread) : SshMove ok machines id { ssh with unread }
  | checked {ssh : SshProcess} (hssh : machines.processes[id]? = some ssh) (key : Str)
      (hok : ok machines (.check id key)) :
      SshMove ok machines id { ssh with
        reads := ssh.reads ++ [(machines.knownHosts.lines, key)] }
  | printed {ssh : SshProcess} (hssh : machines.processes[id]? = some ssh) (line : Str)
      (hok : ok machines (.print id line)) :
      SshMove ok machines id { ssh with
        printed := ssh.printed ++ [line], unread := ssh.unread ++ [line] }
  | exited {ssh : SshProcess} (hssh : machines.processes[id]? = some ssh) :
      SshMove ok machines id { ssh with running := false }

/-- Where a tunnel comes from. -/
inductive TunnelMove (ok : Machines → Event → Prop) (machines : Machines) (id : Nat) :
    Tunnel → Prop
  | created (hid : id = machines.nextTunnel) (record : MachineRecord) (first : Nat)
      (forwards : List (Nat × Nat)) :
      TunnelMove ok machines id ⟨record, first, forwards, .fresh, .loop, retryFirst, false⟩
  /-- It goes on, or is aborted. -/
  | kept {tunnel : Tunnel} (htunnel : machines.tunnels[id]? = some tunnel) (cut : Bool) :
      TunnelMove ok machines id (tunnel.abortIf cut)
  | task {tunnel link pc processes nextProcess} (htunnel : machines.tunnels[id]? = some tunnel)
      (hstep : TaskStep ok machines id tunnel link pc processes nextProcess) (wait : Nat) :
      TunnelMove ok machines id { tunnel with link, pc, wait }

section

variable {ok : Machines → Event → Prop} {machines next : Machines}

section

variable (hmove : Move ok machines next)
include hmove

/-- The Machine of an entry stays the same, and a new one is pinned. -/
theorem Move.entry_inv {name : Str} {machine} (hentry : next.entries[name]? = some machine) :
    machine.first = machines.nextTunnel ∧ machine.record.pin ∈ machines.knownHosts.lines ∨
      ∃ old, machines.entries[name]? = some old ∧ machine.record = old.record ∧
        machine.first = old.first := by
  have hupdated {old machine'} (hupdates : machines.Updates old machine')
      (hfound : (machines.setEntry machine').entries[name]? = some machine) :
      ∃ old, machines.entries[name]? = some old ∧ machine.record = old.record ∧
        machine.first = old.first := by
    obtain ⟨heq, rfl⟩ | ⟨-, hfound⟩ := of_lookup_insert hfound
    · rw [heq, hupdates.record]
      exact ⟨old, hupdates.entry, rfl, hupdates.first⟩
    · exact ⟨machine, hfound, rfl, rfl⟩
  cases hmove with
  | books | opened | written | unwritten | task | checked | printed | exited =>
    exact .inr ⟨machine, hentry, rfl, rfl⟩
  | connected hinstalls hfirst hpin =>
    rw [hinstalls.entries] at hentry
    split at hentry
    · cases hentry
      exact .inl ⟨hfirst, hpin⟩
    · exact .inr ⟨machine, hentry, rfl, rfl⟩
  | @restarted old _ _ _ hinstalls hold hrecord hfirst =>
    rw [hinstalls.entries] at hentry
    split at hentry
    · rename_i heq
      cases hentry
      rw [heq, hrecord]
      exact .inr ⟨old, hold, rfl, hfirst⟩
    · exact .inr ⟨machine, hentry, rfl, rfl⟩
  | reassigned hupdates | fewerApps hupdates => exact .inr (hupdated hupdates hentry)
  | removed =>
    exact .inr ⟨machine, (of_lookup_erase hentry).2, rfl, rfl⟩
  | disconnected => simp [Machines.disconnectAll] at hentry

/-- One process changes at most. -/
theorem Move.processes : next.processes = machines.processes ∨
    ∃ id ssh, SshMove ok machines id ssh ∧ next.processes = machines.processes.insert id ssh := by
  cases hmove with
  | books | opened | written | unwritten | reassigned | fewerApps | disconnected => exact .inl rfl
  | connected hinstalls | restarted hinstalls => exact .inl (by rw [hinstalls.next_eq])
  | removed => exact .inl (by rw [abort_eq])
  | task htunnel hstep =>
    cases hstep with
    | spawned => exact .inr ⟨_, _, .spawned rfl htunnel, rfl⟩
    | heard hpc hssh hunread => exact .inr ⟨_, _, .heard hssh hunread, rfl⟩
    | unspawned | stopped | reaped | noted | wokeUp | dropped => exact .inl rfl
  | checked hssh _ key hok => exact .inr ⟨_, _, .checked hssh key hok, rfl⟩
  | printed hssh _ line hok => exact .inr ⟨_, _, .printed hssh line hok, rfl⟩
  | exited hssh => exact .inr ⟨_, _, .exited hssh, rfl⟩

theorem Move.process_inv (hssh : next.processes[id]? = some ssh) : SshMove ok machines id ssh := by
  rcases hmove.processes with heq | ⟨changed, ssh', hchange, heq⟩
  · rw [heq] at hssh
    exact .kept hssh
  · rw [heq] at hssh
    exact forall_insert hchange (fun hkept => .kept hkept) hssh

omit hmove in
/-- A process stays, and what it printed with it. -/
theorem Move.process_kept (htended : machines.Tended) (hmove : Move ok machines next)
    (hssh : machines.processes[id]? = some ssh) :
    ∃ ssh', next.processes[id]? = some ssh' ∧ ssh'.tunnel = ssh.tunnel ∧
      ssh'.first = ssh.first ∧ ssh.printed ⊆ ssh'.printed := by
  rcases hmove.processes with heq | ⟨changed, ssh', hchange, heq⟩
  · rw [heq]
    exact ⟨ssh, hssh, rfl, rfl, List.Subset.refl _⟩
  · rw [heq, lookup_insert]
    split
    · rename_i hid
      subst hid
      refine ⟨ssh', rfl, ?_⟩
      cases hchange with
      | spawned hid => exact absurd hid (htended.process_lt hssh).ne
      | kept hbefore | heard hbefore | checked hbefore | exited hbefore =>
        cases hssh.symm.trans hbefore
        exact ⟨rfl, rfl, List.Subset.refl _⟩
      | printed hbefore =>
        cases hssh.symm.trans hbefore
        exact ⟨rfl, rfl, subset_append_left _ _⟩
    · exact ⟨ssh, hssh, rfl, rfl, List.Subset.refl _⟩

theorem Move.tunnel_inv (htunnel : next.tunnels[id]? = some tunnel) :
    TunnelMove ok machines id tunnel := by
  have hcut {cut} (hfound : machines.tunnels[id]?.map (.abortIf cut) = some tunnel) :
      TunnelMove ok machines id tunnel := by
    obtain ⟨before, hbefore, rfl⟩ := map_eq_some_iff.mp hfound
    exact .kept hbefore cut
  have hkept (hfound : machines.tunnels[id]? = some tunnel) : TunnelMove ok machines id tunnel :=
    .kept hfound false
  cases hmove with
  | books | opened | written | unwritten | reassigned | fewerApps | checked | printed | exited =>
    exact hkept htunnel
  | connected hinstalls | restarted hinstalls =>
    rw [hinstalls.tunnels] at htunnel
    split at htunnel
    · rename_i hid
      cases htunnel
      exact .created hid _ _ _
    · exact hcut htunnel
  | removed =>
    rw [lookup_abort] at htunnel
    exact hcut htunnel
  | disconnected =>
    rw [Machines.lookup_disconnectAll] at htunnel
    exact hcut htunnel
  | task hbefore hstep wait =>
    obtain ⟨rfl, rfl⟩ | ⟨-, htunnel⟩ := of_lookup_insert htunnel
    · exact .task hbefore hstep wait
    · exact hkept htunnel

end

/-- A tunnel is for one Machine and one list of forwards. -/
theorem TunnelMove.same {tunnel'} (hmove : TunnelMove ok machines id tunnel')
    (hwired : machines.Wired) (htunnel : machines.tunnels[id]? = some tunnel) :
    tunnel'.record = tunnel.record ∧ tunnel'.first = tunnel.first ∧
      tunnel'.forwards = tunnel.forwards := by
  cases hmove with
  | created hid =>
    rw [hid, hwired.fresh] at htunnel
    cases htunnel
  | kept hbefore | task hbefore =>
    cases htunnel.symm.trans hbefore
    exact ⟨rfl, rfl, rfl⟩

end

/-! ## What a task heard -/

/-- What a task noted of its `ssh` so far. -/
def TunnelPc.ended : TunnelPc → Option SshEnded
  | .reading _ ended | .waiting _ ended | .noting _ ended => some ended
  | .loop | .sleeping | .finished | .dropped => none

/-- Some `ssh` of a tunnel has said that it can't verify the host key. -/
def Machines.Says (machines : Machines) (id : Nat) : Prop :=
  ∃ (process : Nat) (ssh : SshProcess), machines.processes[process]? = some ssh ∧
    ssh.tunnel = id ∧ hostKeyFailed ∈ ssh.printed

/-- A task has its word from its own `ssh`. -/
structure Machines.Heard (machines : Machines) : Prop where
  unread : ∀ {id : Nat} {ssh : SshProcess}, machines.processes[id]? = some ssh →
    ssh.unread ⊆ ssh.printed
  ended : ∀ {id : Nat} {tunnel : Tunnel} {ended : SshEnded},
    machines.tunnels[id]? = some tunnel → tunnel.pc.ended = some ended →
      ended.hostKeyChanged → machines.Says id
  link : ∀ {id : Nat} {tunnel : Tunnel}, machines.tunnels[id]? = some tunnel →
    tunnel.link.hostKeyChanged → machines.Says id

namespace Machines.Heard

variable {ok : Machines → Event → Prop} {machines next : Machines}

theorem start (stored : Stored) (lines : List Str) : (Machines.start stored lines).Heard := by
  refine ⟨?_, ?_, ?_⟩ <;> simp [Machines.start]

theorem says_of_move (htended : machines.Tended) (hmove : Move ok machines next)
    (h : machines.Says id) : next.Says id := by
  obtain ⟨process, ssh, hssh, htunnel, hprinted⟩ := h
  obtain ⟨ssh', hssh', htunnel', -, hsubset⟩ := hmove.process_kept htended hssh
  exact ⟨process, ssh', hssh', htunnel'.trans htunnel, hsubset hprinted⟩

variable (h : machines.Heard)
include h

/-- A line that a task reads is one that its `ssh` printed. -/
theorem says_of_unread (htended : machines.Tended) {process ended unread}
    (htunnel : machines.tunnels[id]? = some tunnel) (hpc : tunnel.pc = .reading process ended)
    (hssh : machines.processes[process]? = some ssh)
    (hunread : ssh.unread = hostKeyFailed :: unread) : machines.Says id := by
  have hprocess : tunnel.pc.process = some process := by
    rw [hpc]
    rfl
  obtain ⟨found, hfound, howner⟩ := htended.pc htunnel hprocess
  cases hssh.symm.trans hfound
  refine ⟨process, ssh, hssh, howner, h.unread hssh ?_⟩
  rw [hunread]
  exact mem_cons_self

theorem unread_of_move (hmove : Move ok machines next)
    (hssh : next.processes[id]? = some ssh) : ssh.unread ⊆ ssh.printed := by
  cases hmove.process_inv hssh with
  | kept hbefore | checked hbefore | exited hbefore =>
    have hkept := h.unread hbefore
    exact hkept
  | spawned => exact List.Subset.refl _
  | heard hbefore hunread =>
    intro line hline
    apply h.unread hbefore
    rw [hunread]
    exact mem_cons_of_mem _ hline
  | printed hbefore line =>
    intro found hfound
    rcases mem_append.mp hfound with hold | hnew
    · exact mem_append_left _ (h.unread hbefore hold)
    · exact mem_append_right _ hnew

theorem ended_of_move (htended : machines.Tended) (hmove : Move ok machines next) {ended}
    (htunnel : next.tunnels[id]? = some tunnel) (hended : tunnel.pc.ended = some ended)
    (hchanged : ended.hostKeyChanged) : machines.Says id := by
  cases hmove.tunnel_inv htunnel with
  | created => cases hended
  | kept hbefore => exact h.ended hbefore hended hchanged
  | task hbefore hstep =>
    cases hstep with
    | unspawned | spawned =>
      cases hended
      cases hchanged
    | heard hpc hssh hunread hlink hkey =>
      cases hended
      rcases hkey.mp hchanged with hold | rfl
      · exact h.ended hbefore (by rw [hpc]; rfl) hold
      · exact h.says_of_unread htended hbefore hpc hssh hunread
    | stopped _ hpc | reaped hpc =>
      refine h.ended hbefore ?_ hchanged
      rw [hpc]
      exact hended
    | noted => split at hended <;> cases hended
    | wokeUp | dropped => cases hended

theorem link_of_move (hmove : Move ok machines next) (htunnel : next.tunnels[id]? = some tunnel)
    (hchanged : tunnel.link.hostKeyChanged) : machines.Says id := by
  cases hmove.tunnel_inv htunnel with
  | created => cases hchanged
  | kept hbefore => exact h.link hbefore hchanged
  | task hbefore hstep =>
    cases hstep with
    | noted hpc => exact h.ended hbefore (by rw [hpc]; rfl) hchanged
    | heard _ _ _ hlink =>
      rcases hlink with rfl | rfl
      · exact h.link hbefore hchanged
      · cases hchanged
    | unspawned | spawned | stopped | reaped | wokeUp | dropped => exact h.link hbefore hchanged

theorem of_move (htended : machines.Tended) (hmove : Move ok machines next) : next.Heard where
  unread := h.unread_of_move hmove
  ended htunnel hended hchanged :=
    says_of_move htended hmove (h.ended_of_move htended hmove htunnel hended hchanged)
  link htunnel hchanged := says_of_move htended hmove (h.link_of_move hmove htunnel hchanged)

end Machines.Heard

end Cirrocumulus.Ssh
