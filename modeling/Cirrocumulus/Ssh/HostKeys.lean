/-
# A Machine whose host key failed

An `ssh` that can't verify the host key says so, and ends. Its task reads the line, waits
for the process and only then writes the link. From there on no other `ssh` is started for
the Machine. Until then the link does not say so, and a change of the Machine's Apps
starts a new task, which starts another `ssh`.
-/

import Cirrocumulus.Ssh.Parts

namespace Cirrocumulus.Ssh

open Std (ExtTreeMap)
open Lib List Option

variable (machines : Machines)

/-- Some `ssh` of a Machine has ended after it could not verify the host key. -/
def Machines.Failed (first : Nat) : Prop :=
  ∃ (id : Nat) (ssh : SshProcess), machines.processes[id]? = some ssh ∧ ssh.first = first ∧
    ssh.running = false ∧ hostKeyFailed ∈ ssh.printed

/-! ## Assumptions about a schedule -/

/-- Whether some `ssh` of a Machine has said that it can't verify the host key. -/
def Machines.complains (first : Nat) : Bool :=
  machines.processes.toList.any fun item =>
    item.2.first == first && item.2.printed.contains hostKeyFailed

/-- A Machine's Apps change only while none of its `ssh` processes has failed to verify the
host key, or once its link says so. A task that was aborted starts no `ssh`, and the one
it has does not come to fail after that. Reading what an `ssh` prints does not fail. -/
def Machines.calm : Event → Bool
  | .addApp request given outcome again =>
    (machines.changed (.addApp request given outcome again)).all fun machine =>
      (machines.link machine).hostKeyChanged || !machines.complains machine.first
  | .removeApp name outcome given =>
    (machines.changed (.removeApp name outcome given)).all fun machine =>
      (machines.link machine).hostKeyChanged || !machines.complains machine.first
  | .spawn id none => machines.tunnels[id]?.all fun tunnel => !tunnel.aborted
  | .stopReading _ fails => !fails
  | .print process line =>
    line != hostKeyFailed || machines.processes[process]?.all fun ssh =>
      machines.tunnels[ssh.tunnel]?.all fun tunnel => !tunnel.aborted
  | _ => true

/-- The promise of a schedule that is calm. -/
abbrev Machines.Calm (event : Event) : Prop := machines.calm event = true

section

variable {machines : Machines}

variable {id : Nat} {ssh : SshProcess}

theorem Machines.complains_of_mem (hssh : machines.processes[id]? = some ssh)
    (hprinted : hostKeyFailed ∈ ssh.printed) : machines.complains ssh.first := by
  rw [complains, List.any_eq_true]
  refine ⟨(id, ssh), mem_items.mpr hssh, ?_⟩
  simpa using hprinted

/-- A calm event that changes a Machine's Apps finds a link that says so, or nothing. -/
theorem Machines.calm_changed {event machine} (hok : machines.Calm event)
    (hchanged : machines.changed event = some machine) :
    (machines.link machine).hostKeyChanged ∨ machines.complains machine.first = false := by
  cases event with
  | addApp | removeApp =>
    simp only [Machines.Calm, calm, hchanged, all_some, Bool.or_eq_true,
      Bool.not_eq_true'] at hok
    exact hok
  | _ => cases hchanged

/-- A new tunnel is not for a Machine of which an `ssh` has failed. -/
theorem Machines.not_printed_of_promised {first : Nat} (h : machines.Promised Machines.Calm first)
    (hssh : machines.processes[id]? = some ssh) (hfirst : ssh.first = first) :
    hostKeyFailed ∉ ssh.printed := by
  intro hprinted
  obtain ⟨origin, event, machine, hok, hchanged, hlink, hmachine, hprocesses⟩ := h
  rw [← hprocesses] at hssh
  have hcomplains := complains_of_mem hssh hprinted
  rw [hfirst, ← hmachine] at hcomplains
  rcases calm_changed hok hchanged with hsaid | hsilent
  · cases hlink.symm.trans hsaid
  · cases hsilent.symm.trans hcomplains

theorem Machines.running_of_calm_print {tunnel}
    (hok : machines.Calm (.print id hostKeyFailed)) (hssh : machines.processes[id]? = some ssh)
    (htunnel : machines.tunnels[ssh.tunnel]? = some tunnel) : tunnel.aborted = false := by
  simpa [Machines.Calm, calm, hssh, htunnel] using hok

end

/-! ## A task and its processes -/

/-- A task has yet to note that a process could not verify the host key. -/
inductive Tunnel.Minds (tunnel : Tunnel) (id : Nat) (ssh : SshProcess) : Prop
  | unread {ended} (hpc : tunnel.pc = .reading id ended)
      (hunread : hostKeyFailed ∈ ssh.unread) : Minds tunnel id ssh
  | read {ended} (hpc : tunnel.pc = .reading id ended)
      (hchanged : ended.hostKeyChanged) : Minds tunnel id ssh
  | waiting {ended} (hpc : tunnel.pc = .waiting id ended)
      (hchanged : ended.hostKeyChanged) : Minds tunnel id ssh
  | noting {ended} (hpc : tunnel.pc = .noting (some id) ended)
      (hchanged : ended.hostKeyChanged) : Minds tunnel id ssh

/-- A task reads what its process prints while it runs, and does not forget that it could
not verify the host key. -/
structure Tunnel.Follows (tunnel : Tunnel) (id : Nat) (ssh : SshProcess) : Prop where
  reading : ssh.running → ∃ ended, tunnel.pc = .reading id ended
  told : hostKeyFailed ∈ ssh.printed → tunnel.link.hostKeyChanged ∨ tunnel.Minds id ssh

theorem Tunnel.Minds.process {tunnel : Tunnel} {id ssh}
    (h : tunnel.Minds id ssh) : tunnel.pc.process = some id := by
  cases h with
  | unread hpc | read hpc | waiting hpc | noting hpc => rw [hpc]; rfl

theorem Tunnel.Minds.mono {tunnel : Tunnel} {id ssh ssh'}
    (h : tunnel.Minds id ssh) (hsubset : ssh.unread ⊆ ssh'.unread) : tunnel.Minds id ssh' := by
  cases h with
  | unread hpc hunread => exact .unread hpc (hsubset hunread)
  | read hpc hchanged => exact .read hpc hchanged
  | waiting hpc hchanged => exact .waiting hpc hchanged
  | noting hpc hchanged => exact .noting hpc hchanged

namespace Tunnel.Follows

variable {id : Nat} {tunnel tunnel' : Tunnel} {ssh : SshProcess}

section

variable (h : tunnel.Follows id ssh)
include h

variable (hsame : tunnel.link.hostKeyChanged = false)
include hsame

/-- A task whose link does not say so has the process, or the process has said nothing. -/
theorem minds (hprinted : hostKeyFailed ∈ ssh.printed) : tunnel.Minds id ssh := by
  rcases h.told hprinted with hchanged | hminds
  · cases hsame.symm.trans hchanged
  · exact hminds

/-- A task that is not at a process has nothing to do with it. -/
theorem of_process_ne (hprocess : tunnel.pc.process ≠ some id) : tunnel'.Follows id ssh where
  reading hrunning := by
    obtain ⟨ended, hpc⟩ := h.reading hrunning
    rw [hpc] at hprocess
    exact absurd rfl hprocess
  told hprinted := absurd (h.minds hsame hprinted).process hprocess

/-- A task reads a line of this process. -/
theorem heard {ended ended' line unread} (hpc : tunnel.pc = .reading id ended)
    (hunread : ssh.unread = line :: unread)
    (hended : ended'.hostKeyChanged ↔ ended.hostKeyChanged ∨ line = hostKeyFailed)
    (hpc' : tunnel'.pc = .reading id ended') : tunnel'.Follows id { ssh with unread } := by
  refine ⟨fun _ => ⟨ended', hpc'⟩, fun hprinted => .inr ?_⟩
  cases h.minds hsame hprinted with
  | unread _ hmem =>
    rw [hunread] at hmem
    rcases mem_cons.mp hmem with hline | hrest
    · exact .read hpc' (hended.mpr (.inr hline.symm))
    · exact .unread hpc' hrest
  | read hread hchanged =>
    cases hpc.symm.trans hread
    exact .read hpc' (hended.mpr (.inl hchanged))
  | waiting hother | noting hother => cases hpc.symm.trans hother

theorem stopped {ended}
    (hpc : tunnel.pc = .reading id ended) (hempty : ssh.unread = []) (hended : ssh.running = false)
    (hpc' : tunnel'.pc = .waiting id ended) : tunnel'.Follows id ssh := by
  refine ⟨fun hrunning => ?_, fun hprinted => .inr ?_⟩
  · cases hended.symm.trans hrunning
  · cases h.minds hsame hprinted with
    | unread _ hunread =>
      rw [hempty] at hunread
      cases hunread
    | read hreading hchanged =>
      cases hpc.symm.trans hreading
      exact .waiting hpc' hchanged
    | waiting hother | noting hother => cases hpc.symm.trans hother

theorem reaped {process ended} (hpc : tunnel.pc = .waiting process ended)
    (hpc' : tunnel'.pc = .noting (some process) ended) : tunnel'.Follows id ssh := by
  refine ⟨fun hrunning => ?_, fun hprinted => .inr ?_⟩
  · obtain ⟨_, hreading⟩ := h.reading hrunning
    cases hpc.symm.trans hreading
  · cases h.minds hsame hprinted with
    | waiting hwaiting hchanged =>
      cases hpc.symm.trans hwaiting
      exact .noting hpc' hchanged
    | unread hother | read hother | noting hother => cases hpc.symm.trans hother

theorem noted {process ended} (hpc : tunnel.pc = .noting process ended)
    (hlink : tunnel'.link.hostKeyChanged = ended.hostKeyChanged) : tunnel'.Follows id ssh := by
  refine ⟨fun hrunning => ?_, fun hprinted => .inl ?_⟩
  · obtain ⟨_, hreading⟩ := h.reading hrunning
    cases hpc.symm.trans hreading
  · cases h.minds hsame hprinted with
    | noting hnoting hchanged =>
      cases hpc.symm.trans hnoting
      rw [hlink, hchanged]
    | unread hother | read hother | waiting hother => cases hpc.symm.trans hother

end

end Tunnel.Follows

/-! ## Every task follows its processes -/

/-- Every task that goes on follows its processes, and a Machine of which the `ssh` of an
aborted task has failed is gone. -/
structure Machines.Watched (machines : Machines) : Prop where
  follows : ∀ {id : Nat} {ssh} {tunnel},
    machines.processes[id]? = some ssh → machines.tunnels[ssh.tunnel]? = some tunnel →
      tunnel.aborted = false → tunnel.Follows id ssh
  gone : ∀ {id : Nat} {ssh} {tunnel},
    machines.processes[id]? = some ssh → machines.tunnels[ssh.tunnel]? = some tunnel →
      tunnel.aborted → hostKeyFailed ∈ ssh.printed →
        ∀ {name : Str} {machine}, machines.entries[name]? = some machine →
          machine.first ≠ ssh.first

namespace Machines.Watched

variable {machines next : Machines}

variable {id : Nat} {ssh : SshProcess} {tunnel tunnel' : Tunnel}

theorem start (stored : Stored) (lines : List Str) : (Machines.start stored lines).Watched := by
  refine ⟨?_, ?_⟩ <;> simp [Machines.start]

section

theorem kept_of_map {cut before} (htunnel : before = some tunnel)
    (htunnel' : before.map (Tunnel.abortIf cut) = some tunnel') (hruns : tunnel'.aborted = false) :
    tunnel' = tunnel := by
  subst htunnel
  cases htunnel'
  rw [(Bool.or_eq_false_iff.mp hruns).1]
  rfl

variable (h : machines.Watched)
include h

/-- Tunnels are left alone, aborted or made. -/
theorem follows_of_kept (htended : machines.Tended)
    (hprocesses : next.processes = machines.processes)
    (hkept : ∀ {id : Nat} {tunnel tunnel' : Tunnel}, machines.tunnels[id]? = some tunnel →
      next.tunnels[id]? = some tunnel' → tunnel'.aborted = false → tunnel' = tunnel)
    (hssh : next.processes[id]? = some ssh)
    (htunnel : next.tunnels[ssh.tunnel]? = some tunnel) (hruns : tunnel.aborted = false) :
    tunnel.Follows id ssh := by
  rw [hprocesses] at hssh
  obtain ⟨before, hbefore, -⟩ := htended.process hssh
  cases hkept hbefore htunnel hruns
  exact h.follows hssh hbefore hruns

/-- One process changes. -/
theorem follows_of_setProcess {changed ssh'}
    (hssh : machines.processes[changed]? = some ssh) {found}
    (hfound : (machines.setProcess changed ssh').processes[id]? = some found)
    (hsame : ssh'.tunnel = ssh.tunnel) (htunnel : machines.tunnels[found.tunnel]? = some tunnel)
    (hruns : tunnel.aborted = false)
    (hfollows : tunnel.Follows changed ssh → tunnel.Follows changed ssh') :
    tunnel.Follows id found := by
  obtain ⟨heq, rfl⟩ | ⟨-, hfound⟩ := of_lookup_insert hfound
  · rw [hsame] at htunnel
    rw [heq]
    exact hfollows (h.follows hssh htunnel hruns)
  · exact h.follows hfound htunnel hruns

variable (hcoherent : machines.Coherent)
include hcoherent

theorem follows_of_installs {machine forwards} (hinstalls : machines.Installs machine forwards next)
    (hssh : next.processes[id]? = some ssh) (htunnel : next.tunnels[ssh.tunnel]? = some tunnel)
    (hruns : tunnel.aborted = false) : tunnel.Follows id ssh := by
  refine h.follows_of_kept hcoherent.tended (by rw [hinstalls.next_eq]) ?_ hssh htunnel hruns
  intro id tunnel tunnel' hbefore hafter hruns
  have hne : id ≠ machines.nextTunnel := (hcoherent.wired.tunnel_lt hbefore).1.ne
  rw [hinstalls.tunnels, if_neg hne] at hafter
  exact kept_of_map hbefore hafter hruns

/-- A task does a step, with one of its processes or with none. -/
theorem follows_of_task {number}
    (htunnel : machines.tunnels[number]? = some tunnel) {link pc processes nextProcess}
    (hstep : TaskStep Machines.Calm machines number tunnel link pc processes nextProcess)
    {wait} {found : Tunnel} (hssh : processes[id]? = some ssh)
    (hfound : (machines.tunnels.insert number { tunnel with link, pc, wait })[ssh.tunnel]? =
      some found) (hruns : found.aborted = false) : found.Follows id ssh := by
  have hlink := hcoherent.tended.hostKeyChanged_eq_false htunnel
  rw [lookup_insert] at hfound
  -- A process that the step leaves as it is belongs to this task or to another one.
  have hkept (hssh : machines.processes[id]? = some ssh)
      (hstays : tunnel.aborted = false → tunnel.Follows id ssh →
        Tunnel.Follows { tunnel with link, pc, wait } id ssh) : found.Follows id ssh := by
    split at hfound
    · rename_i heq
      cases hfound
      exact hstays hruns (h.follows hssh (by rw [heq, htunnel]) hruns)
    · exact h.follows hssh hfound hruns
  cases hstep with
  | unspawned hpc | wokeUp hpc =>
    refine hkept hssh fun _ hfollows => ?_
    exact hfollows.of_process_ne (hlink (by simp [hpc]) (by simp [hpc]))
      (by simp [hpc, TunnelPc.process])
  | spawned hpc =>
    obtain ⟨heq, rfl⟩ | ⟨-, hssh⟩ := of_lookup_insert hssh
    · rw [if_pos rfl] at hfound
      cases hfound
      rw [heq]
      exact ⟨fun _ => ⟨_, rfl⟩, fun hprinted => by cases hprinted⟩
    · refine hkept hssh fun _ hfollows => ?_
      exact hfollows.of_process_ne (hlink (by simp [hpc]) (by simp [hpc]))
        (by simp [hpc, TunnelPc.process])
  | heard hpc hprocess hunread _ hended =>
    have hsame := hlink (by simp [hpc]) (by simp [hpc])
    obtain ⟨owned, howned, howner⟩ := hcoherent.tended.pc htunnel (by rw [hpc]; rfl)
    cases hprocess.symm.trans howned
    obtain ⟨heq, rfl⟩ | ⟨hne, hssh⟩ := of_lookup_insert hssh
    · rw [if_pos howner] at hfound
      cases hfound
      rw [← howner] at htunnel
      rw [heq]
      exact (h.follows hprocess htunnel hruns).heard hsame hpc hunread hended rfl
    · refine hkept hssh fun _ hfollows => hfollows.of_process_ne hsame ?_
      simpa [hpc, TunnelPc.process] using Ne.symm hne
  | @stopped process ended fails hpc hok hread =>
    have hsame := hlink (by simp [hpc]) (by simp [hpc])
    refine hkept hssh fun _ hfollows => ?_
    by_cases heq : process = id
    · subst heq
      have hfails : fails = false := by simpa [Machines.Calm, calm] using hok
      obtain ⟨found, hfound, hempty, hended⟩ := hread hfails
      cases hssh.symm.trans hfound
      exact hfollows.stopped hsame hpc hempty hended rfl
    · exact hfollows.of_process_ne hsame (by simpa [hpc, TunnelPc.process] using heq)
  | reaped hpc =>
    exact hkept hssh fun _ hfollows =>
      hfollows.reaped (hlink (by simp [hpc]) (by simp [hpc])) hpc rfl
  | noted hpc =>
    exact hkept hssh fun _ hfollows =>
      hfollows.noted (hlink (by simp [hpc]) (by simp [hpc])) hpc rfl
  | dropped haborted => exact hkept hssh fun hnot _ => by cases hnot.symm.trans haborted

section

variable (hmove : Move Machines.Calm machines next)
include hmove

theorem follows_of_move (hssh : next.processes[id]? = some ssh)
    (htunnel : next.tunnels[ssh.tunnel]? = some tunnel)
    (hruns : tunnel.aborted = false) : tunnel.Follows id ssh := by
  cases hmove with
  | books | opened | written | unwritten | reassigned | fewerApps =>
    exact h.follows hssh htunnel hruns
  | connected hinstalls | restarted hinstalls =>
    exact h.follows_of_installs hcoherent hinstalls hssh htunnel hruns
  | removed =>
    refine h.follows_of_kept hcoherent.tended (by rw [abort_eq]) ?_ hssh htunnel hruns
    intro id tunnel tunnel' hbefore hafter
    rw [lookup_abort] at hafter
    exact kept_of_map hbefore hafter
  | disconnected =>
    have hprocesses : machines.disconnectAll.processes = machines.processes := rfl
    refine h.follows_of_kept hcoherent.tended hprocesses ?_ hssh htunnel hruns
    intro id tunnel tunnel' hbefore hafter
    rw [lookup_disconnectAll] at hafter
    exact kept_of_map hbefore hafter
  | task hbefore hstep => exact h.follows_of_task hcoherent hbefore hstep hssh htunnel hruns
  | checked hbefore =>
    refine h.follows_of_setProcess hbefore hssh rfl htunnel hruns fun hfollows => ?_
    refine ⟨hfollows.reading, fun hprinted => ?_⟩
    exact (hfollows.told hprinted).imp_right fun hminds => hminds.mono (List.Subset.refl _)
  | exited hbefore =>
    refine h.follows_of_setProcess hbefore hssh rfl htunnel hruns fun hfollows => ?_
    refine ⟨nofun, fun hprinted => ?_⟩
    exact (hfollows.told hprinted).imp_right fun hminds => hminds.mono (List.Subset.refl _)
  | printed hbefore hrunning line =>
    refine h.follows_of_setProcess hbefore hssh rfl htunnel hruns fun hfollows => ?_
    -- While it runs it is being read, so the line will be.
    obtain ⟨ended, hpc⟩ := hfollows.reading hrunning
    refine ⟨fun _ => ⟨ended, hpc⟩, fun hprinted => ?_⟩
    rcases mem_append.mp hprinted with hold | hlast
    · exact (hfollows.told hold).imp_right fun hminds =>
        hminds.mono (subset_append_left _ _)
    · exact .inr (.unread hpc (mem_append_right _ hlast))

/-- The process's task was aborted before, and its Machine does not come back. -/
theorem gone_of_kept (hssh : machines.processes[id]? = some ssh)
    (htunnel : machines.tunnels[ssh.tunnel]? = some tunnel) (haborted : tunnel.aborted)
    (hprinted : hostKeyFailed ∈ ssh.printed) {name : Str} {machine}
    (hentry : next.entries[name]? = some machine) : machine.first ≠ ssh.first := by
  rcases hmove.entry_inv hentry with ⟨hnew, -⟩ | ⟨old, hold, -, hfirst⟩
  · obtain ⟨found, hfound, hthis, -⟩ := hcoherent.tended.process hssh
    have hlt := (hcoherent.wired.tunnel_lt hfound).2
    omega
  · rw [hfirst]
    exact h.gone hssh htunnel haborted hprinted hold

omit h in
/-- The move aborts the process's task, and with it goes the Machine. -/
theorem gone_of_aborted (hssh : next.processes[id]? = some ssh)
    (hprinted : hostKeyFailed ∈ ssh.printed) (htunnel : machines.tunnels[ssh.tunnel]? = some tunnel)
    (hruns : tunnel.aborted = false) (hfirst : tunnel.first = ssh.first)
    (htunnel' : next.tunnels[ssh.tunnel]? = some tunnel') (haborted : tunnel'.aborted)
    {name : Str} {machine} (hentry : next.entries[name]? = some machine) :
    machine.first ≠ ssh.first := by
  have hwired := hcoherent.wired
  obtain ⟨name', owner, howner, hid⟩ := hwired.current htunnel hruns
  have hthis : owner.first = ssh.first := by
    obtain ⟨found, hfound, -, hsame, -⟩ := hwired.entry howner
    rw [hid] at hfound
    cases htunnel.symm.trans hfound
    exact hsame.symm.trans hfirst
  have hsame (heq : tunnel'.aborted = tunnel.aborted) : machine.first ≠ ssh.first := by
    rw [haborted, hruns] at heq
    cases heq
  -- Of the Machines that were there, only the owner can be meant.
  have hother (hne : name ≠ name') (hold : machines.entries[name]? = some machine) :
      machine.first ≠ ssh.first :=
    fun heq => hne (hwired.first_inj hold howner (heq.trans hthis.symm))
  have hnamed {machine' forwards}
      (hinstalls : machines.Installs machine' forwards next) :
      machine'.record.name = name' := by
    rw [hinstalls.tunnels, if_neg (hwired.tunnel_lt htunnel).1.ne, htunnel, map_some,
      Option.some.injEq] at htunnel'
    by_contra hne
    have hkept := hwired.runsFor_eq_false howner (Ne.symm hne)
    rw [hid] at hkept
    rw [hkept] at htunnel'
    subst htunnel'
    cases hruns.symm.trans haborted
  cases hmove with
  | books | opened | written | unwritten | reassigned | fewerApps | checked | printed | exited =>
    cases htunnel.symm.trans htunnel'
    exact hsame rfl
  | task hbefore =>
    obtain ⟨heq, rfl⟩ | ⟨-, htunnel'⟩ := of_lookup_insert htunnel'
    · rw [heq] at htunnel
      cases hbefore.symm.trans htunnel
      exact hsame rfl
    · cases htunnel.symm.trans htunnel'
      exact hsame rfl
  | connected hinstalls hnew =>
    rw [hinstalls.entries, hnamed hinstalls] at hentry
    split at hentry
    · cases hentry
      have hlt := hwired.first_lt howner
      omega
    · rename_i hne
      exact hother hne hentry
  | restarted hinstalls hold hrecord hrestarted _ hpromised =>
    rw [← hrecord, hnamed hinstalls, howner] at hold
    cases hold
    rw [hinstalls.next_eq] at hssh
    have hsilent := not_printed_of_promised hpromised hssh
      (hthis.symm.trans hrestarted.symm)
    exact absurd hprinted hsilent
  | @removed removed machine' hremoved =>
    rw [lookup_abort, htunnel, map_some, Option.some.injEq] at htunnel'
    by_cases heq : ssh.tunnel = machine'.tunnel
    · have hgone : name' = removed := hwired.tunnel_inj howner hremoved (hid.trans heq)
      obtain ⟨hne, hentry⟩ := of_lookup_erase hentry
      rw [← hgone] at hne
      exact hother hne hentry
    · rw [decide_eq_false heq] at htunnel'
      subst htunnel'
      exact hsame rfl
  | disconnected => simp [disconnectAll] at hentry

theorem gone_of_move (hssh : next.processes[id]? = some ssh)
    (htunnel : next.tunnels[ssh.tunnel]? = some tunnel)
    (haborted : tunnel.aborted) (hprinted : hostKeyFailed ∈ ssh.printed) {name : Str}
    {machine} (hentry : next.entries[name]? = some machine) : machine.first ≠ ssh.first := by
  -- What the process had printed, unless it prints the line now, from a task that goes on.
  have hcase {before} (hbefore : machines.processes[id]? = some before)
      (hsame : before.tunnel = ssh.tunnel) (hfirst : before.first = ssh.first)
      (hold : hostKeyFailed ∈ before.printed ∨ machines.Calm (.print id hostKeyFailed)) :
      machine.first ≠ ssh.first := by
    obtain ⟨found, hfound, hthis, -⟩ := hcoherent.tended.process hbefore
    cases hcut : found.aborted with
    | false =>
      rw [hsame] at hfound
      exact gone_of_aborted hcoherent hmove hssh hprinted hfound hcut
        (hthis.symm.trans hfirst) htunnel haborted hentry
    | true =>
      rcases hold with hold | hok
      · rw [← hfirst]
        exact h.gone_of_kept hcoherent hmove hbefore hfound hcut hold hentry
      · cases hcut.symm.trans (running_of_calm_print hok hbefore hfound)
  cases hmove.process_inv hssh with
  | spawned => cases hprinted
  | kept hbefore | heard hbefore | checked hbefore | exited hbefore =>
    have hgone := hcase hbefore rfl rfl (.inl hprinted)
    exact hgone
  | printed hbefore line hok =>
    rcases mem_append.mp hprinted with hold | hlast
    · have hgone := hcase hbefore rfl rfl (.inl hold)
      exact hgone
    · rw [← mem_singleton.mp hlast] at hok
      have hgone := hcase hbefore rfl rfl (.inr hok)
      exact hgone

theorem of_move : next.Watched :=
  ⟨h.follows_of_move hcoherent hmove, h.gone_of_move hcoherent hmove⟩

end

/-- A task that goes on and is about to start an `ssh` is for a Machine of which none has
failed. -/
theorem not_failed (htunnel : machines.tunnels[id]? = some tunnel) (hruns : tunnel.aborted = false)
    (hpc : tunnel.pc = .loop) : ¬ machines.Failed tunnel.first := by
  rintro ⟨process, ssh, hssh, hfirst, -, hprinted⟩
  obtain ⟨found, hfound, hthis, -⟩ := hcoherent.tended.process hssh
  cases hcut : found.aborted with
  | true =>
    obtain ⟨name, owner, howner, hid⟩ := hcoherent.wired.current htunnel hruns
    obtain ⟨owned, howned, -, hsame, -⟩ := hcoherent.wired.entry howner
    rw [hid] at howned
    cases htunnel.symm.trans howned
    exact h.gone hssh hfound hcut hprinted howner (hsame.symm.trans hfirst.symm)
  | false =>
    have heq : ssh.tunnel = id :=
      hcoherent.wired.eq_of_first hfound hcut htunnel hruns (hthis.symm.trans hfirst)
    rw [heq] at hfound
    cases htunnel.symm.trans hfound
    rw [← heq] at htunnel
    have hlink := hcoherent.tended.hostKeyChanged_eq_false htunnel (by simp [hpc]) (by simp [hpc])
    have hprocess := ((h.follows hssh htunnel hruns).minds hlink hprinted).process
    rw [hpc] at hprocess
    cases hprocess

end

end Machines.Watched

/-! ## No other `ssh` -/

/-- In every run that is calm, no `ssh` is started for a Machine of which one has ended
after it could not verify the host key. -/
theorem no_ssh_after_failed_host_key (stored : Stored) (lines : List Str) {schedule : List Event}
    {machines next : Machines} {id : Nat} {tunnel : Tunnel}
    (hrun : run Machines.step (.start stored lines) schedule = some machines)
    (hok : Along Machines.step Machines.Calm (.start stored lines)
      (schedule ++ [.spawn id none])) (hstep : machines.step (.spawn id none) = some next)
    (htunnel : machines.tunnels[id]? = some tunnel) : ¬ machines.Failed tunnel.first := by
  obtain ⟨hcoherent, hwatched⟩ := Machines.Coherent.run_of_moves Machines.Watched
    (fun hcoherent h hmove => h.of_move hcoherent hmove) (.start stored lines)
    (.start stored lines) hok.of_append hrun
  have hcalm : machines.Calm (.spawn id none) := (hok.of_append_right hrun).1
  simp only [Machines.Calm, Machines.calm, htunnel, all_some, Bool.not_eq_true'] at hcalm
  have hpc : tunnel.pc = .loop := by
    simp only [Machines.step, Machines.spawn, htunnel, bind_some] at hstep
    split at hstep
    · assumption
    · cases hstep
  exact hwatched.not_failed hcoherent htunnel hcalm hpc

/-! ## Apps that change while a failure is noted -/

/-- The `ssh` of a Machine can't verify the host key and ends, and its task is about to note
it. -/
def endsUnverified : List Event :=
  [.check 0 "ssh-ed25519 x", .print 0 hostKeyFailed, .exit 0, .readLine 0,
    .stopReading 0 false, .reap 0]

/-- An App is added to the Machine. -/
def addsApp : Event :=
  .addApp ⟨"api", "a", ⟨"api.example", 80, none⟩⟩ (.ok [8081, 8082]) .ok
    (.ok [])

/-- The new task starts an `ssh` for a Machine of which one has failed. -/
theorem ssh_after_failed_host_key :
    ∃ machines next tunnel machine,
      run Machines.step (.start .sample []) (connects ++ endsUnverified ++ [addsApp]) =
        some machines ∧
      machines.entries["a".toList]? = some machine ∧ machine.tunnel = 1 ∧
      machines.tunnels[1]? = some tunnel ∧ machines.Failed tunnel.first ∧
      machines.step (.spawn 1 none) = some next := by
  obtain ⟨machines, hrun, next, hstep, tunnel, htunnel, machine, hentry, hid, ssh, hssh, hfailed⟩ :
      ∃ machines, run Machines.step (.start .sample [])
        (connects ++ endsUnverified ++ [addsApp]) = some machines ∧
      ∃ next, machines.step (.spawn 1 none) = some next ∧
      ∃ tunnel, machines.tunnels[1]? = some tunnel ∧
      ∃ machine, machines.entries["a".toList]? = some machine ∧ machine.tunnel = 1 ∧
      ∃ ssh, machines.processes[0]? = some ssh ∧ ssh.first = tunnel.first ∧
        ssh.running = false ∧ hostKeyFailed ∈ ssh.printed := by
    decide +kernel
  exact ⟨machines, next, tunnel, machine, hrun, hentry, hid, htunnel, ⟨0, ssh, hssh, hfailed⟩,
    hstep⟩

/-- The theorem applies: a Machine of which no `ssh` failed gets a new one with a new App. -/
theorem not_failed_after_added_app :
    ∃ machines next tunnel,
      run Machines.step (.start .sample []) (connects ++ [addsApp]) = some machines ∧
      machines.step (.spawn 1 none) = some next ∧ machines.tunnels[1]? = some tunnel ∧
      ¬ machines.Failed tunnel.first := by
  obtain ⟨machines, hrun, hreached, next, hstep, -⟩ : ∃ machines,
      run Machines.step (.start .sample []) (connects ++ [addsApp]) = some machines ∧
      machines.tunnels[1]?.isSome ∧
      ∃ next, machines.step (.spawn 1 none) = some next ∧ True := by
    decide +kernel
  obtain ⟨tunnel, htunnel⟩ := isSome_iff_exists.mp hreached
  exact ⟨machines, next, tunnel, hrun, hstep, htunnel,
    no_ssh_after_failed_host_key .sample [] hrun (by decide +kernel) hstep htunnel⟩

end Cirrocumulus.Ssh
