/-
# The file of known hosts

Every rewrite writes the pin of each Machine there is, so a file that is written to its
end has them all. A rewrite empties the file first, and an `ssh` that reads it then finds
no pin at all: its Machine is taken to have another host key, and stays down.
-/

import Cirrocumulus.Ssh.Parts

namespace Cirrocumulus.Ssh

open Lib List
open Std (ExtTreeMap)

/-! ## Assumptions about a schedule -/

/-- An `ssh` says that it can't verify the host key only if it was presented one that the
file it read did not have under the Machine's name. -/
def Machines.verifies (machines : Machines) : Event → Bool
  | .print process line =>
    line != hostKeyFailed || machines.processes[process]?.any fun ssh =>
      machines.tunnels[ssh.tunnel]?.any fun tunnel =>
        ssh.reads.any fun read => !read.1.contains (tunnel.record.name ++ ' ' :: read.2)
  | _ => true

/-- No `ssh` reads the file after a rewrite has emptied it and before one has written it. -/
def Machines.readsWhole (machines : Machines) : Event → Bool
  | .check _ _ => machines.knownHosts.whole
  | _ => true

/-- What a run is assumed to keep to. -/
def Machines.orderly (machines : Machines) (event : Event) : Bool :=
  machines.verifies event && machines.readsWhole event

/-! ## Pins -/

/-- Every Machine is pinned in a file that is whole, and was in each file that its `ssh`
processes read. An `ssh` that can't verify a host key was presented one it did not find. -/
structure Machines.Pinned (machines : Machines) : Prop where
  whole : machines.knownHosts.whole → ∀ {name : Str} {machine},
    machines.entries[name]? = some machine → machine.record.pin ∈ machines.knownHosts.lines
  read : ∀ {name : Str} {machine} {id : Nat} {ssh},
    machines.entries[name]? = some machine → machines.processes[id]? = some ssh →
      ssh.first = machine.first → ∀ read ∈ ssh.reads, machine.record.pin ∈ read.1
  failed : ∀ {id : Nat} {ssh} {tunnel},
    machines.processes[id]? = some ssh → hostKeyFailed ∈ ssh.printed →
      machines.tunnels[ssh.tunnel]? = some tunnel →
        ∃ read ∈ ssh.reads, tunnel.record.name ++ ' ' :: read.2 ∉ read.1

namespace Machines.Pinned

variable {ok : Machines → Event → Prop} {machines next : Machines}

theorem start (stored : Stored) (lines : List Str) : (Machines.start stored lines).Pinned := by
  refine ⟨?_, ?_, ?_⟩ <;> simp [Machines.start]

theorem pin_mem_pins (machines : Machines) (pending : Option MachineRecord) {name : Str}
    {machine} (hentry : machines.entries[name]? = some machine) :
    machine.record.pin ∈ machines.pins pending := by
  apply mem_append_left
  exact mem_map.mpr ⟨(name, machine), mem_items.mpr hentry, rfl⟩

variable (h : machines.Pinned)
include h

theorem whole_of_move (hmove : Move ok machines next)
    (hwhole : next.knownHosts.whole) {name : Str} {machine}
    (hentry : next.entries[name]? = some machine) : machine.record.pin ∈ next.knownHosts.lines := by
  -- A move that leaves the file alone keeps the Machines or adds one that is in it.
  have hsame (heq : next.knownHosts = machines.knownHosts) :
      machine.record.pin ∈ next.knownHosts.lines := by
    rw [heq] at hwhole ⊢
    rcases hmove.entry_inv hentry with ⟨-, hpin⟩ | ⟨old, hold, hrecord, -⟩
    · exact hpin
    · rw [hrecord]
      exact h.whole hwhole hold
  cases hmove with
  | opened => cases hwhole
  | written pending => exact pin_mem_pins machines pending hentry
  | connected hinstalls | restarted hinstalls => exact hsame (by rw [hinstalls.next_eq])
  | removed => exact hsame (by rw [abort_eq])
  | books | unwritten | reassigned | fewerApps | disconnected | task | checked | printed
  | exited => exact hsame rfl

variable (hcoherent : machines.Coherent)
include hcoherent

theorem read_of_move
    (hok : ∀ {id : Nat} {key : Str}, ok machines (.check id key) → machines.knownHosts.whole)
    (hmove : Move ok machines next) {name : Str} {machine} {id : Nat} {ssh}
    (hentry : next.entries[name]? = some machine) (hssh : next.processes[id]? = some ssh)
    (hfirst : ssh.first = machine.first) : ∀ read ∈ ssh.reads, machine.record.pin ∈ read.1 := by
  -- A Machine that a move adds has no processes.
  have hnew {before} (hbefore : machines.processes[id]? = some before)
      (hsame : ssh.first = before.first) (hfresh : machine.first = machines.nextTunnel) :
      False := by
    obtain ⟨tunnel, htunnel, howner, -⟩ := hcoherent.tended.process hbefore
    have hlt := (hcoherent.wired.tunnel_lt htunnel).2
    omega
  have hkept {before} (hbefore : machines.processes[id]? = some before)
      (hsame : ssh.first = before.first) :
      ∀ read ∈ before.reads, machine.record.pin ∈ read.1 := by
    rcases hmove.entry_inv hentry with ⟨hfresh, -⟩ | ⟨old, hold, hrecord, hfirst'⟩
    · exact (hnew hbefore hsame hfresh).elim
    · rw [hrecord]
      exact h.read hold hbefore (by rw [← hsame, hfirst, hfirst'])
  cases hmove.process_inv hssh with
  | spawned => simp
  | kept hbefore | heard hbefore | printed hbefore | exited hbefore =>
    have hreads := hkept hbefore rfl
    exact hreads
  | checked hbefore key hevent =>
    intro read hread
    rcases mem_append.mp hread with hold | hlast
    · exact hkept hbefore rfl read hold
    · rw [mem_singleton.mp hlast]
      rcases hmove.entry_inv hentry with ⟨hfresh, -⟩ | ⟨old, hold, hrecord, -⟩
      · exact (hnew hbefore rfl hfresh).elim
      · rw [hrecord]
        exact h.whole (hok hevent) hold

theorem failed_of_move (hok : ∀ {id : Nat} {line : Str}, ok machines (.print id line) →
      machines.verifies (.print id line)) (hmove : Move ok machines next) {id : Nat}
    {ssh tunnel} (hssh : next.processes[id]? = some ssh) (hprinted : hostKeyFailed ∈ ssh.printed)
    (htunnel : next.tunnels[ssh.tunnel]? = some tunnel) :
    ∃ read ∈ ssh.reads, tunnel.record.name ++ ' ' :: read.2 ∉ read.1 := by
  have hname {before} (hbefore : machines.processes[id]? = some before)
      (hsame : before.tunnel = ssh.tunnel) :
      ∃ found, machines.tunnels[before.tunnel]? = some found ∧ tunnel.record = found.record := by
    obtain ⟨found, hfound, -⟩ := hcoherent.tended.process hbefore
    rw [← hsame] at htunnel
    have hsame := (hmove.tunnel_inv htunnel).same hcoherent.wired hfound
    exact ⟨found, hfound, hsame.1⟩
  have hkept {before} (hbefore : machines.processes[id]? = some before)
      (hsame : before.tunnel = ssh.tunnel) (hold : hostKeyFailed ∈ before.printed) :
      ∃ read ∈ before.reads, tunnel.record.name ++ ' ' :: read.2 ∉ read.1 := by
    obtain ⟨found, hfound, hrecord⟩ := hname hbefore hsame
    rw [hrecord]
    exact h.failed hbefore hold hfound
  cases hmove.process_inv hssh with
  | spawned => cases hprinted
  | kept hbefore | heard hbefore | exited hbefore =>
    have hmissing := hkept hbefore rfl hprinted
    exact hmissing
  | checked hbefore =>
    obtain ⟨read, hread, hmissing⟩ := hkept hbefore rfl hprinted
    exact ⟨read, mem_append_left _ hread, hmissing⟩
  | printed hbefore line hevent =>
    rcases mem_append.mp hprinted with hold | hlast
    · have hmissing := hkept hbefore rfl hold
      exact hmissing
    · have hverifies := hok hevent
      obtain ⟨found, hfound, hrecord⟩ := hname hbefore rfl
      rw [← mem_singleton.mp hlast] at hverifies
      simp only [Machines.verifies, bne_self_eq_false, Bool.false_or, hbefore, Option.any_some,
        hfound, any_eq_true] at hverifies
      obtain ⟨read, hread, hmissing⟩ := hverifies
      rw [hrecord]
      refine ⟨read, hread, fun hmem => ?_⟩
      rw [contains_iff_mem.mpr hmem] at hmissing
      cases hmissing

theorem of_move (hmove : Move (fun machines event => machines.orderly event) machines next) :
    next.Pinned := by
  have hwhole {id : Nat} {key : Str} (hok : machines.orderly (.check id key)) :
      machines.knownHosts.whole := (Bool.and_eq_true_iff.mp hok).2
  have hverifies {id : Nat} {line : Str} (hok : machines.orderly (.print id line)) :
      machines.verifies (.print id line) := (Bool.and_eq_true_iff.mp hok).1
  exact ⟨h.whole_of_move hmove, h.read_of_move hcoherent hwhole hmove,
    h.failed_of_move hcoherent hverifies hmove⟩

end Machines.Pinned

/-! ## A host key that changed -/

/-- A Machine that is said to have another host key has presented one. -/
def Machines.Presented (machines : Machines) (machine : Machine) : Prop :=
  ∃ (id : Nat) (ssh : SshProcess), machines.processes[id]? = some ssh ∧
    ssh.first = machine.first ∧ ∃ read ∈ ssh.reads, read.2 ≠ machine.record.pinnedKey

theorem Machines.presented_of_link {machines : Machines} (hcoherent : machines.Coherent)
    (hheard : machines.Heard) (hpinned : machines.Pinned) {name : Str} {machine}
    (hentry : machines.entries[name]? = some machine)
    (hchanged : (machines.link machine).hostKeyChanged) : machines.Presented machine := by
  obtain ⟨tunnel, htunnel, hrecord, hfirst, -⟩ := hcoherent.wired.entry hentry
  have hlink : tunnel.link.hostKeyChanged := by
    rwa [Machines.link, htunnel] at hchanged
  obtain ⟨id, ssh, hssh, howner, hprinted⟩ := hheard.link htunnel hlink
  obtain ⟨found, hfound, hthis, -⟩ := hcoherent.tended.process hssh
  rw [howner] at hfound
  cases htunnel.symm.trans hfound
  have hmachine : ssh.first = machine.first := hthis.trans hfirst
  rw [← howner] at htunnel
  obtain ⟨read, hread, hmissing⟩ := hpinned.failed hssh hprinted htunnel
  refine ⟨id, ssh, hssh, hmachine, read, hread, fun heq => hmissing ?_⟩
  -- Had it been the pinned key, its line would have been there.
  rw [hrecord, heq]
  exact hpinned.read hentry hssh hmachine read hread

/-- In every run in which no `ssh` reads the file between a truncation and the next whole
write, each `ssh` finds its Machine's pin, and a Machine is marked only when it presented
another key. -/
theorem host_key_changed_only_if_presented (stored : Stored) (lines : List Str)
    {schedule : List Event} {machines : Machines}
    (hrun : run Machines.step (.start stored lines) schedule = some machines)
    (hok : Along Machines.step (fun machines event => machines.orderly event = true)
      (.start stored lines) schedule) :
    ∀ (name : Str) (machine : Machine), machines.entries[name]? = some machine →
      (∀ (id : Nat) (ssh : SshProcess), machines.processes[id]? = some ssh →
        ssh.first = machine.first → ∀ read ∈ ssh.reads, machine.record.pin ∈ read.1) ∧
      ((machines.link machine).hostKeyChanged = true → machines.Presented machine) := by
  obtain ⟨hcoherent, hheard, hpinned⟩ := Machines.Coherent.run_of_moves
    (fun machines => machines.Heard ∧ machines.Pinned)
    (fun hcoherent h hmove => ⟨h.1.of_move hcoherent.tended hmove, h.2.of_move hcoherent hmove⟩)
    (.start stored lines) ⟨.start stored lines, .start stored lines⟩ hok hrun
  intro name machine hentry
  refine ⟨?_, Machines.presented_of_link hcoherent hheard hpinned hentry⟩
  intro id ssh hssh hfirst
  exact hpinned.read hentry hssh hfirst

/-! ## An `ssh` that reads an empty file -/

/-- An `ssh` can't verify the key it was presented, and its task takes note. -/
def failsOn (key : Str) : List Event :=
  [.check 0 key, .print 0 hostKeyFailed, .exit 0, .readLine 0, .stopReading 0 false, .reap 0,
    .note 0]

/-- Another Machine is being added, and its pin is not written yet. -/
def beginsToPin : List Event :=
  [.add "b" "root@b" "SHA256:b"
      [("ssh-ed25519 b", "SHA256:b")],
    .rewriteForAdd true]

/-- The Machine presents the key that is pinned, and is marked. -/
theorem pinned_machine_is_marked :
    ∃ machines machine ssh,
      run Machines.step (.start .sample [])
        (connects ++ beginsToPin ++ failsOn "ssh-ed25519 a") = some machines ∧
      Along Machines.step (fun machines event => machines.verifies event = true)
        (.start .sample []) (connects ++ beginsToPin ++ failsOn "ssh-ed25519 a") ∧
      machines.entries["a".toList]? = some machine ∧ machines.processes[0]? = some ssh ∧
      machines.nextProcess = 1 ∧ ssh.reads = [([], machine.record.pinnedKey)] ∧
      (machines.link machine).hostKeyChanged = true := by
  simp only [exists_and_left]
  decide +kernel

/-- The theorem applies: the Machine presents another key, and is marked. -/
theorem presented_after_another_key :
    ∃ machines machine,
      run Machines.step (.start .sample []) (connects ++ failsOn "ssh-ed25519 x") =
        some machines ∧
      machines.entries["a".toList]? = some machine ∧ machines.Presented machine := by
  obtain ⟨machines, hrun, machine, hentry, hchanged⟩ : ∃ machines,
      run Machines.step (.start .sample []) (connects ++ failsOn "ssh-ed25519 x") =
        some machines ∧
      ∃ machine, machines.entries["a".toList]? = some machine ∧
        (machines.link machine).hostKeyChanged := by
    decide +kernel
  have hall := host_key_changed_only_if_presented .sample [] hrun (by decide +kernel)
  exact ⟨machines, machine, hrun, hentry, (hall "a" machine hentry).2 hchanged⟩

end Cirrocumulus.Ssh
