/-
# The forwards that the edge uses

The edge sends a request for a Machine-backed App to a local port of the Node. A link
only says that a Machine is up while its task has an `ssh` that it has not accounted for,
and that `ssh` was started with a forward for each App of the Machine. A Machine whose
host key changed may have ports that nothing forwards, and is never up again.
-/

import Cirrocumulus.Ssh.Parts

namespace Cirrocumulus.Ssh

open Std (ExtTreeMap)
open Node (Ipv4Addr Resolution)
open Lib List Option

variable {tunnel : Tunnel} {id : Nat} {machine : Machine} {name : Str}

/-- The `ssh` that a Machine's task has started and not accounted for yet. -/
def Machines.owned (machines : Machines) (machine : Machine) : Option SshProcess :=
  machines.tunnels[machine.tunnel]?.bind fun tunnel =>
    tunnel.pc.process.bind fun process => machines.processes[process]?

/-- The ports, the links and the processes match. -/
structure Machines.Forwarded (machines : Machines) : Prop where
  ports : ∀ {name : Str} {machine}, machines.entries[name]? = some machine →
    DistinctPorts machine.apps
  forwards : ∀ {name : Str} {machine} {tunnel},
    machines.entries[name]? = some machine →
      machines.tunnels[machine.tunnel]? = some tunnel → tunnel.link.hostKeyChanged = false →
        Forwards machine.apps tunnel.forwards
  up : ∀ {id : Nat} {tunnel}, machines.tunnels[id]? = some tunnel →
    tunnel.link.status = .up → tunnel.pc = .dropped ∨ ∃ process, tunnel.pc.process = some process
  dropped : ∀ {id : Nat} {tunnel}, machines.tunnels[id]? = some tunnel →
    tunnel.pc = .dropped → tunnel.aborted

namespace Machines.Forwarded

variable {ok : Machines → Event → Prop} {machines next : Machines}

theorem start (stored : Stored) (lines : List Str) : (Machines.start stored lines).Forwarded := by
  refine ⟨?_, ?_, ?_, ?_⟩ <;> simp [Machines.start]

/-- A link that said once that the host key changed says so for ever. -/
theorem hostKeyChanged_of_tunnelMove (htended : machines.Tended)
    {tunnel'} (htunnel : machines.tunnels[id]? = some tunnel)
    (hmove : TunnelMove ok machines id tunnel') (hwired : machines.Wired)
    (hsame : tunnel'.link.hostKeyChanged = false) : tunnel.link.hostKeyChanged = false := by
  cases hmove with
  | created hid =>
    rw [hid, hwired.fresh] at htunnel
    cases htunnel
  | kept hbefore =>
    cases htunnel.symm.trans hbefore
    exact hsame
  | task hbefore hstep =>
    cases htunnel.symm.trans hbefore
    cases hstep with
    | unspawned | spawned | stopped | reaped | wokeUp | dropped => exact hsame
    | noted hpc | heard hpc =>
      exact htended.hostKeyChanged_eq_false htunnel (by simp [hpc]) (by simp [hpc])

section

variable (h : machines.Forwarded)
include h

theorem ports_of_move (hmove : Move ok machines next)
    (hentry : next.entries[name]? = some machine) : DistinctPorts machine.apps := by
  have hset {machine'} (hports : DistinctPorts machine'.apps)
      (hfound : (machines.setEntry machine').entries[name]? = some machine) :
      DistinctPorts machine.apps := by
    obtain ⟨-, rfl⟩ | ⟨-, hfound⟩ := of_lookup_insert hfound
    · exact hports
    · exact h.ports hfound
  cases hmove with
  | books | opened | written | unwritten | task | checked | printed | exited =>
    exact h.ports hentry
  | connected hinstalls _ _ hports | restarted hinstalls _ _ _ _ _ hports =>
    rw [hinstalls.entries] at hentry
    split at hentry
    · cases hentry
      exact hports
    · exact h.ports hentry
  | reassigned _ _ hports => exact hset hports hentry
  | fewerApps hupdates happs =>
    refine hset ?_ hentry
    intro name other app app' hname hother
    exact h.ports hupdates.entry (happs hname) (happs hother)
  | removed =>
    exact h.ports (of_lookup_erase hentry).2
  | disconnected => simp [disconnectAll] at hentry

theorem forwards_of_move (hcoherent : machines.Coherent)
    (hmove : Move ok machines next) (hentry : next.entries[name]? = some machine)
    (htunnel : next.tunnels[machine.tunnel]? = some tunnel)
    (hsame : tunnel.link.hostKeyChanged = false) : Forwards machine.apps tunnel.forwards := by
  -- An entry that the move leaves alone keeps its tunnel, with its forwards.
  have hkept (hold : machines.entries[name]? = some machine) :
      Forwards machine.apps tunnel.forwards := by
    obtain ⟨before, hbefore, -⟩ := hcoherent.wired.entry hold
    have hinv := hmove.tunnel_inv htunnel
    rw [(hinv.same hcoherent.wired hbefore).2.2]
    exact h.forwards hold hbefore
      (hostKeyChanged_of_tunnelMove hcoherent.tended hbefore hinv hcoherent.wired hsame)
  cases hmove with
  | books | opened | written | unwritten | task | checked | printed | exited =>
    exact hkept hentry
  | connected hinstalls _ _ _ hforwards | restarted hinstalls _ _ _ _ _ _ hforwards =>
    rw [hinstalls.entries] at hentry
    split at hentry
    · cases hentry
      rw [hinstalls.tunnels, if_pos hinstalls.tunnel] at htunnel
      cases htunnel
      exact hforwards
    · exact hkept hentry
  | reassigned hupdates hlink =>
    simp only [setEntry, lookup_insert] at hentry htunnel
    split at hentry
    · cases hentry
      rw [link, ← hupdates.tunnel, htunnel, map_some, getD_some,
        hsame] at hlink
      cases hlink
    · exact hkept hentry
  | fewerApps hupdates happs =>
    simp only [setEntry, lookup_insert] at hentry htunnel
    split at hentry
    · cases hentry
      rw [hupdates.tunnel] at htunnel
      intro name app happ
      exact h.forwards hupdates.entry htunnel hsame (happs happ)
    · exact hkept hentry
  | removed =>
    exact hkept (of_lookup_erase hentry).2
  | disconnected => simp [disconnectAll] at hentry

theorem up_of_move (hmove : Move ok machines next)
    (htunnel : next.tunnels[id]? = some tunnel) (hup : tunnel.link.status = .up) :
    tunnel.pc = .dropped ∨ ∃ process, tunnel.pc.process = some process := by
  -- A task that has no `ssh` has a link that is down.
  have hdown {before} (hbefore : machines.tunnels[id]? = some before)
      (hpc : before.pc = .loop ∨ before.pc = .sleeping) : before.link.status ≠ .up := by
    intro hlink
    rcases h.up hbefore hlink with hdropped | ⟨process, hprocess⟩
    · rcases hpc with hpc | hpc <;> rw [hpc] at hdropped <;> cases hdropped
    · rcases hpc with hpc | hpc <;> rw [hpc] at hprocess <;> cases hprocess
  cases hmove.tunnel_inv htunnel with
  | created => cases hup
  | kept hbefore =>
    have hkept := h.up hbefore hup
    exact hkept
  | task hbefore hstep =>
    cases hstep with
    | unspawned hpc =>
      have hlink := hdown hbefore (.inl hpc)
      exact absurd hup hlink
    | wokeUp hpc =>
      have hlink := hdown hbefore (.inr hpc)
      exact absurd hup hlink
    | spawned | heard | stopped | reaped => exact .inr ⟨_, rfl⟩
    | noted => cases hup
    | dropped => exact .inl rfl

theorem dropped_of_move (hmove : Move ok machines next)
    (htunnel : next.tunnels[id]? = some tunnel) (hpc : tunnel.pc = .dropped) :
    tunnel.aborted := by
  cases hmove.tunnel_inv htunnel with
  | created => cases hpc
  | kept hbefore => exact Bool.or_eq_true_iff.mpr (.inr (h.dropped hbefore hpc))
  | task hbefore hstep =>
    cases hstep with
    | unspawned | spawned | heard | stopped | reaped | wokeUp => cases hpc
    | noted => split at hpc <;> cases hpc
    | dropped haborted => exact haborted

theorem of_move (hcoherent : machines.Coherent) (hmove : Move ok machines next) : next.Forwarded :=
  ⟨h.ports_of_move hmove, h.forwards_of_move hcoherent hmove, h.up_of_move hmove,
    h.dropped_of_move hmove⟩

/-- A Machine that is up has an `ssh` that forwards to each of its Apps. -/
theorem owned_of_up (hcoherent : machines.Coherent)
    (hentry : machines.entries[name]? = some machine) (hup : (machines.link machine).status = .up) :
    ∃ ssh, machines.owned machine = some ssh ∧ Forwards machine.apps ssh.forwards := by
  obtain ⟨tunnel, htunnel, -, -, hruns⟩ := hcoherent.wired.entry hentry
  rw [link, htunnel, map_some, getD_some] at hup
  have hsame : tunnel.link.hostKeyChanged = false := by
    cases hchanged : tunnel.link.hostKeyChanged with
    | false => rfl
    | true => cases hup.symm.trans (hcoherent.tended.link htunnel hchanged).1
  rcases h.up htunnel hup with hdropped | ⟨process, hprocess⟩
  · cases hruns.symm.trans (h.dropped htunnel hdropped)
  · obtain ⟨ssh, hssh, howner⟩ := hcoherent.tended.pc htunnel hprocess
    obtain ⟨found, hfound, -, hforwards⟩ := hcoherent.tended.process hssh
    rw [howner] at hfound
    cases htunnel.symm.trans hfound
    refine ⟨ssh, ?_, ?_⟩
    · rw [owned, htunnel, bind_some, hprocess, bind_some, hssh]
    · rw [hforwards]
      exact h.forwards hentry htunnel hsame

end

end Machines.Forwarded

/-! ## What the edge is told -/

/-- An answer of `resolve` is about an App that has the hostname. -/
theorem Machines.resolve_eq_some {machines : Machines} {host resolution}
    (h : machines.resolve host = some resolution) :
    ∃ (name app : Str) (machine : Machine) (found : MachineApp),
      machines.entries[name]? = some machine ∧ machine.apps[app]? = some found ∧
        found.route.host = host ∧ machines.answer machine found = resolution := by
  obtain ⟨⟨name, machine⟩, hmem, hfound⟩ := exists_of_findSome?_eq_some h
  obtain ⟨⟨app, found⟩, hfind, hanswer⟩ := map_eq_some_iff.mp hfound
  obtain ⟨happ, hhost⟩ := lookup_of_find? hfind
  exact ⟨name, app, machine, found, mem_items.mp hmem, happ,
    beq_iff_eq.mp hhost, hanswer⟩

/-- An App is reached through its Machine's `ssh`, which forwards the port to it and to no
other. -/
structure Machines.Reaches (machines : Machines) (host : Str) (port : Nat) (machine : Machine)
    (name : Str) (found : MachineApp) (ssh : SshProcess) : Prop where
  app : machine.apps[name]? = some found
  hostname : found.route.host = host
  owned : machines.owned machine = some ssh
  forward : (port, found.route.port) ∈ ssh.forwards
  only : ∀ {other : Str} {app'}, machine.apps[other]? = some app' →
    app'.localPort = port → other = name

/-- In every state of every run, the edge is sent to a port that the Machine's own `ssh`
forwards to the App. -/
theorem upstream_is_forwarded (stored : Stored) (lines : List Str) {schedule : List Event}
    {machines : Machines}
    (hrun : run Machines.step (.start stored lines) schedule = some machines) {host : Str}
    {ip : Ipv4Addr} {port : Nat} (h : machines.resolve host = some (.upstream ip port)) :
    ip = 0x7F000001#32 ∧ ∃ (name : Str) (machine : Machine) (app : Str) (found : MachineApp)
      (ssh : SshProcess), machines.entries[name]? = some machine ∧
        machines.Reaches host port machine app found ssh := by
  obtain ⟨hcoherent, hforwarded⟩ := Machines.Coherent.run_of_moves Machines.Forwarded
    (fun hcoherent h hmove => h.of_move hcoherent hmove) (.start stored lines)
    (.start stored lines) Along.trivial hrun
  obtain ⟨name, app, machine, found, hentry, happ, hhost, hanswer⟩ := Machines.resolve_eq_some h
  unfold Machines.answer at hanswer
  dsimp only at hanswer
  split at hanswer
  · rename_i hup
    cases hanswer
    obtain ⟨ssh, howned, hforwards⟩ := hforwarded.owned_of_up hcoherent hentry hup
    refine ⟨rfl, name, machine, app, found, ssh, hentry, happ, hhost, howned, hforwards happ, ?_⟩
    intro other app' hother hport
    exact hforwarded.ports hentry hother happ hport
  · cases hanswer

/-- The theorem applies: a Machine with an App is up. -/
theorem reaches_after_login :
    ∃ (machines : Machines) (name : Str) (machine : Machine) (app : Str) (found : MachineApp)
      (ssh : SshProcess), run Machines.step (.start .sample [])
        (connects ++ [.print 0 "Authenticated to a", .readLine 0]) = some machines ∧
      machines.entries[name]? = some machine ∧
        machines.Reaches "web.example" 8080 machine app found ssh := by
  obtain ⟨machines, hrun, hresolve⟩ : ∃ machines, run Machines.step (.start .sample [])
        (connects ++ [.print 0 "Authenticated to a", .readLine 0]) = some machines ∧
      machines.resolve "web.example" = some (.upstream 0x7F000001#32 8080) := by
    decide +kernel
  obtain ⟨-, name, machine, app, found, ssh, hentry, hreaches⟩ :=
    upstream_is_forwarded .sample [] hrun hresolve
  exact ⟨machines, name, machine, app, found, ssh, hrun, hentry, hreaches⟩

end Cirrocumulus.Ssh
