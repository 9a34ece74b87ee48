/-
# What a step does to the Machines

Each event is a few changes in a row, one for each time an entry, a task, a process or the
file of known hosts changes. `Move` lists these changes with what was found before them,
and a step is a chain of moves. Invariants are shown over single moves.

A schedule may promise something about its events, `ok` here. A move keeps what was
promised about the event it belongs to.
-/

import Cirrocumulus.Ssh.Tunnels
import Mathlib.Data.List.Nodup

namespace Cirrocumulus.Ssh

open Std (ExtTreeMap)
open Node (MachineAppRequest Outcome Route)
open Lib List Option

variable {given : Except Str (List Nat)} {id : Nat} {machine old : Machine} {name : Str}
  {outcome : Outcome} {opens : Bool}

/-! ## Ports -/

/-- No two Apps have one local port. -/
def DistinctPorts (apps : ExtTreeMap Str MachineApp compare) : Prop :=
  ∀ ⦃name other : Str⦄ ⦃app app' : MachineApp⦄, apps[name]? = some app →
    apps[other]? = some app' → app.localPort = app'.localPort → name = other

/-- Every App has a forward from its local port to its route's port. -/
def Forwards (apps : ExtTreeMap Str MachineApp compare) (forwards : List (Nat × Nat)) : Prop :=
  ∀ ⦃name : Str⦄ ⦃app : MachineApp⦄, apps[name]? = some app →
    (app.localPort, app.route.port) ∈ forwards

section

variable {apps : ExtTreeMap Str MachineApp compare} {ports : List Nat}

section

variable (h : ports.length = apps.size)
include h

theorem map_fst_assigned : (assigned apps ports).map Prod.fst = apps.keys := by
  have hlength : apps.toList.length ≤ ports.length := by
    rw [ExtTreeMap.length_toList, h]
  calc
    (assigned apps ports).map Prod.fst = ((apps.toList.zip ports).map Prod.fst).map Prod.fst := by
      simp [assigned, Function.comp_def]
    _ = apps.toList.map Prod.fst := by rw [map_fst_zip hlength]
    _ = apps.keys := ExtTreeMap.map_fst_toList_eq_keys

theorem map_localPort_assigned : (assigned apps ports).map (·.2.localPort) = ports := by
  have hlength : ports.length ≤ apps.toList.length := by
    rw [ExtTreeMap.length_toList, h]
  calc
    (assigned apps ports).map (·.2.localPort) = (apps.toList.zip ports).map Prod.snd := by
      simp [assigned, Function.comp_def]
    _ = ports := map_snd_zip hlength

theorem lookup_assigned {app} :
    (ExtTreeMap.ofList (assigned apps ports) compare)[name]? = some app ↔
      (name, app) ∈ assigned apps ports := by
  apply lookup_ofList
  rw [map_fst_assigned h]
  exact ExtTreeMap.nodup_keys

/-- Ports that were held at once are different, and each is forwarded. -/
theorem distinctPorts_assigned (hnodup : ports.Nodup) :
    DistinctPorts (ExtTreeMap.ofList (assigned apps ports) compare) := by
  intro name other app app' hname hother hport
  rw [lookup_assigned h] at hname hother
  rw [← map_localPort_assigned h] at hnodup
  exact congrArg Prod.fst (inj_on_of_nodup_map hnodup hname hother hport)

theorem forwards_assigned :
    Forwards (ExtTreeMap.ofList (assigned apps ports) compare)
      ((assigned apps ports).map fun app => (app.2.localPort, app.2.route.port)) := by
  intro name app hname
  exact List.mem_map_of_mem ((lookup_assigned h).mp hname)

end

end

/-! ## Moves -/

/-- The Machine whose Apps an event changes. -/
def Machines.changed (machines : Machines) : Event → Option Machine
  | .addApp request _ _ _ => machines.entries[request.machine]?
  | .removeApp name _ _ =>
    (machines.entries.toList.find? fun item => item.2.apps.contains name).map Prod.snd
  | _ => none

/-- What was promised of the event that replaces a Machine's tunnel. -/
def Machines.Promised (ok : Machines → Event → Prop) (machines : Machines) (first : Nat) : Prop :=
  ∃ origin event machine, ok origin event ∧ origin.changed event = some machine ∧
    (origin.link machine).hostKeyChanged = false ∧ machine.first = first ∧
    origin.processes = machines.processes

/-- The entry `old` is replaced by one for the same Machine. -/
structure Machines.Updates (machines : Machines) (old machine : Machine) : Prop where
  entry : machines.entries[old.record.name]? = some old
  record : machine.record = old.record
  tunnel : machine.tunnel = old.tunnel
  first : machine.first = old.first

/-- Whether a tunnel is that of the entry under a name. -/
def Machines.runsFor (machines : Machines) (name : Str) (id : Nat) : Bool :=
  machines.entries[name]?.any fun machine => id = machine.tunnel

/-- The tunnel, aborted if `cut`. -/
def Tunnel.abortIf (cut : Bool) (tunnel : Tunnel) : Tunnel :=
  { tunnel with aborted := cut || tunnel.aborted }

@[simp]
theorem Tunnel.abortIf_false : abortIf false = fun tunnel => tunnel := rfl

/-- The entry under the Machine's name is replaced by one with a new tunnel. -/
structure Machines.Installs (machines : Machines) (machine : Machine)
    (forwards : List (Nat × Nat)) (next : Machines) : Prop where
  tunnel : machine.tunnel = machines.nextTunnel
  next_eq : next = { machines with
    entries := next.entries, tunnels := next.tunnels, nextTunnel := machines.nextTunnel + 1 }
  entries : ∀ name : Str, next.entries[name]? =
    if name = machine.record.name then some machine else machines.entries[name]?
  tunnels : ∀ id : Nat, next.tunnels[id]? =
    if id = machines.nextTunnel then
      some ⟨machine.record, machine.first, forwards, .fresh, .loop, retryFirst, false⟩
    else machines.tunnels[id]?.map (.abortIf (machines.runsFor machine.record.name id))

/-- What one step of a task leaves: its link, where it is, and the processes. -/
inductive TaskStep (ok : Machines → Event → Prop) (machines : Machines) (id : Nat)
    (tunnel : Tunnel) : Link → TunnelPc → ExtTreeMap Nat SshProcess compare → Nat → Prop
  | unspawned (hpc : tunnel.pc = .loop) (e : Str) :
      TaskStep ok machines id tunnel tunnel.link
        (.noting none { SshEnded.fresh with last := "run ssh: " ++ e })
        machines.processes machines.nextProcess
  | spawned (hpc : tunnel.pc = .loop) :
      TaskStep ok machines id tunnel tunnel.link (.reading machines.nextProcess .fresh)
        (machines.processes.insert machines.nextProcess
          ⟨id, tunnel.first, tunnel.forwards, [], [], [], true⟩) (machines.nextProcess + 1)
  | heard {process ended ended' ssh line unread link} (hpc : tunnel.pc = .reading process ended)
      (hssh : machines.processes[process]? = some ssh) (hunread : ssh.unread = line :: unread)
      (hlink : link = tunnel.link ∨ link = ⟨.up, none, false⟩)
      (hended : ended'.hostKeyChanged ↔
        ended.hostKeyChanged ∨ line = hostKeyFailed) :
      TaskStep ok machines id tunnel link (.reading process ended')
        (machines.processes.insert process { ssh with unread }) machines.nextProcess
  | stopped {process ended} (fails : Bool) (hpc : tunnel.pc = .reading process ended)
      (hok : ok machines (.stopReading id fails)) (hread : fails = false →
        ∃ ssh, machines.processes[process]? = some ssh ∧ ssh.unread = [] ∧ ssh.running = false) :
      TaskStep ok machines id tunnel tunnel.link (.waiting process ended)
        machines.processes machines.nextProcess
  | reaped {process ended} (hpc : tunnel.pc = .waiting process ended) :
      TaskStep ok machines id tunnel tunnel.link (.noting (some process) ended)
        machines.processes machines.nextProcess
  | noted {process ended} (hpc : tunnel.pc = .noting process ended) :
      TaskStep ok machines id tunnel ⟨.unreachable, some ended.why, ended.hostKeyChanged⟩
        (if ended.hostKeyChanged then .finished else .sleeping)
        machines.processes machines.nextProcess
  | wokeUp (hpc : tunnel.pc = .sleeping) :
      TaskStep ok machines id tunnel tunnel.link .loop machines.processes machines.nextProcess
  | dropped (haborted : tunnel.aborted) :
      TaskStep ok machines id tunnel tunnel.link .dropped machines.processes machines.nextProcess

/-- One change. -/
inductive Move (ok : Machines → Event → Prop) (machines : Machines) : Machines → Prop
  | books (stored : Stored) (adding : Option Adding)
      (restoring : List (MachineRecord × List (Str × Route))) :
      Move ok machines { machines with stored, adding, restoring }
  | opened (rewrite : Rewrite) : Move ok machines (machines.openKnownHosts rewrite)
  | written (pending : Option MachineRecord) :
      Move ok machines { machines with
        knownHosts := ⟨machines.pins pending, true⟩, rewriting := none }
  | unwritten : Move ok machines { machines with rewriting := none }
  | connected {machine : Machine} {forwards next}
      (hinstalls : machines.Installs machine forwards next)
      (hfirst : machine.first = machines.nextTunnel)
      (hpin : machine.record.pin ∈ machines.knownHosts.lines) (hports : DistinctPorts machine.apps)
      (hforwards : Forwards machine.apps forwards) : Move ok machines next
  | restarted {old machine : Machine} {forwards next}
      (hinstalls : machines.Installs machine forwards next)
      (hentry : machines.entries[old.record.name]? = some old)
      (hrecord : machine.record = old.record) (hfirst : machine.first = old.first)
      (hlink : (machines.link old).hostKeyChanged = false)
      (hok : machines.Promised ok machine.first) (hports : DistinctPorts machine.apps)
      (hforwards : Forwards machine.apps forwards) : Move ok machines next
  /-- A Machine whose host key changed gets ports. -/
  | reassigned {old machine : Machine} (hupdates : machines.Updates old machine)
      (hlink : (machines.link old).hostKeyChanged)
      (hports : DistinctPorts machine.apps) : Move ok machines (machines.setEntry machine)
  /-- Its tunnel can't be replaced, and a Machine keeps it without one App. -/
  | fewerApps {old machine : Machine} (hupdates : machines.Updates old machine)
      (happs : ∀ {name : Str} {app : MachineApp}, machine.apps[name]? = some app →
        old.apps[name]? = some app) : Move ok machines (machines.setEntry machine)
  | removed {name : Str} {machine} (hentry : machines.entries[name]? = some machine) :
      Move ok machines { machines.abort machine.tunnel with
        entries := machines.entries.erase name }
  | disconnected : Move ok machines machines.disconnectAll
  | task {id tunnel link pc processes nextProcess} (htunnel : machines.tunnels[id]? = some tunnel)
      (hstep : TaskStep ok machines id tunnel link pc processes nextProcess) (wait : Nat) :
      Move ok machines
        { machines.setTunnel id { tunnel with link, pc, wait } with processes, nextProcess }
  | checked {id ssh} (hssh : machines.processes[id]? = some ssh)
      (hrunning : ssh.running) (key : Str) (hok : ok machines (.check id key)) :
      Move ok machines (machines.setProcess id { ssh with
        reads := ssh.reads ++ [(machines.knownHosts.lines, key)] })
  | printed {id ssh} (hssh : machines.processes[id]? = some ssh)
      (hrunning : ssh.running) (line : Str) (hok : ok machines (.print id line)) :
      Move ok machines (machines.setProcess id { ssh with
        printed := ssh.printed ++ [line], unread := ssh.unread ++ [line] })
  | exited {id ssh} (hssh : machines.processes[id]? = some ssh) (hrunning : ssh.running) :
      Move ok machines (machines.setProcess id { ssh with running := false })

/-- A chain of moves. -/
abbrev Moves (ok : Machines → Event → Prop) : Machines → Machines → Prop :=
  Relation.ReflTransGen (Move ok)

/-! ## Every step is a chain of moves -/

section

variable {ok : Machines → Event → Prop} {machines next : Machines}

theorem freeLocalPorts_eq_some {n ports}
    (h : freeLocalPorts n given = some (.ok ports)) : ports.length = n ∧ ports.Nodup := by
  unfold freeLocalPorts at h
  split at h
  · cases h
  · split at h
    · rename_i hports
      cases h
      exact hports
    · cases h

/-- What `start_tunnel` does when it succeeds. -/
theorem startTunnel_eq_ok {machine'}
    (h : machines.startTunnel machine given = some (.ok (next, machine'))) :
    ∃ (renewed : Machine) (forwards : List (Nat × Nat)), renewed.record = machine.record ∧
      renewed.tunnel = machine.tunnel ∧ renewed.first = machine.first ∧
      DistinctPorts renewed.apps ∧ Forwards renewed.apps forwards ∧
      ((machines.link machine).hostKeyChanged ∧ (next, machine') = (machines, renewed) ∨
        (machines.link machine).hostKeyChanged = false ∧
          (next, machine') = machines.replaceTunnel renewed forwards) := by
  unfold Machines.startTunnel at h
  split at h
  · cases h
  · obtain ⟨answer, hfree, h⟩ := map_eq_some_iff.mp h
    obtain ⟨ports, rfl, hstarted⟩ := except_map_eq_ok.mp h
    obtain ⟨hlength, hnodup⟩ := freeLocalPorts_eq_some hfree
    refine ⟨{ machine with apps := ExtTreeMap.ofList (assigned machine.apps ports) }, _, rfl, rfl,
      rfl, distinctPorts_assigned hlength hnodup, forwards_assigned hlength, ?_⟩
    dsimp only at hstarted
    split at hstarted
    · rename_i hchanged
      exact .inl ⟨hchanged, hstarted.symm⟩
    · rename_i hchanged
      have hsame : (machines.link machine).hostKeyChanged = false := Bool.eq_false_iff.mpr hchanged
      exact .inr ⟨hsame, hstarted.symm⟩

theorem lookup_abort (id other : Nat) :
    (machines.abort id).tunnels[other]? = machines.tunnels[other]?.map (.abortIf (other = id)) := by
  unfold Machines.abort
  split
  · rename_i tunnel htunnel
    simp only [Machines.setTunnel, lookup_insert]
    by_cases heq : other = id
    · simp [heq, htunnel, Tunnel.abortIf]
    · simp [heq]
  · rename_i hnone
    by_cases heq : other = id
    · simp [heq, hnone]
    · simp [heq]

theorem abort_eq (id : Nat) : machines.abort id =
    { machines with tunnels := (machines.abort id).tunnels } := by
  unfold Machines.abort
  split <;> rfl

theorem Machines.installs_of_replaceTunnel {forwards} (hupdates : machines.Updates old machine) :
    machines.Installs (machines.replaceTunnel machine forwards).2 forwards
      ((machines.replaceTunnel machine forwards).1.setEntry
        (machines.replaceTunnel machine forwards).2) where
  tunnel := rfl
  next_eq := by
    simp only [replaceTunnel]
    rw [abort_eq]
    rfl
  entries := by
    simp only [replaceTunnel]
    rw [abort_eq]
    exact lookup_insert _ _ _
  tunnels := by
    intro id
    have hruns : machines.runsFor machine.record.name id = decide (id = machine.tunnel) := by
      rw [runsFor, hupdates.record, hupdates.entry, hupdates.tunnel]
      rfl
    simp only [replaceTunnel, setEntry, setTunnel, lookup_insert, lookup_abort, hruns]

/-- A Machine that is there is updated in one move. -/
theorem Move.of_startTunnel {machine'} (hupdates : machines.Updates old machine)
    (hok : (machines.link old).hostKeyChanged = false → machines.Promised ok machine.first)
    (h : machines.startTunnel machine given = some (.ok (next, machine'))) :
    Move ok machines (next.setEntry machine') := by
  obtain ⟨renewed, forwards, hrecord, htunnel, hfirst, hports, hforwards, hcase⟩ :=
    startTunnel_eq_ok h
  have hrenews : machines.Updates old renewed :=
    ⟨hupdates.entry, hrecord.trans hupdates.record, htunnel.trans hupdates.tunnel,
      hfirst.trans hupdates.first⟩
  have hlink : machines.link machine = machines.link old := by
    rw [Machines.link, Machines.link, hupdates.tunnel]
  rw [hlink] at hcase
  rcases hcase with ⟨hchanged, heq⟩ | ⟨hsame, heq⟩
  · cases heq
    exact .reassigned hrenews hchanged hports
  · cases heq
    refine .restarted (Machines.installs_of_replaceTunnel hrenews) hrenews.entry hrenews.record
      hrenews.first hsame ?_ hports hforwards
    have hpromised := hok hsame
    rw [← hfirst] at hpromised
    exact hpromised

/-- A Machine's entry goes on with fewer Apps, whatever `start_tunnel` answers. -/
theorem Move.of_fewerApps {apps started}
    (hstart : machines.startTunnel (Machines.withApps old apps) given = some started)
    (h : machines.keepEntry (Machines.withApps old apps) started = next)
    (hentry : machines.entries[old.record.name]? = some old)
    (happs : ∀ {name : Str} {app : MachineApp}, apps[name]? = some app → old.apps[name]? = some app)
    (hok : (machines.link old).hostKeyChanged = false → machines.Promised ok old.first) :
    Move ok machines next := by
  have hupdates : machines.Updates old (Machines.withApps old apps) := ⟨hentry, rfl, rfl, rfl⟩
  cases started with
  | error e =>
    subst h
    exact .fewerApps hupdates happs
  | ok result =>
    subst h
    exact .of_startTunnel hupdates hok hstart

/-- Every entry is under its own name. -/
def Machines.Named (machines : Machines) : Prop :=
  ∀ {name : Str} {machine : Machine}, machines.entries[name]? = some machine →
    machine.record.name = name

/-- Entries are under their names, and the number of the next tunnel is free. -/
structure Machines.Numbered (machines : Machines) : Prop where
  named : machines.Named
  fresh : machines.tunnels[machines.nextTunnel]? = none
  entry_lt : ∀ {name : Str} {machine : Machine}, machines.entries[name]? = some machine →
    machine.tunnel < machines.nextTunnel

theorem Moves.of_recordApp {request again} (hentry : machines.entries[old.record.name]? = some old)
    (hok : (machines.link old).hostKeyChanged = false → machines.Promised ok old.first)
    (h : machines.recordApp old request outcome again = some next) : Moves ok machines next := by
  unfold Machines.recordApp at h
  generalize insertOutcome machines.stored.apps request.name outcome = inserted at h
  dsimp only at h
  split at h
  · cases h
    exact .single (.books _ _ _)
  · obtain ⟨started, hstart, h⟩ := map_eq_some_iff.mp h
    have hmove := Move.of_fewerApps hstart h hentry (fun happ => (of_lookup_erase happ).2) hok
    exact .head (.books _ _ _) (.single hmove)

/-- What was promised of an event still stands after its first new tunnel. -/
theorem Machines.promised_of_startTunnel {event apps}
    (hok : ok machines event) (hchanged : machines.changed event = some old)
    (h : machines.startTunnel (withApps old apps) given = some (.ok (next, machine)))
    (hlink : ((next.setEntry machine).link machine).hostKeyChanged = false) :
    (next.setEntry machine).Promised ok machine.first := by
  obtain ⟨renewed, forwards, -, htunnel, hfirst, -, -, hcase⟩ := startTunnel_eq_ok h
  rcases hcase with ⟨hkey, heq⟩ | ⟨hkey, heq⟩
  · cases heq
    have hsame : (machines.setEntry machine).link machine =
        machines.link (withApps old apps) := by
      rw [link, htunnel]
      rfl
    rw [hsame, hkey] at hlink
    cases hlink
  · cases heq
    refine ⟨machines, event, old, hok, hchanged, hkey, hfirst.symm, ?_⟩
    dsimp only
    rw [abort_eq]
    rfl

theorem Moves.of_addApp (hnamed : machines.Named) {request again}
    (hok : ok machines (.addApp request given outcome again))
    (h : machines.addApp request given outcome again = some next) : Moves ok machines next := by
  unfold Machines.addApp at h
  split at h
  · cases h
  · obtain ⟨old, hentry, h⟩ := bind_eq_some_iff.mp h
    obtain ⟨started, hstart, h⟩ := bind_eq_some_iff.mp h
    have hname := hnamed hentry
    have hpromised (hlink : (machines.link old).hostKeyChanged = false) :
        machines.Promised ok old.first :=
      ⟨machines, _, old, hok, hentry, hlink, rfl, rfl⟩
    have hold : machines.entries[old.record.name]? = some old := by rw [hname, hentry]
    split at h
    · cases h
      exact .refl
    · rename_i started machine
      have hupdates : machines.Updates old (Machines.withApps old
          (old.apps.insert request.name ⟨request.route, 0⟩)) := ⟨hold, rfl, rfl, rfl⟩
      refine .head (.of_startTunnel hupdates hpromised hstart) ?_
      refine of_recordApp ?_ (Machines.promised_of_startTunnel hok hentry hstart) h
      simp only [Machines.setEntry, lookup_insert, if_true]

theorem Moves.of_removeApp (hnamed : machines.Named)
    (hok : ok machines (.removeApp name outcome given))
    (h : machines.removeApp name outcome given = some next) : Moves ok machines next := by
  obtain ⟨⟨key, old⟩, hfind, h⟩ := bind_eq_some_iff.mp h
  have hentry := (lookup_of_find? hfind).1
  have hname : old.record.name = key := hnamed hentry
  dsimp only at h
  split at h
  · obtain ⟨started, hstart, h⟩ := map_eq_some_iff.mp h
    have hold : machines.entries[old.record.name]? = some old := by
      rw [hname]
      exact hentry
    have hpromised (hlink : (machines.link old).hostKeyChanged = false) :
        machines.Promised ok old.first := by
      refine ⟨machines, _, old, hok, ?_, hlink, rfl, rfl⟩
      rw [Machines.changed, hfind]
      rfl
    have hmove := Move.of_fewerApps hstart h hold (fun happ => (of_lookup_erase happ).2)
      hpromised
    exact .head (.books _ _ _) (.single hmove)
  · cases h
    exact .single (.books _ _ _)

theorem Moves.of_remove (h : machines.remove name outcome opens = some next) :
    Moves ok machines next := by
  obtain ⟨machine, hentry, h⟩ := bind_eq_some_iff.mp h
  split at h
  · cases h
  · dsimp only at h
    split at h
    · cases h
      refine .head (.books { machines.stored with
        machines := outcome.applied (·.erase name) machines.stored.machines } machines.adding
        machines.restoring) (.head (.removed hentry) ?_)
      split
      · exact .single (.opened .remove)
      · exact .refl
    · cases h
      exact .single (.books _ _ _)

theorem Machines.installs_of_putEntry {forwards} (hnumbered : machines.Numbered)
    (htunnel : machine.tunnel = machines.nextTunnel) :
    machines.Installs (machines.replaceTunnel machine forwards).2 forwards
      ((machines.replaceTunnel machine forwards).1.putEntry
        (machines.replaceTunnel machine forwards).2) := by
  have hsame : machines.abort machine.tunnel = machines := by
    rw [abort, htunnel, hnumbered.fresh]
  have hentries : (machines.replaceTunnel machine forwards).1.entries = machines.entries := by
    rw [replaceTunnel, hsame]
    rfl
  have hname : (machines.replaceTunnel machine forwards).2.record.name = machine.record.name := rfl
  unfold putEntry
  rw [hentries, hname]
  cases hold : machines.entries[machine.record.name]? with
  | none =>
    refine ⟨rfl, ?_, ?_, ?_⟩
    · simp only [replaceTunnel, hsame]
      rfl
    · simp only [replaceTunnel, hsame]
      exact lookup_insert _ _ _
    · intro id
      simp [replaceTunnel, hsame, setEntry, setTunnel,
        lookup_insert, runsFor, hold]
  | some old =>
    have hne : old.tunnel ≠ machines.nextTunnel := (hnumbered.entry_lt hold).ne
    refine ⟨rfl, ?_, ?_, ?_⟩
    · dsimp only
      rw [abort_eq]
      simp only [replaceTunnel, hsame]
      rfl
    · dsimp only
      rw [abort_eq]
      simp only [replaceTunnel, hsame]
      exact lookup_insert _ _ _
    · intro id
      have hruns : machines.runsFor machine.record.name id = decide (id = old.tunnel) := by
        rw [runsFor, hold]
        rfl
      simp only [setEntry, lookup_abort, replaceTunnel, hsame, setTunnel, lookup_insert, hruns]
      by_cases heq : id = machines.nextTunnel
      · simp [heq, hne.symm]
      · simp [heq]

theorem Moves.of_insertMachine {record apps}
    (h : machines.insertMachine record apps given = some next)
    (hpin : record.pin ∈ machines.knownHosts.lines) (hnumbered : machines.Numbered) :
    Moves ok machines next := by
  obtain ⟨started, hstart, h⟩ := map_eq_some_iff.mp h
  split at h
  · rename_i started machine
    subst h
    obtain ⟨renewed, forwards, hrecord, htunnel, hfirst, hports, hforwards, hcase⟩ :=
      startTunnel_eq_ok hstart
    rcases hcase with ⟨hchanged, -⟩ | ⟨-, heq⟩
    · simp [Machines.link, hnumbered.fresh, Link.fresh] at hchanged
    · cases heq
      refine .single (.connected (Machines.installs_of_putEntry hnumbered htunnel) hfirst ?_
        hports hforwards)
      have hpinned : renewed.record.pin ∈ machines.knownHosts.lines := by
        rw [hrecord]
        exact hpin
      exact hpinned
  · subst h
    exact .refl

theorem Moves.of_afterRewrite (rewrite : Rewrite) (written : Bool) :
    Moves ok machines (machines.afterRewrite rewrite written) := by
  unfold Machines.afterRewrite
  split
  · exact .single (.books _ _ _)
  · exact .single (.books _ _ _)
  · split
    · exact .single (.books _ _ _)
    · exact .single (.books _ _ _)
  · exact .refl

theorem Moves.of_writeKnownHosts (hnumbered : machines.Numbered) {written}
    (h : machines.writeKnownHosts written given = some next) : Moves ok machines next := by
  obtain ⟨rewrite, -, h⟩ := bind_eq_some_iff.mp h
  cases written with
  | false =>
    have hnext : { machines with rewriting := none }.afterRewrite rewrite false = next := by
      cases rewrite <;> exact Option.some.inj h
    rw [← hnext]
    exact .head .unwritten (of_afterRewrite rewrite false)
  | true =>
    refine .head (.written rewrite.pending) ?_
    cases rewrite with
    | connect record apps =>
      obtain ⟨inserted, hinsert, rfl⟩ := map_eq_some_iff.mp h
      have hpin : record.pin ∈ machines.pins (some record) := by simp [Machines.pins]
      obtain ⟨hnamed, hfresh, hlt⟩ := hnumbered
      exact (of_insertMachine hinsert hpin ⟨hnamed, hfresh, hlt⟩).trans (of_afterRewrite _ _)
    | pin record =>
      cases h
      exact of_afterRewrite (.pin record) true
    | unpin =>
      cases h
      exact of_afterRewrite .unpin true
    | remove =>
      cases h
      exact of_afterRewrite .remove true

theorem Moves.of_add {ssh hostKey offered}
    (h : machines.add name ssh hostKey offered = some next) : Moves ok machines next := by
  unfold Machines.add at h
  split at h
  · split at h
    · cases h
    · obtain ⟨key, -, rfl⟩ := map_eq_some_iff.mp h
      exact .single (.books _ _ _)
  · cases h

theorem Moves.of_rewriteForAdd (h : machines.rewriteForAdd opens = some next) :
    Moves ok machines next := by
  obtain ⟨rewrite, -, rfl⟩ := map_eq_some_iff.mp h
  split
  · exact .single (.opened rewrite)
  · exact .single (.books _ _ _)

/-- The phases of an add that change only where it is, and its record. -/
theorem Moves.of_adding (accepted : Bool) (outcome : Outcome)
    (h : machines.giveUp = some next ∨ machines.logIn accepted = some next ∨
      machines.recordMachine outcome = some next) : Moves ok machines next := by
  rcases h with h | h | h
  · unfold Machines.giveUp at h
    split at h <;> cases h <;> exact .single (.books _ _ _)
  · unfold Machines.logIn at h
    split at h
    · cases h
      exact .single (.books _ _ _)
    · cases h
  · unfold Machines.recordMachine at h
    split at h
    · cases h
      exact .single (.books _ _ _)
    · cases h

theorem Moves.of_restoreNext (h : machines.restoreNext opens = some next) :
    Moves ok machines next := by
  unfold Machines.restoreNext at h
  split at h
  · cases h
    split
    · exact .single (.opened _)
    · exact .single (.books _ _ _)
  · cases h

/-- A task's line says that it logged in, that the host key failed, or neither. -/
theorem Tunnel.hear_eq {tunnel : Tunnel} {process ended} (line : Str)
    (hpc : tunnel.pc = .reading process ended) : ∃ link ended',
      tunnel.hear process ended line = { tunnel with link, pc := .reading process ended' } ∧
      (link = tunnel.link ∨ link = ⟨.up, none, false⟩) ∧
      (ended'.hostKeyChanged ↔ ended.hostKeyChanged ∨ line = hostKeyFailed) := by
  unfold hear
  split
  · rename_i hauthenticated
    refine ⟨_, _, rfl, .inr rfl, (or_iff_left ?_).symm⟩
    rintro rfl
    revert hauthenticated
    decide
  · split
    · rename_i hline
      exact ⟨_, _, rfl, .inl rfl, by simp [hline]⟩
    · rename_i hline
      split
      · exact ⟨_, ended, by rw [← hpc], .inl rfl, by simp [hline]⟩
      · exact ⟨_, _, rfl, .inl rfl, by simp [hline]⟩

theorem Tunnel.note_eq (tunnel : Tunnel) (ended : SshEnded) : ∃ wait, tunnel.note ended =
    { tunnel with
      link := ⟨.unreachable, some ended.why, ended.hostKeyChanged⟩
      pc := if ended.hostKeyChanged then .finished else .sleeping
      wait } := by
  unfold note
  cases ended.hostKeyChanged <;> exact ⟨_, rfl⟩

/-- A step of a task that leaves the processes alone. -/
theorem Moves.of_withTunnel {step} (hstep : ∀ {tunnel tunnel'}, step tunnel = some tunnel' →
      ∃ link pc wait, tunnel' = { tunnel with link, pc, wait } ∧
        TaskStep ok machines id tunnel link pc machines.processes machines.nextProcess)
    (h : machines.withTunnel id step = some next) : Moves ok machines next := by
  obtain ⟨tunnel, htunnel, h⟩ := bind_eq_some_iff.mp h
  obtain ⟨tunnel', htunnel', rfl⟩ := map_eq_some_iff.mp h
  obtain ⟨link, pc, wait, rfl, hstep⟩ := hstep htunnel'
  exact .single (.task htunnel hstep wait)

theorem Moves.of_spawn {failure}
    (h : machines.spawn id failure = some next) : Moves ok machines next := by
  obtain ⟨tunnel, htunnel, h⟩ := bind_eq_some_iff.mp h
  obtain ⟨hpc, h⟩ := ite_none_right_eq_some.mp h
  cases failure with
  | some e =>
    cases h
    exact .single (.task htunnel (.unspawned hpc e) tunnel.wait)
  | none =>
    cases h
    exact .single (.task htunnel (.spawned hpc) tunnel.wait)

theorem Moves.of_readLine (h : machines.readLine id = some next) : Moves ok machines next := by
  obtain ⟨tunnel, htunnel, h⟩ := bind_eq_some_iff.mp h
  split at h
  · rename_i process ended hpc
    obtain ⟨ssh, hssh, h⟩ := bind_eq_some_iff.mp h
    split at h
    · rename_i line unread hunread
      cases h
      obtain ⟨link, ended', heq, hlink, hended⟩ := Tunnel.hear_eq line hpc
      rw [heq]
      exact .single (.task htunnel (.heard hpc hssh hunread hlink hended) tunnel.wait)
    · cases h
  · cases h

theorem Moves.of_stopReading {fails} (hok : ok machines (.stopReading id fails))
    (h : machines.stopReading id fails = some next) : Moves ok machines next := by
  refine of_withTunnel ?_ h
  intro tunnel tunnel' hstep
  split at hstep
  · rename_i process ended hpc
    obtain ⟨hend, rfl⟩ := ite_some_none_eq_some.mp hstep
    refine ⟨_, _, _, rfl, .stopped fails hpc hok fun hfails => ?_⟩
    rw [hfails, Bool.false_or] at hend
    obtain ⟨ssh, hssh, hempty⟩ := (Option.any_eq_true _ _).mp hend
    rw [Bool.and_eq_true, List.isEmpty_iff, Bool.not_eq_true'] at hempty
    exact ⟨ssh, hssh, hempty⟩
  · cases hstep

theorem Moves.of_task (h : machines.reap id = some next ∨
    machines.note id = some next ∨ machines.wakeUp id = some next ∨
    machines.dropTask id = some next) : Moves ok machines next := by
  rcases h with h | h | h | h <;> refine of_withTunnel ?_ h <;>
    intro tunnel tunnel' hstep
  · split at hstep
    · rename_i process ended hpc
      obtain ⟨-, rfl⟩ := ite_some_none_eq_some.mp hstep
      exact ⟨_, _, _, rfl, .reaped hpc⟩
    · cases hstep
  · split at hstep
    · rename_i process ended hpc
      cases hstep
      obtain ⟨wait, heq⟩ := tunnel.note_eq ended
      exact ⟨_, _, wait, heq, .noted hpc⟩
    · cases hstep
  · obtain ⟨hpc, rfl⟩ := ite_some_none_eq_some.mp hstep
    exact ⟨_, _, _, rfl, .wokeUp hpc⟩
  · obtain ⟨haborted, rfl⟩ := ite_some_none_eq_some.mp hstep
    exact ⟨_, _, _, rfl, .dropped haborted⟩

theorem withProcess_eq_some {step} (h : machines.withProcess id step = some next) :
    ∃ ssh, machines.processes[id]? = some ssh ∧ ssh.running ∧
      next = machines.setProcess id (step ssh) := by
  obtain ⟨ssh, hssh, h⟩ := bind_eq_some_iff.mp h
  split at h
  · rename_i hrunning
    cases h
    exact ⟨ssh, hssh, hrunning, rfl⟩
  · cases h

/-- Every step is a chain of moves, which keep what was promised of its event. -/
theorem Machines.moves_of_step (hnumbered : machines.Numbered) {event} (hok : ok machines event)
    (h : machines.step event = some next) : Moves ok machines next := by
  cases event with
  | restoreNext opens => exact Moves.of_restoreNext (ite_none_right_eq_some.mp h).2
  | add name ssh hostKey offered => exact Moves.of_add (ite_none_right_eq_some.mp h).2
  | giveUp => exact Moves.of_adding true .ok (.inl h)
  | rewriteForAdd opens => exact Moves.of_rewriteForAdd (ite_none_right_eq_some.mp h).2
  | writeKnownHosts written given => exact Moves.of_writeKnownHosts hnumbered h
  | logIn accepted => exact Moves.of_adding accepted .ok (.inr (.inl h))
  | recordMachine outcome => exact Moves.of_adding true outcome (.inr (.inr h))
  | remove name outcome opens => exact Moves.of_remove (ite_none_right_eq_some.mp h).2
  | addApp request given outcome again =>
    exact Moves.of_addApp hnumbered.named hok (ite_none_right_eq_some.mp h).2
  | removeApp name outcome given =>
    exact Moves.of_removeApp hnumbered.named hok (ite_none_right_eq_some.mp h).2
  | disconnectAll =>
    obtain ⟨-, rfl⟩ := ite_some_none_eq_some.mp h
    exact .single .disconnected
  | spawn tunnel failure => exact Moves.of_spawn h
  | readLine tunnel => exact Moves.of_readLine h
  | stopReading tunnel fails => exact Moves.of_stopReading hok h
  | reap tunnel => exact Moves.of_task (.inl h)
  | note tunnel => exact Moves.of_task (.inr (.inl h))
  | wakeUp tunnel => exact Moves.of_task (.inr (.inr (.inl h)))
  | dropTask tunnel => exact Moves.of_task (.inr (.inr (.inr h)))
  | check process key =>
    obtain ⟨ssh, hssh, hrunning, rfl⟩ := withProcess_eq_some h
    exact .single (.checked hssh hrunning key hok)
  | print process line =>
    obtain ⟨ssh, hssh, hrunning, rfl⟩ := withProcess_eq_some h
    exact .single (.printed hssh hrunning line hok)
  | exit process =>
    obtain ⟨ssh, hssh, hrunning, rfl⟩ := withProcess_eq_some h
    exact .single (.exited hssh hrunning)

end

end Cirrocumulus.Ssh
