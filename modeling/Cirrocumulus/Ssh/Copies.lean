/-
# Two copies of the Machines and their Apps

Which Machines there are, and which Apps are on them, stands in the entries and in the
store. An operation changes both, one after the other, and takes some of it back when it
fails on the way. Here both copies are read as one kind of thing, so that a change of one
can be compared with a change of the other. Ports, tunnels and processes are in neither.

A step belongs to an operation, to the restoring of Machines, or to a task. `Turn` lists
what each of them leaves, with what it answers and what it has changed in each copy. Adds
and removes take several steps, with the lock of adds held over them.
-/

import Cirrocumulus.Ssh.Wired

namespace Cirrocumulus.Ssh

open Std (ExtTreeMap)
open Node (MachineAppRequest Outcome Route)
open Lib Option

variable {outcome : Outcome} {name : Str} {opens : Bool}

/-! ## Copies -/

/-- A Machine, and the host and the port of each App on it. -/
structure Known where
  record : MachineRecord
  apps : Str → Option (Str × Nat)

def Known.setApp (known : Known) (name : Str) (app : Option (Str × Nat)) : Known :=
  { known with apps := Function.update known.apps name app }

/-- A Machine that has no Apps. -/
def Known.bare (record : MachineRecord) : Known := ⟨record, fun _ => none⟩

def Machine.known (machine : Machine) : Known where
  record := machine.record
  apps name := machine.apps[name]?.map fun app => (app.route.host, app.route.port)

/-- A Machine as `connect` is given it. -/
def Known.given (record : MachineRecord) (apps : List (Str × Route)) : Known :=
  Machine.known
    ⟨record, ExtTreeMap.ofList (apps.map fun app => (app.1, MachineApp.mk app.2 0)), 0, 0⟩

/-- The Machines, as the entries have them. -/
def Machines.memory (machines : Machines) (name : Str) : Option Known :=
  machines.entries[name]?.map Machine.known

/-- The Machines, as the rows have them. -/
def Stored.recorded (stored : Stored) (name : Str) : Option Known :=
  stored.machines[name]?.map fun record =>
    { record
      apps := fun app => (stored.apps[app]?.filter fun row => row.machine == name).map fun row =>
        (row.host, row.port) }

/-! ## Changes -/

/-- What an operation does to a copy. -/
inductive Change
  | addMachine (record : MachineRecord)
  | removeMachine (name : Str)
  | addApp (machine name host : Str) (port : Nat)
  | removeApp (machine name : Str)
  deriving DecidableEq

/-- What `add_app` does. -/
abbrev Change.adds (request : MachineAppRequest) : Change :=
  .addApp request.machine request.name request.route.host request.route.port

def Change.apply (copy : Str → Option Known) : Change → Str → Option Known
  | .addMachine record => Function.update copy record.name (some (.bare record))
  | .removeMachine name => Function.update copy name none
  | .addApp machine name host port =>
    Function.update copy machine ((copy machine).map (·.setApp name (some (host, port))))
  | .removeApp machine name =>
    Function.update copy machine ((copy machine).map (·.setApp name none))

/-- The changes to each copy, in order. -/
structure Work where
  memory : List Change
  store : List Change
  deriving DecidableEq

def Work.nothing : Work := ⟨[], []⟩

def Work.both (change : Change) : Work := ⟨[change], [change]⟩

/-! ## Answers -/

inductive Reply
  | ok | error
  deriving DecidableEq

def Reply.of (ok : Bool) : Reply := if ok then .ok else .error

/-- Whether `start_tunnel` succeeds. -/
def startsTunnel (record : MachineRecord) (given : Except Str (List Nat)) : Bool :=
  (Target.parse record.ssh).toOption.isSome && given.toOption.isSome

namespace Machines

variable (machines : Machines)

/-- Whether `add_app` succeeds, once its checks have passed. -/
def addsApp (request : MachineAppRequest) (given : Except Str (List Nat)) (outcome : Outcome) :
    Bool :=
  machines.entries[request.machine]?.any fun machine =>
    startsTunnel machine.record given &&
      insertOutcome machines.stored.apps request.name outcome == .ok

/-- The Machine that `insert_machine` records. -/
def records (outcome : Outcome) : Option MachineRecord :=
  match machines.adding with
  | some (.record record) =>
    if insertOutcome machines.stored.machines record.name outcome = .ok then some record
    else none
  | _ => none

/-- The answer that is due when the known hosts were rewritten. -/
def replyRewritten (written : Bool) (given : Except Str (List Nat)) : Rewrite → Option Reply
  | .pin _ => if written then none else some .error
  | .unpin => some .error
  | .connect record _ =>
    if machines.isOpen then some (.of (written && startsTunnel record given)) else none
  | .remove => some .ok

/-- What the operation answers that a step ends. -/
def reply : Event → Option Reply
  | .giveUp => some .error
  | .rewriteForAdd opens => if opens then none else some .error
  | .writeKnownHosts written given =>
    machines.rewriting.bind (machines.replyRewritten written given)
  | .recordMachine outcome => if (machines.records outcome).isSome then none else some .error
  | .remove _ outcome opens =>
    if outcome = .ok then if opens then none else some .ok else some .error
  | .addApp request given outcome _ => some (.of (machines.addsApp request given outcome))
  | .removeApp _ outcome _ => some (.of (outcome == .ok))
  | _ => none

/-- What a step of an operation changes. -/
def work : Event → Work
  | .writeKnownHosts written given =>
    match machines.rewriting with
    | some (.connect record _) =>
      if machines.isOpen && (written && startsTunnel record given) then
        ⟨[.addMachine record], []⟩
      else .nothing
    | _ => .nothing
  | .recordMachine outcome =>
    match machines.records outcome with
    | some record => ⟨[], [.addMachine record]⟩
    | none => .nothing
  | .remove name outcome _ => if outcome = .ok then .both (.removeMachine name) else .nothing
  | .addApp request given outcome _ =>
    if machines.addsApp request given outcome then .both (.adds request) else .nothing
  | .removeApp name outcome _ =>
    match machines.entries.toList.find? fun item => item.2.apps.contains name with
    | some item => if outcome = .ok then .both (.removeApp item.1 name) else .nothing
    | none => .nothing
  | _ => .nothing

end Machines

/-! ## Turns -/

/-- Both copies, and what is to be restored. -/
structure Contents where
  stored : Stored
  memory : Str → Option Known
  restoring : List (MachineRecord × List (Str × Route))

/-- Both copies, with where an add is. -/
structure Copies extends Contents where
  adding : Option Adding
  rewriting : Option Rewrite

def Machines.copies (machines : Machines) : Copies :=
  ⟨⟨machines.stored, machines.memory, machines.restoring⟩, machines.adding, machines.rewriting⟩

namespace Copies

/-- Set a Machine's entry, or take it away. -/
def setKnown (copies : Copies) (name : Str) (known : Option Known) : Copies :=
  { copies with memory := Function.update copies.memory name known }

/-- Set the rows of Machines. -/
def setMachines (copies : Copies) (machines : ExtTreeMap Str MachineRecord compare) : Copies :=
  { copies with stored := { copies.stored with machines } }

/-- Set the rows of Apps. -/
def setApps (copies : Copies) (apps : ExtTreeMap Str MachineAppRecord compare) : Copies :=
  { copies with stored := { copies.stored with apps } }

/-- Nothing is restored, and nobody rewrites the known hosts. -/
structure Free (copies : Copies) : Prop where
  isOpen : copies.restoring = []
  unlocked : copies.rewriting = none

/-- A change of the entries. -/
def change (copies : Copies) (change : Change) : Copies :=
  { copies with memory := change.apply copies.memory }

/-- What one step leaves. -/
inductive Turn (copies : Copies) : Event → Option Reply → Work → Copies → Prop
  | idle {event} : Turn copies event none .nothing copies
  | restores {record apps rest} (hrestoring : copies.restoring = (record, apps) :: rest) :
      Turn copies (.restoreNext true) none .nothing
        { copies with rewriting := some (.connect record apps) }
  | skips {item rest}
      (hrestoring : copies.restoring = item :: rest) (hunlocked : copies.rewriting = none) :
      Turn copies (.restoreNext false) none .nothing { copies with restoring := rest }
  /-- A Machine that was to be restored could not be set up. -/
  | skipped {written given record apps item rest}
      (hrewriting : copies.rewriting = some (.connect record apps))
      (hrestoring : copies.restoring = item :: rest)
      (hfails : (written && startsTunnel record given) = false) :
      Turn copies (.writeKnownHosts written given) none .nothing
        { copies with restoring := rest, rewriting := none }
  | restored {given record apps item rest}
      (hrewriting : copies.rewriting = some (.connect record apps))
      (hrestoring : copies.restoring = item :: rest) :
      Turn copies (.writeKnownHosts true given) none .nothing
        { copies.setKnown record.name (some (.given record apps)) with
          restoring := rest, rewriting := none }
  | disconnected : Turn copies .disconnectAll none .nothing { copies with memory := fun _ => none }
  | adds {name ssh hostKey offered record target} (hfree : copies.Free)
      (hadding : copies.adding = none) (hnew : copies.memory record.name = none)
      (hparse : Target.parse record.ssh = .ok target) :
      Turn copies (.add name ssh hostKey offered) none .nothing
        { copies with adding := some (.pin record) }
  | givesUp {record}
      (hadding : copies.adding = some (.pin record) ∨ copies.adding = some (.logIn record)) :
      Turn copies .giveUp (some .error) .nothing { copies with adding := none }
  | unopened {adding} (hadding : copies.adding = some adding)
      (hunlocked : copies.rewriting = none) :
      Turn copies (.rewriteForAdd false) (some .error) .nothing { copies with adding := none }
  | rewrites {adding rewrite} (hadding : copies.adding = some adding)
      (hrewrite : adding.rewrite = some rewrite) :
      Turn copies (.rewriteForAdd true) none .nothing { copies with rewriting := some rewrite }
  | pinned {given record} (hrewriting : copies.rewriting = some (.pin record)) :
      Turn copies (.writeKnownHosts true given) none .nothing
        { copies with adding := some (.logIn record), rewriting := none }
  | unpinned {rewrite written given} (hrewriting : copies.rewriting = some rewrite)
      (hrewrite : rewrite = .unpin ∨ ∃ record, rewrite = .pin record) :
      Turn copies (.writeKnownHosts written given) (some .error) .nothing
        { copies with adding := none, rewriting := none }
  | loggedIn {accepted record} (hadding : copies.adding = some (.logIn record)) :
      Turn copies (.logIn accepted) none .nothing
        { copies with adding := some (if accepted then .record record else .refused) }
  | unrecorded {outcome record} (hadding : copies.adding = some (.record record)) :
      Turn copies (.recordMachine outcome) (some .error) .nothing { copies with adding := none }
  | recorded {record} (hadding : copies.adding = some (.record record))
      (hnew : copies.stored.machines[record.name]? = none) :
      Turn copies (.recordMachine .ok) none ⟨[], [.addMachine record]⟩
        { copies.setMachines (copies.stored.machines.insert record.name record) with
          adding := some (.connect record) }
  /-- The Machine is recorded, and the add is told that it is not. -/
  | halfRecorded {record} (hadding : copies.adding = some (.record record))
      (hnew : copies.stored.machines[record.name]? = none) :
      Turn copies (.recordMachine .partly) (some .error) .nothing
        { copies.setMachines (copies.stored.machines.insert record.name record) with
          adding := none }
  | unconnected {written given record apps}
      (hrewriting : copies.rewriting = some (.connect record apps)) (hopen : copies.restoring = [])
      (hfails : (written && startsTunnel record given) = false) :
      Turn copies (.writeKnownHosts written given) (some .error) .nothing
        { copies with adding := none, rewriting := none }
  | connected {given : Except Str (List Nat)} {record apps}
      (hrewriting : copies.rewriting = some (.connect record apps))
      (hopen : copies.restoring = []) :
      Turn copies (.writeKnownHosts true given) (some .ok) ⟨[.addMachine record], []⟩
        { copies.setKnown record.name (some (.given record apps)) with
          adding := none, rewriting := none }
  | unremoved {name : Str} {opens} (hadding : copies.adding = none)
      (hunlocked : copies.rewriting = none) :
      Turn copies (.remove name .failed opens) (some .error) .nothing copies
  | removed {name : Str} {opens : Bool} {record} {rewriting : Option Rewrite}
      (hfree : copies.Free) (hadding : copies.adding = none)
      (hknown : copies.memory name = some (.bare record))
      (hnext : rewriting = if opens then some .remove else none) :
      Turn copies (.remove name .ok opens) (if opens then none else some .ok)
        (.both (.removeMachine name))
        { (copies.setMachines (copies.stored.machines.erase name)).change (.removeMachine name) with
          rewriting }
  /-- The Machine's row is gone, and its entry is not. -/
  | halfRemoved {name : Str} {opens} (hadding : copies.adding = none)
      (hunlocked : copies.rewriting = none) :
      Turn copies (.remove name .partly opens) (some .error) .nothing
        (copies.setMachines (copies.stored.machines.erase name))
  | rewritten {written given} (hrewriting : copies.rewriting = some .remove) :
      Turn copies (.writeKnownHosts written given) (some .ok) .nothing
        { copies with rewriting := none }
  | unaddedApp {request given again outcome} :
      Turn copies (.addApp request given outcome again) (some .error) .nothing copies
  | addedApp {request given again outcome known} (hfree : copies.Free)
      (hknown : copies.memory request.machine = some known)
      (hnew : copies.stored.apps[request.name]? = none) :
      Turn copies (.addApp request given outcome again) (some .ok) (.both (.adds request))
        ((copies.setApps (copies.stored.apps.insert request.name
          ⟨request.name, request.machine, request.route.host, request.route.port⟩)).change
            (.adds request))
  /-- The App is recorded, and not on its Machine's entry. -/
  | halfAdded {request} {given again : Except Str (List Nat)} :
      Turn copies (.addApp request given .partly again) (some .error) .nothing
        (copies.setApps (copies.stored.apps.insert request.name
          ⟨request.name, request.machine, request.route.host, request.route.port⟩))
  | keptApp {name : Str} {given} :
      Turn copies (.removeApp name .failed given) (some .error) .nothing copies
  | removedApp {name machine} {given : Except Str (List Nat)} {known} (hfree : copies.Free)
      (hknown : copies.memory machine = some known) (hlisted : (known.apps name).isSome) :
      Turn copies (.removeApp name .ok given) (some .ok) (.both (.removeApp machine name))
        ((copies.setApps (copies.stored.apps.erase name)).change (.removeApp machine name))
  | unrecordedApp {name : Str} {given} (hfree : copies.Free) :
      Turn copies (.removeApp name .partly given) (some .error) .nothing
        (copies.setApps (copies.stored.apps.erase name))

end Copies

/-- A step with this event is a turn. -/
abbrev Machines.Turns (machines next : Machines) (event : Event) : Prop :=
  machines.copies.Turn event (machines.reply event) (machines.work event) next.copies

/-! ## Every step is a turn -/

section

variable {machines next : Machines} {machine machine' : Machine}

theorem Copies.setKnown_self (copies : Copies) (name : Str) {known}
    (h : copies.memory name = known) : copies.setKnown name known = copies := by
  rw [setKnown, ← h, Function.update_eq_self]

theorem Copies.setKnown_setKnown (copies : Copies) (name : Str) (known known' : Option Known) :
    (copies.setKnown name known).setKnown name known' = copies.setKnown name known' := by
  simp [setKnown]

variable {request : MachineAppRequest} {given : Except Str (List Nat)}

theorem Copies.change_addApp {copies : Copies} {known}
    (h : copies.memory request.machine = some known) :
    copies.change (.adds request) = copies.setKnown request.machine
      (some (known.setApp request.name (some (request.route.host, request.route.port)))) := by
  rw [change, Change.apply, h]
  rfl

theorem Copies.change_removeApp {copies : Copies} {machine known} (name : Str)
    (h : copies.memory machine = some known) :
    copies.change (.removeApp machine name) =
      copies.setKnown machine (some (known.setApp name none)) := by
  rw [change, Change.apply, h]
  rfl

theorem Known.setApp_setApp (known : Known) (name : Str) (app app' : Option (Str × Nat)) :
    (known.setApp name app).setApp name app' = known.setApp name app' := by
  simp [setApp]

theorem Known.setApp_self (known : Known) (name : Str) {app}
    (h : known.apps name = app) : known.setApp name app = known := by
  rw [setApp, ← h, Function.update_eq_self]

theorem Machines.memory_eq (h : machines.entries[name]? = some machine) :
    machines.copies.memory name = some machine.known :=
  congrArg (Option.map Machine.known) h

/-- `has_app`, on the copy in memory. -/
theorem Machines.hasApp_apps_iff : machines.apps.hasApp name ↔
    ∃ machine known, machines.memory machine = some known ∧ (known.apps name).isSome := by
  simp only [Node.Machines.hasApp, List.any_eq_true, Prod.exists,
    mem_items, Machines.apps, ExtTreeMap.getElem?_map,
    map_eq_some_iff, memory]
  constructor
  · rintro ⟨key, apps, ⟨found, hentry, rfl⟩, hcontains⟩
    have hname : name ∈ found.apps := by simpa using hcontains
    rw [ExtTreeMap.mem_iff_isSome_getElem?] at hname
    exact ⟨key, found.known, ⟨found, hentry, rfl⟩, (isSome_map ..).trans hname⟩
  · rintro ⟨key, known, ⟨found, hentry, rfl⟩, hlisted⟩
    have hname : name ∈ found.apps := by
      rw [ExtTreeMap.mem_iff_isSome_getElem?]
      exact (isSome_map ..).symm.trans hlisted
    exact ⟨key, _, ⟨found, hentry, rfl⟩, by simpa using hname⟩

theorem Machines.copies_abort (machines : Machines) (id : Nat) :
    (machines.abort id).copies = machines.copies := by
  rw [abort_eq]
  rfl

theorem Machines.copies_setEntry (machines : Machines) (machine : Machine) :
    (machines.setEntry machine).copies =
      machines.copies.setKnown machine.record.name (some machine.known) := by
  have hmemory : (machines.setEntry machine).memory =
      Function.update machines.memory machine.record.name (some machine.known) := by
    funext name
    simp only [Machines.memory, setEntry, lookup_insert, Function.update_apply]
    split <;> rfl
  exact congrArg (fun memory => { machines.copies with memory }) hmemory

theorem Machines.copies_putEntry (machines : Machines) (machine : Machine) :
    (machines.putEntry machine).copies =
      machines.copies.setKnown machine.record.name (some machine.known) := by
  unfold putEntry
  dsimp only
  rw [copies_setEntry]
  split
  · rw [copies_abort]
  · rfl

theorem Machines.copies_eraseEntry (machines : Machines) (id : Nat) (name : Str) :
    ({ machines.abort id with entries := machines.entries.erase name } : Machines).copies =
      machines.copies.setKnown name none := by
  have hmemory :
      (fun machine : Str => (machines.entries.erase name)[machine]?.map Machine.known) =
        Function.update machines.memory name none := by
    funext machine
    simp only [lookup_erase, Function.update_apply, Machines.memory]
    split <;> rfl
  rw [abort_eq]
  exact congrArg (fun memory => { machines.copies with memory }) hmemory

theorem Machines.copies_openKnownHosts (machines : Machines) (rewrite : Rewrite) :
    (machines.openKnownHosts rewrite).copies =
      { machines.copies with rewriting := some rewrite } := rfl

/-! ### Tunnels -/

/-- New ports leave every route. -/
theorem route_assigned {apps ports} (h : ports.length = apps.size) (name : Str) :
    (ExtTreeMap.ofList (assigned apps ports) compare)[name]?.map MachineApp.route =
      apps[name]?.map MachineApp.route := by
  have hzip : (apps.toList.zip ports).map Prod.fst = apps.toList := by
    apply List.map_fst_zip
    rw [ExtTreeMap.length_toList, h]
  apply Option.ext
  intro route
  simp only [map_eq_some_iff, lookup_assigned h]
  constructor
  · rintro ⟨app, hmem, rfl⟩
    obtain ⟨⟨⟨key, old⟩, port⟩, hpair, heq⟩ := List.mem_map.mp hmem
    cases heq
    have hold : (key, old) ∈ apps.toList := by
      rw [← hzip]
      exact List.mem_map_of_mem hpair
    exact ⟨old, mem_items.mp hold, rfl⟩
  · rintro ⟨app, happ, rfl⟩
    have hmem : (_, app) ∈ apps.toList := mem_items.mpr happ
    rw [← hzip] at hmem
    obtain ⟨⟨item, port⟩, hpair, rfl⟩ := List.mem_map.mp hmem
    exact ⟨{ app with localPort := port }, List.mem_map_of_mem hpair, rfl⟩

theorem Machine.known_assigned (machine : Machine) {ports} (h : ports.length = machine.apps.size) :
    known { machine with apps := ExtTreeMap.ofList (assigned machine.apps ports) } =
      machine.known := by
  have happs : (fun name : Str =>
      (ExtTreeMap.ofList (assigned machine.apps ports) compare)[name]?.map fun app =>
        (app.route.host, app.route.port)) = machine.known.apps := by
    funext name
    have hroute := congrArg (Option.map fun route : Route => (route.host, route.port))
      (route_assigned h name)
    rw [map_map, map_map] at hroute
    exact hroute
  exact congrArg (Known.mk machine.record) happs

theorem Machines.copies_startTunnel
    (h : machines.startTunnel machine given = some (.ok (next, machine'))) :
    next.copies = machines.copies ∧ machine'.known = machine.known := by
  unfold startTunnel at h
  split at h
  · cases h
  · obtain ⟨answer, hfree, h⟩ := map_eq_some_iff.mp h
    obtain ⟨ports, rfl, hstarted⟩ := except_map_eq_ok.mp h
    have hknown := machine.known_assigned (freeLocalPorts_eq_some hfree).1
    dsimp only at hstarted
    split at hstarted
    · cases hstarted
      exact ⟨rfl, hknown⟩
    · cases hstarted
      exact ⟨machines.copies_abort machine.tunnel, hknown⟩

theorem startsTunnel_eq {started} (h : machines.startTunnel machine given = some started) :
    startsTunnel machine.record given = started.toOption.isSome := by
  unfold Machines.startTunnel at h
  unfold startsTunnel
  split at h
  · rename_i e hparse
    cases h
    rw [hparse]
    rfl
  · rename_i target hparse
    obtain ⟨answer, hfree, rfl⟩ := map_eq_some_iff.mp h
    rw [hparse]
    cases given with
    | error e =>
      cases hfree
      rfl
    | ok ports =>
      obtain ⟨-, rfl⟩ := ite_some_none_eq_some.mp hfree
      rfl

theorem Machines.copies_keepEntry {started}
    (h : machines.startTunnel machine given = some started) :
    (machines.keepEntry machine started).copies =
      machines.copies.setKnown machine.record.name (some machine.known) := by
  cases started with
  | error e => exact machines.copies_setEntry machine
  | ok result =>
    obtain ⟨hcopies, hknown⟩ := copies_startTunnel h
    have hrecord : result.2.record = machine.record := congrArg Known.record hknown
    exact (result.1.copies_setEntry result.2).trans (by rw [hcopies, hrecord, hknown])

/-! ### Apps -/

theorem Machine.known_withApps_insert (machine : Machine) (name : Str) (app : MachineApp) :
    (Machines.withApps machine (machine.apps.insert name app)).known =
      machine.known.setApp name (some (app.route.host, app.route.port)) := by
  have happs : (Machines.withApps machine (machine.apps.insert name app)).known.apps =
      Function.update machine.known.apps name (some (app.route.host, app.route.port)) := by
    funext other
    simp only [known, Machines.withApps, lookup_insert, Function.update_apply]
    split <;> rfl
  exact congrArg (Known.mk machine.record) happs

theorem Machine.known_withApps_erase (machine : Machine) (name : Str) :
    (Machines.withApps machine (machine.apps.erase name)).known =
      machine.known.setApp name none := by
  have happs : (Machines.withApps machine (machine.apps.erase name)).known.apps =
      Function.update machine.known.apps name none := by
    funext other
    simp only [known, Machines.withApps, lookup_erase, Function.update_apply]
    split <;> rfl
  exact congrArg (Known.mk machine.record) happs

/-- An App is recorded or goes again. -/
theorem Machines.copies_recordApp {again}
    (h : machines.recordApp machine request outcome again = some next) :
    ∃ inserted, inserted = insertOutcome machines.stored.apps request.name outcome ∧
      next.copies =
        (if inserted = .ok then id
          else (·.setKnown machine.record.name (some (machine.known.setApp request.name none))))
        (machines.copies.setApps (inserted.applied (·.insert request.name
          ⟨request.name, request.machine, request.route.host, request.route.port⟩)
            machines.stored.apps)) := by
  refine ⟨_, rfl, ?_⟩
  unfold recordApp at h
  dsimp only at h
  split at h
  · rename_i hok
    cases h
    rw [if_pos hok]
    rfl
  · rename_i hfailed
    obtain ⟨started, hstart, rfl⟩ := map_eq_some_iff.mp h
    rw [if_neg hfailed, copies_keepEntry hstart, Machine.known_withApps_erase]
    rfl

theorem insertOutcome_eq {ν} {table : ExtTreeMap Str ν compare} {key inserted}
    (h : insertOutcome table key outcome = inserted) (hfailed : inserted ≠ .failed) :
    table[key]? = none ∧ outcome = inserted := by
  unfold insertOutcome at h
  split at h
  · exact absurd h.symm hfailed
  · rename_i hnew
    exact ⟨ExtTreeMap.getElem?_eq_none fun hmem =>
      hnew (ExtTreeMap.contains_iff_mem.mpr hmem), h⟩

theorem Machines.turn_addApp (hnamed : machines.Named) (hfree : machines.copies.Free)
    {again} (h : machines.addApp request given outcome again = some next) :
    machines.Turns next (.addApp request given outcome again) := by
  unfold addApp at h
  split at h
  · cases h
  · rename_i apps hadd
    obtain ⟨old, hentry, h⟩ := bind_eq_some_iff.mp h
    obtain ⟨started, hstart, h⟩ := bind_eq_some_iff.mp h
    have hname : old.record.name = request.machine := hnamed hentry
    have hknown := memory_eq hentry
    have hadds : machines.addsApp request given outcome = (startsTunnel old.record given &&
        insertOutcome machines.stored.apps request.name outcome == .ok) := by
      rw [addsApp, hentry]
      rfl
    split at h
    · cases h
      have hstarts := startsTunnel_eq hstart
      have hfalse : machines.addsApp request given outcome = false := by
        rw [hadds]
        exact (congrArg (· && _) hstarts).trans (Bool.false_and _)
      simp only [Machines.Turns, reply, work, hfalse]
      exact .unaddedApp
    · rename_i reached machine
      have hstarts := startsTunnel_eq hstart
      obtain ⟨hcopies, hmachine⟩ := copies_startTunnel hstart
      rw [Machine.known_withApps_insert] at hmachine
      have hkey : machine.record.name = request.machine :=
        (congrArg (·.record.name) hmachine).trans hname
      have hadded : (reached.setEntry machine).copies =
          machines.copies.change (.adds request) := by
        rw [copies_setEntry, hcopies, hkey, hmachine, Copies.change_addApp hknown]
      have hstored : (reached.setEntry machine).stored = machines.stored :=
        congrArg (·.stored) hadded
      -- The name is new, so taking the App away again leaves what was there.
      have hnew : old.known.apps request.name = none := by
        rw [← not_isSome_iff_eq_none]
        intro hlisted
        have hhas := hasApp_apps_iff.mpr ⟨_, _, hknown, hlisted⟩
        obtain ⟨_, hrefuse, -⟩ := except_bind_eq_ok.mp hadd
        simp [Node.refuseIf, hhas] at hrefuse
      have hback : (machines.copies.change (.adds request)).setKnown request.machine
          (some (machine.known.setApp request.name none)) = machines.copies := by
        rw [Copies.change_addApp hknown, Copies.setKnown_setKnown, hmachine,
          Known.setApp_setApp, Known.setApp_self _ _ hnew]
        exact machines.copies.setKnown_self _ hknown
      obtain ⟨inserted, hinserted, hnext⟩ := copies_recordApp h
      rw [hstored] at hinserted hnext
      rw [hadded, hkey] at hnext
      have hreply : machines.addsApp request given outcome = (inserted == .ok) := by
        rw [hadds, hinserted]
        exact (congrArg (· && _) hstarts).trans (Bool.true_and _)
      simp only [Machines.Turns, reply, work, hreply]
      cases inserted with
      | ok =>
        rw [hnext]
        exact .addedApp hfree hknown (insertOutcome_eq hinserted.symm (by decide)).1
      | failed =>
        have hsame : next.copies = machines.copies :=
          hnext.trans (congrArg (·.setApps machines.stored.apps) hback)
        rw [hsame]
        exact .unaddedApp
      | partly =>
        obtain ⟨-, rfl⟩ := insertOutcome_eq hinserted.symm (by decide)
        have hhalf := hnext.trans (congrArg (·.setApps (machines.stored.apps.insert request.name
          ⟨request.name, request.machine, request.route.host, request.route.port⟩)) hback)
        rw [hhalf]
        exact .halfAdded

theorem Machines.turn_removeApp (hnamed : machines.Named) (hfree : machines.copies.Free)
    (h : machines.removeApp name outcome given = some next) :
    machines.Turns next (.removeApp name outcome given) := by
  obtain ⟨⟨key, old⟩, hfind, h⟩ := bind_eq_some_iff.mp h
  obtain ⟨hentry, hcontains⟩ := lookup_of_find? hfind
  have hname : old.record.name = key := hnamed hentry
  have hknown := memory_eq hentry
  simp only [Machines.Turns, reply, work, hfind]
  dsimp only at h
  split at h
  · rename_i hok
    subst hok
    obtain ⟨started, hstart, rfl⟩ := map_eq_some_iff.mp h
    have hlisted : (old.known.apps name).isSome := by
      have hmem : name ∈ old.apps := ExtTreeMap.contains_iff_mem.mp hcontains
      rw [ExtTreeMap.mem_iff_isSome_getElem?] at hmem
      rw [Machine.known, isSome_map]
      exact hmem
    have hkey : (withApps old (old.apps.erase name)).record.name = key := hname
    have hturn : machines.copies.Turn (.removeApp name .ok given) (some .ok)
        (.both (.removeApp key name)) _ := .removedApp hfree hknown hlisted
    have hkept : (machines.copies.setApps (machines.copies.stored.apps.erase name)).memory key =
        some old.known := hknown
    rw [Copies.change_removeApp _ hkept] at hturn
    rw [copies_keepEntry hstart, Machine.known_withApps_erase, hkey]
    exact hturn
  · cases h
    cases outcome with
    | ok => contradiction
    | failed => exact .keptApp
    | partly => exact .unrecordedApp hfree

/-! ### Machines -/

theorem Machines.turn_remove (hfree : machines.copies.Free)
    (h : machines.remove name outcome opens = some next) :
    machines.Turns next (.remove name outcome opens) := by
  obtain ⟨machine, hentry, h⟩ := bind_eq_some_iff.mp h
  split at h
  · cases h
  · rename_i hcond
    simp only [Bool.or_eq_true, not_or, Bool.not_eq_true', Bool.not_eq_false,
      not_isSome_iff_eq_none] at hcond
    obtain ⟨hadding, hempty⟩ := hcond
    have hknown : machines.copies.memory name = some (.bare machine.record) := by
      rw [memory_eq hentry, Machine.known, ExtTreeMap.isEmpty_iff.mp hempty]
      simp [Known.bare]
    simp only [Machines.Turns, reply, work]
    dsimp only at h
    split at h
    · rename_i hok
      subst hok
      cases h
      cases opens with
      | true =>
        show machines.copies.Turn _ none _ (openKnownHosts _ .remove).copies
        rw [copies_openKnownHosts, copies_eraseEntry]
        exact .removed hfree hadding hknown rfl
      | false =>
        simp only [Bool.false_eq_true, if_false]
        rw [copies_eraseEntry]
        exact .removed hfree hadding hknown hfree.unlocked
    · cases h
      cases outcome with
      | ok => contradiction
      | failed => exact .unremoved hadding hfree.unlocked
      | partly => exact .halfRemoved hadding hfree.unlocked

theorem Machines.turn_add (hfree : machines.copies.Free) {ssh hostKey offered}
    (h : machines.add name ssh hostKey offered = some next) :
    machines.Turns next (.add name ssh hostKey offered) := by
  unfold add at h
  split at h
  · rename_i target hname hparse
    split at h
    · cases h
    · rename_i hcond
      obtain ⟨key, -, rfl⟩ := map_eq_some_iff.mp h
      simp only [Bool.or_eq_true, not_or, ExtTreeMap.contains_iff_mem,
        not_isSome_iff_eq_none] at hcond
      have hentry : machines.entries[name]? = none := ExtTreeMap.getElem?_eq_none hcond.2
      have hnew : machines.copies.memory name = none := congrArg (Option.map Machine.known) hentry
      exact .adds hfree hcond.1 hnew (Target.valid_of_parse hparse).parse_display
  · cases h

theorem Machines.turn_giveUp (h : machines.giveUp = some next) : machines.Turns next .giveUp := by
  unfold giveUp at h
  split at h
  · rename_i hadding
    cases h
    exact .givesUp (.inl hadding)
  · rename_i hadding
    cases h
    exact .givesUp (.inr hadding)
  · cases h

theorem Machines.turn_logIn {accepted} (h : machines.logIn accepted = some next) :
    machines.Turns next (.logIn accepted) := by
  unfold logIn at h
  split at h
  · rename_i record hadding
    cases h
    exact .loggedIn hadding
  · cases h

theorem Machines.turn_rewriteForAdd (hunlocked : machines.rewriting = none)
    (h : machines.rewriteForAdd opens = some next) :
    machines.Turns next (.rewriteForAdd opens) := by
  obtain ⟨rewrite, hrewrite, rfl⟩ := map_eq_some_iff.mp h
  obtain ⟨adding, hadding, hrewrite⟩ := bind_eq_some_iff.mp hrewrite
  cases opens with
  | true => exact .rewrites hadding hrewrite
  | false => exact .unopened hadding hunlocked

theorem Machines.turn_recordMachine (h : machines.recordMachine outcome = some next) :
    machines.Turns next (.recordMachine outcome) := by
  unfold recordMachine at h
  split at h
  · rename_i record hadding
    cases h
    have hrecords : machines.records outcome =
        if insertOutcome machines.stored.machines record.name outcome = .ok then some record
        else none := by
      simp only [records, hadding]
    simp only [Machines.Turns, reply, work, hrecords]
    generalize hinserted : insertOutcome machines.stored.machines record.name outcome = inserted
    cases inserted with
    | ok =>
      obtain ⟨hnew, rfl⟩ := insertOutcome_eq hinserted (by decide)
      exact .recorded hadding hnew
    | failed => exact .unrecorded hadding
    | partly =>
      obtain ⟨hnew, rfl⟩ := insertOutcome_eq hinserted (by decide)
      exact .halfRecorded hadding hnew
  · cases h

theorem Machines.turn_restoreNext (hunlocked : machines.rewriting = none)
    (h : machines.restoreNext opens = some next) :
    machines.Turns next (.restoreNext opens) := by
  unfold restoreNext at h
  split at h
  · rename_i record apps rest hrestoring
    cases h
    cases opens with
    | true => exact .restores hrestoring
    | false => exact .skips hrestoring hunlocked
  · cases h

/-- What `connect` leaves when it has rewritten the known hosts. -/
theorem Machines.copies_insertMachine {record apps}
    (h : machines.insertMachine record apps given = some next) :
    next.copies = if startsTunnel record given
      then machines.copies.setKnown record.name (some (.given record apps))
      else machines.copies := by
  obtain ⟨started, hstart, h⟩ := map_eq_some_iff.mp h
  have hstarts : startsTunnel record given = started.toOption.isSome := startsTunnel_eq hstart
  rw [hstarts]
  split at h
  · rename_i reached machine
    subst h
    obtain ⟨hcopies, hknown⟩ := copies_startTunnel hstart
    have hrecord : machine.record = record := congrArg Known.record hknown
    rw [copies_putEntry, hcopies, hrecord, hknown]
    rfl
  · subst h
    rfl

/-- Who connected to a Machine goes on. -/
def Copies.goOn (copies : Copies) : Copies :=
  match copies.restoring with
  | _ :: rest => { copies with restoring := rest }
  | [] => { copies with adding := none }

theorem Machines.copies_afterRewrite (machines : Machines) (record : MachineRecord)
    (apps : List (Str × Route)) (written : Bool) :
    (machines.afterRewrite (.connect record apps) written).copies = machines.copies.goOn := by
  obtain ⟨stored, knownHosts, entries, tunnels, nextTunnel, processes, nextProcess, restoring, _⟩ :=
    machines
  cases restoring <;> rfl

theorem Copies.turn_connect (copies : Copies) {record apps} (written : Bool)
    (given : Except Str (List Nat)) (hrewriting : copies.rewriting = some (.connect record apps)) :
    copies.Turn (.writeKnownHosts written given)
      (if copies.restoring.isEmpty then some (.of (written && startsTunnel record given)) else none)
      (if copies.restoring.isEmpty && (written && startsTunnel record given)
        then ⟨[.addMachine record], []⟩ else .nothing)
      (if written && startsTunnel record given
        then ({ copies with rewriting := none } : Copies).setKnown record.name
          (some (.given record apps))
        else { copies with rewriting := none }).goOn := by
  obtain ⟨⟨stored, memory, restoring⟩, adding, rewriting⟩ := copies
  cases hok : written && startsTunnel record given with
  | false =>
    cases restoring with
    | nil => exact .unconnected hrewriting rfl hok
    | cons item rest => exact .skipped hrewriting rfl hok
  | true =>
    have hwritten : written := (Bool.and_eq_true_iff.mp hok).1
    subst hwritten
    cases restoring with
    | nil => exact .connected hrewriting rfl
    | cons item rest => exact .restored hrewriting rfl

theorem Machines.turn_writeKnownHosts {written}
    (h : machines.writeKnownHosts written given = some next) :
    machines.Turns next (.writeKnownHosts written given) := by
  obtain ⟨rewrite, hrewriting, h⟩ := bind_eq_some_iff.mp h
  simp only [Machines.Turns, reply, work, hrewriting]
  cases rewrite with
  | pin record =>
    cases written with
    | true =>
      cases h
      exact .pinned hrewriting
    | false =>
      cases h
      exact .unpinned hrewriting (.inr ⟨record, rfl⟩)
  | unpin =>
    cases h
    exact .unpinned hrewriting (.inl rfl)
  | remove =>
    cases h
    exact .rewritten hrewriting
  | connect record apps =>
    have hturn := machines.copies.turn_connect written given hrewriting
    cases written with
    | false =>
      cases h
      rw [copies_afterRewrite]
      exact hturn
    | true =>
      obtain ⟨inserted, hinsert, rfl⟩ := map_eq_some_iff.mp h
      rw [copies_afterRewrite, copies_insertMachine hinsert]
      exact hturn

/-- Every step of the Machines is a turn of their copies. -/
theorem Machines.turn_of_step (hnamed : machines.Named) {event}
    (h : machines.step event = some next) : machines.Turns next event := by
  have hfree (hcond : (machines.isOpen && machines.unlocked)) : machines.copies.Free := by
    obtain ⟨hopen, hunlocked⟩ := Bool.and_eq_true_iff.mp hcond
    exact ⟨List.isEmpty_iff.mp hopen, isNone_iff_eq_none.mp hunlocked⟩
  have hunlocked (hcond : machines.unlocked) : machines.rewriting = none :=
    isNone_iff_eq_none.mp hcond
  have htask {id step}
      (h : machines.withTunnel id step = some next) :
      machines.copies.Turn event none .nothing next.copies := by
    obtain ⟨tunnel, -, h⟩ := bind_eq_some_iff.mp h
    obtain ⟨tunnel', -, rfl⟩ := map_eq_some_iff.mp h
    exact .idle
  have hprocess {id step}
      (h : machines.withProcess id step = some next) :
      machines.copies.Turn event none .nothing next.copies := by
    obtain ⟨ssh, -, -, rfl⟩ := withProcess_eq_some h
    exact .idle
  cases event with
  | restoreNext opens =>
    obtain ⟨hcond, h⟩ := ite_none_right_eq_some.mp h
    exact turn_restoreNext (hunlocked hcond) h
  | add name ssh hostKey offered =>
    obtain ⟨hcond, h⟩ := ite_none_right_eq_some.mp h
    exact turn_add (hfree hcond) h
  | giveUp => exact turn_giveUp h
  | rewriteForAdd opens =>
    obtain ⟨hcond, h⟩ := ite_none_right_eq_some.mp h
    exact turn_rewriteForAdd (hunlocked hcond) h
  | writeKnownHosts written given => exact turn_writeKnownHosts h
  | logIn accepted => exact turn_logIn h
  | recordMachine outcome => exact turn_recordMachine h
  | remove name outcome opens =>
    obtain ⟨hcond, h⟩ := ite_none_right_eq_some.mp h
    exact turn_remove (hfree hcond) h
  | addApp request given outcome again =>
    obtain ⟨hcond, h⟩ := ite_none_right_eq_some.mp h
    exact turn_addApp hnamed (hfree hcond) h
  | removeApp name outcome given =>
    obtain ⟨hcond, h⟩ := ite_none_right_eq_some.mp h
    exact turn_removeApp hnamed (hfree hcond) h
  | disconnectAll =>
    obtain ⟨-, rfl⟩ := ite_some_none_eq_some.mp h
    have hmemory : machines.disconnectAll.memory = fun _ => none := by
      funext machine
      simp [Machines.memory, Machines.disconnectAll]
    have hnext : machines.disconnectAll.copies =
        { machines.copies with memory := fun _ => none } :=
      congrArg (fun memory => { machines.copies with memory }) hmemory
    rw [Machines.Turns, hnext]
    exact .disconnected
  | spawn tunnel failure =>
    obtain ⟨found, -, h⟩ := bind_eq_some_iff.mp h
    obtain ⟨-, h⟩ := ite_none_right_eq_some.mp h
    cases failure <;> cases h <;> exact .idle
  | readLine tunnel =>
    obtain ⟨found, -, h⟩ := bind_eq_some_iff.mp h
    split at h
    · obtain ⟨ssh, -, h⟩ := bind_eq_some_iff.mp h
      split at h
      · cases h
        exact .idle
      · cases h
    · cases h
  | stopReading | reap | note | wakeUp | dropTask => exact htask h
  | check | print | exit => exact hprocess h

end

end Cirrocumulus.Ssh
