/-
# The registry

The Node agent keeps one entry for each name in a table behind a lock. This module
follows what each operation does while it holds that lock: reserving a name for a
start or a wake, turning a finished start into a running VM, turning an ended VM
into history, putting back what a failed start had set aside, and removing history.
Machine-backed Apps live in a table of their own; the operations that make them hold
both locks.

The numbers of requests (memory, ports, times) are the naturals their unsigned types
hold. A time is passed in by the caller.
-/

import Cirrocumulus.Node.Subnet
import Cirrocumulus.Lib.Maps

namespace Cirrocumulus.Node

open Std (ExtTreeMap)
open Lib List Option

variable {name host : Str} {result : Unit} {subnet : Subnet}

/-! ## What the API speaks about -/

/-- An App's route. -/
structure Route where
  host : Str
  port : Nat
  idleParkSecs : Option Nat
  deriving DecidableEq

/-- Why a VM ended. -/
inductive EndReason
  | graceful | forced | exited | crashed | parked | agentDown
  deriving DecidableEq

structure Ended where
  time : Nat
  reason : EndReason
  deriving DecidableEq

/-- A VM, or an Ended VM when `ended` is set. -/
structure VmInfo where
  name : Str
  vmAddress : Option Ipv4Addr
  memMib : Nat
  vcpus : Nat
  startedAt : Nat
  ended : Option Ended
  route : Option Route
  deriving DecidableEq

inductive StatusCode
  | badRequest | forbidden | notFound | conflict | unprocessableEntity | internal
  | serviceUnavailable
  deriving DecidableEq

structure ApiError where
  status : StatusCode
  message : Str
  deriving DecidableEq

def badRequest (message : Str) : ApiError := ⟨.badRequest, message⟩

def conflict (message : Str) : ApiError := ⟨.conflict, message⟩

/-- An early return of an error. -/
def refuseIf (refused : Bool) (error : ApiError) : Except ApiError Unit :=
  if refused then .error error else .ok ()

/-- A numeric user and group inside the guest. -/
structure User where
  uid : UInt32
  gid : UInt32
  deriving DecidableEq

/-- A request to boot a VM. -/
structure RunRequest where
  name : Str
  rootfs : Str
  memMib : Nat
  vcpus : Nat
  command : List Str
  env : List Str
  workdir : Option Str
  user : Option User
  route : Option Route
  deriving DecidableEq

/-- What guest-init runs. -/
structure GuestConfig where
  exec : Str
  args : List Str
  env : List Str
  workdir : Option Str
  user : Option User
  deriving DecidableEq

structure MachineAppRequest where
  name : Str
  machine : Str
  route : Route
  deriving DecidableEq

/-! ## Checks made before the lock is taken -/

def nameChar (c : Char) : Bool := c.isLower || c.isDigit || c == '-'

/-- `validate_name`. -/
def validateName (kind name : Str) : Except ApiError Unit :=
  if 1 ≤ name.length ∧ name.length ≤ 32 ∧ name.all nameChar then .ok ()
  else .error (badRequest ("invalid " ++ kind ++ " name " ++ quoted name ++
    ": a name is 1-32 characters of lowercase letters, digits and hyphens"))

/-- One label of a hostname. -/
def labelOk (label : Str) : Bool :=
  decide (1 ≤ label.length ∧ label.length ≤ 63) && label.all nameChar &&
    label.head? != some '-' && label.getLast? != some '-'

/-- `validate_route`. -/
def validateRoute (route : Route) : Except ApiError Unit :=
  if 253 < route.host.length ∨ !(route.host.splitOn '.').all labelOk then
    .error (badRequest (quoted route.host ++
      (" isn't a hostname: use lowercase letters, digits, hyphens and dots, " ++
        "like web.example.com").toList))
  else if route.port = 0 then
    .error (badRequest "the route's port must be 1-65535")
  else .ok ()

/-- `in_bounds`. -/
def inBounds (field : Str) (value low high : Nat) : Except ApiError Unit :=
  if low ≤ value ∧ value ≤ high then .ok ()
  else .error (badRequest (field ++ " must be between " ++ (Nat.repr low).toList ++
    " and " ++ (Nat.repr high).toList ++ ", got " ++ (Nat.repr value).toList))

/-- An entry of the guest's environment. -/
def envOk (entry : Str) : Bool :=
  (splitOnce '=' entry).any (fun parts => !parts.1.isEmpty) && !entry.contains '\x00'

/-- `guest_config`. -/
def guestConfig (run : RunRequest) : Except ApiError GuestConfig :=
  match run.command with
  | [] => .error (badRequest "no command given to run in the VM")
  | exec :: args =>
    if exec = [] ∨ run.command.any (·.contains '\x00') then
      .error (badRequest "the command must be non-empty and can't contain NUL bytes")
    else
      match run.env.find? fun entry => !envOk entry with
      | some entry =>
        .error (badRequest ("env entry " ++ quoted entry ++
          " must be KEY=VALUE with a non-empty KEY and no NUL bytes"))
      | none =>
        match run.workdir.filter fun dir => dir.head? != some '/' || dir.contains '\x00' with
        | some dir =>
          .error (badRequest ("workdir " ++ quoted dir ++
            " must be an absolute path with no NUL bytes"))
        | none => .ok ⟨exec, args, run.env, run.workdir, run.user⟩

/-- What `run_vm` refuses before it opens the rootfs, in its order. -/
def validateRun (run : RunRequest) : Except ApiError GuestConfig := do
  validateName "VM" run.name
  let guest ← guestConfig run
  if run.rootfs.head? ≠ some '/' then
    throw (badRequest "the rootfs path must be absolute")
  inBounds "vcpus" run.vcpus 1 32
  inBounds "mem_mib" run.memMib 128 65536
  match run.route with
  | some route => validateRoute route
  | none => pure ()
  return guest

/-- A request that passes these checks, with the name and route it is given. -/
def RunRequest.sample (name : Str) (route : Option Route) : RunRequest where
  name
  rootfs := "/images/app.ext4"
  memMib := 256
  vcpus := 1
  command := ["/bin/app"]
  env := []
  workdir := none
  user := none
  route

/-! ## Entries -/

/-- One name's record in the registry. -/
inductive Entry
  /-- A start or wake is running; the entry reserves the name and VM address. -/
  | starting (vmAddress : Ipv4Addr) (log : Str) (route : Option Route)
  /-- Owned by the supervisor task that `task` names, which the entry reaches. -/
  | running (info : VmInfo) (log : Str) (task : Nat)
  /-- History only: holds no host state and no VM address. -/
  | ended (info : VmInfo) (log : Str)
  deriving DecidableEq

instance decidableExistsEnded {found : Option Entry} {p : VmInfo → Str → Prop}
    [∀ info log, Decidable (p info log)] :
    Decidable (∃ info log, found = some (.ended info log) ∧ p info log) :=
  match found with
  | some (.ended info log) => decidable_of_iff (p info log) (by simp)
  | some (.starting _ _ _) | some (.running _ _ _) | none => isFalse (by simp)

instance decidableIsEnded {found : Option Entry} :
    Decidable (∃ info log, found = some (.ended info log)) :=
  decidable_of_iff (∃ info log, found = some (.ended info log) ∧ True) (by simp)

instance decidableIsRunning {found : Option Entry} :
    Decidable (∃ info log task, found = some (.running info log task)) :=
  match found with
  | some (.running info log task) => isTrue ⟨info, log, task, rfl⟩
  | some (.starting _ _ _) | some (.ended _ _) | none => isFalse (by simp)

/-- `Entry::vm_address`. -/
def Entry.vmAddress : Entry → Option Ipv4Addr
  | .starting vmAddress _ _ => some vmAddress
  | .running info _ _ => info.vmAddress
  | .ended _ _ => none

/-- `Entry::route`. -/
def Entry.route : Entry → Option Route
  | .starting _ _ route => route
  | .running info _ _ => info.route
  | .ended info _ => info.route

/-- `Entry::log`. -/
def Entry.log : Entry → Str
  | .starting _ log _ => log
  | .running _ log _ => log
  | .ended _ log => log

def Entry.isStarting : Entry → Bool
  | .starting _ _ _ => true
  | _ => false

abbrev Table := ExtTreeMap Str Entry compare

/-- Each Machine's Apps with their routes, by the Machine's name. -/
abbrev Machines := ExtTreeMap Str (ExtTreeMap Str Route compare) compare

variable {vms : Table} {machines : Machines}

/-- An Ended VM set aside while a new VM with its name starts. -/
structure Replaced where
  info : VmInfo
  log : Str
  deriving DecidableEq

/-- `is_parked`. -/
def isParked (info : VmInfo) : Bool := info.ended.any fun ended => ended.reason == .parked

/-- `ended_info`: `info` as an Ended VM's. -/
def endedInfo (info : VmInfo) (ended : Ended) : VmInfo :=
  { info with vmAddress := none, ended := some ended }

/-- `app_with_host`: the first App whose route has `host`. -/
def appWithHost (vms : Table) (host : Str) : Option Str :=
  (vms.toList.find? fun item => item.2.route.any fun route => route.host == host).map (·.1)

/-- `Machines::has_app`. -/
def Machines.hasApp (machines : Machines) (name : Str) : Bool :=
  machines.toList.any fun machine => machine.2.contains name

/-- `Machines::app_with_host`: the first Machine-backed App whose route has `host`. -/
def Machines.appWithHost (machines : Machines) (host : Str) : Option Str :=
  machines.toList.findSome? fun machine =>
    (machine.2.toList.find? fun app => app.2.host == host).map (·.1)

def hostnameTaken (host owner : Str) (vmBacked : Bool) : ApiError :=
  conflict ("the hostname " ++ quoted host ++ " belongs to App " ++
    quoted owner ++ "; ".toList ++ (if vmBacked then "stop and ".toList else []) ++
    "rm it to free the hostname")

def shuttingDownError : ApiError :=
  ⟨.serviceUnavailable, "the Node agent is shutting down"⟩

def noSuchVm (name : Str) : ApiError :=
  ⟨.notFound, "no VM named " ++ quoted name ++ "; `cirro ps -a` lists them all"⟩

def snapshotGone (name : Str) : Str :=
  "VM " ++ quoted name ++
    " is parked, but its snapshot is gone, so it can't be woken; `cirro rm " ++ name ++
    "` removes it"

/-! ## What happens under the lock -/

/-- `Agent::free_vm_address`: the lowest VM address no entry holds. -/
def freeVmAddress (subnet : Subnet) (vms : Table) : Except ApiError Ipv4Addr :=
  let held := vms.toList.filterMap fun item => item.2.vmAddress
  match subnet.vmAddresses.find? fun address => !held.contains address with
  | some address => .ok address
  | none => .error ⟨.serviceUnavailable, "the Node subnet has no free VM addresses"⟩

/-- What reserving a name for a start gives its task. -/
structure Reserved where
  vms : Table
  vmAddress : Ipv4Addr
  replaced : Option Replaced

/-- `run_vm`'s look at the name: it is free, or an Ended VM's that is not parked. -/
def replacedVm (vms : Table) (name : Str) : Except ApiError (Option Replaced) :=
  match vms[name]? with
  | some (.starting _ _ _) | some (.running _ _ _) =>
    .error (conflict ("a VM named " ++ quoted name ++ " already exists"))
  | some (.ended info log) =>
    if isParked info then
      .error (conflict ("VM " ++ quoted name ++
        " is parked: wake it, or rm it to discard its snapshot"))
    else .ok (some ⟨info, log⟩)
  | none => .ok none

/-- No Machine-backed App has the route's hostname. -/
def machineHostFree (machines : Machines) (route : Option Route) : Except ApiError Unit :=
  match route.bind fun route => (machines.appWithHost route.host).map (route.host, ·) with
  | some (host, owner) => .error (hostnameTaken host owner false)
  | none => .ok ()

/-- No VM-backed App but `name` has the route's hostname. -/
def hostFree (vms : Table) (name : Str) (route : Option Route) : Except ApiError Unit :=
  match route.bind fun route => (appWithHost vms route.host).map (route.host, ·) with
  | some (host, owner) =>
    if owner ≠ name then .error (hostnameTaken host owner true) else .ok ()
  | none => .ok ()

/-- `run_vm` under the lock: the checks in their order, then the reservation. -/
def reserveRun (subnet : Subnet) (shuttingDown : Bool) (machines : Machines) (vms : Table)
    (run : RunRequest) (log : Str) : Except ApiError Reserved := do
  refuseIf shuttingDown shuttingDownError
  refuseIf (machines.hasApp run.name)
    (conflict ("a Machine-backed App named " ++ quoted run.name ++
      " already exists"))
  machineHostFree machines run.route
  let replaced ← replacedVm vms run.name
  hostFree vms run.name run.route
  let vmAddress ← freeVmAddress subnet vms
  return ⟨vms.insert run.name (.starting vmAddress log run.route), vmAddress, replaced⟩

/-- What reserving a name for a wake gives its task. -/
structure ReservedWake where
  vms : Table
  vmAddress : Ipv4Addr
  parked : Replaced

/-- The parked VM that `wake_vm` would wake. `isDir` is whether the name has a
snapshot directory. -/
def parkedVm (isDir : Bool) (vms : Table) (name : Str) : Except ApiError Replaced :=
  match vms[name]? with
  | none => .error (noSuchVm name)
  | some (.ended info log) =>
    if isParked info then
      if isDir then .ok ⟨info, log⟩ else .error (conflict (snapshotGone name))
    else
      .error (conflict ("VM " ++ quoted name ++
        (" isn't parked; it has ended, and `cirro run` starts a new VM under its name").toList))
  | some _ =>
    .error (conflict ("VM " ++ quoted name ++ " isn't parked; it's running"))

/-- `wake_vm` under the lock. -/
def reserveWake (subnet : Subnet) (shuttingDown isDir : Bool) (vms : Table) (name : Str) :
    Except ApiError ReservedWake := do
  refuseIf shuttingDown shuttingDownError
  let parked ← parkedVm isDir vms name
  let vmAddress ← freeVmAddress subnet vms
  return ⟨vms.insert name (.starting vmAddress parked.log parked.info.route), vmAddress, parked⟩

/-- `forget_start`. -/
def forgetStart (vms : Table) (name : Str) (replaced : Option Replaced) : Table :=
  let vms := vms.erase name
  match replaced with
  | some old => vms.insert name (.ended old.info old.log)
  | none => vms

/-- `finish_wake`'s `put_back`. -/
def putBack (vms : Table) (name : Str) (parked : Replaced) : Table :=
  vms.insert name (.ended parked.info parked.log)

/-- `start_supervising`, for the supervisor task `task`. -/
def startSupervising (vms : Table) (info : VmInfo) (log : Str) (task : Nat) : Table :=
  vms.insert info.name (.running info log task)

/-- `record_end`: it takes the entry out before it looks at its variant. -/
def recordEnd (vms : Table) (name : Str) (ended : Ended) : Table :=
  match vms[name]? with
  | some (.running info log _) => (vms.erase name).insert name (.ended (endedInfo info ended) log)
  | _ => vms.erase name

/-- `remove`, for a name that is no Machine-backed App's. The snapshot and the record
are removed while the lock is held, before the entry. -/
def removeVm (vms : Table) (name : Str) : Except ApiError Table :=
  match vms[name]? with
  | none => .error (noSuchVm name)
  | some (.ended _ _) => .ok (vms.erase name)
  | some _ =>
    .error (conflict ("VM " ++ quoted name ++
      " is running; stop it before removing it"))

/-- The Apps of a Machine that is there. -/
def Machines.apps (machines : Machines) (machine : Str) :
    Except ApiError (ExtTreeMap Str Route compare) :=
  match machines[machine]? with
  | none => .error ⟨.notFound, "no Machine named " ++ quoted machine⟩
  | some apps => .ok apps

/-- `Machines::add_app`, when its Machine reconnects and the App is recorded. -/
def Machines.addApp (machines : Machines) (request : MachineAppRequest) :
    Except ApiError Machines := do
  refuseIf (machines.hasApp request.name)
    (conflict ("an App named " ++ quoted request.name ++ " already exists"))
  machineHostFree machines (some request.route)
  let apps ← machines.apps request.machine
  return machines.insert request.machine (apps.insert request.name request.route)

/-- What `run_on_machine` refuses before it takes the lock. -/
def validateMachineApp (request : MachineAppRequest) : Except ApiError Unit := do
  validateName "App" request.name
  validateRoute request.route
  if request.route.idleParkSecs.isSome then
    throw (badRequest ("a Machine-backed App can't idle-park: Cirrocumulus doesn't run what " ++
      "serves it").toList)

/-- No VM-backed App has the hostname. -/
def vmHostFree (vms : Table) (host : Str) : Except ApiError Unit :=
  match appWithHost vms host with
  | some owner => .error (hostnameTaken host owner true)
  | none => .ok ()

/-- `run_on_machine` under the lock. -/
def runOnMachine (vms : Table) (machines : Machines) (request : MachineAppRequest) :
    Except ApiError Machines := do
  refuseIf (vms.contains request.name)
    (conflict ("a VM named " ++ quoted request.name ++
      " already exists; rm it to use its name"))
  vmHostFree vms request.route.host
  machines.addApp request

/-- `Machines::remove_app`, when the App's record is removed. -/
def Machines.removeApp (machines : Machines) (name : Str) : Option Machines :=
  (machines.toList.find? fun machine => machine.2.contains name).map fun machine =>
    machines.insert machine.1 (machine.2.erase name)

/-! ## What the searches answer -/

/-- The VM-backed App `name` has the hostname `host`. -/
def HasHost (vms : Table) (name host : Str) : Prop :=
  ∃ entry route, vms[name]? = some entry ∧ entry.route = some route ∧ route.host = host

/-- The App `name` of `machine` has the hostname `host`. -/
def Machines.HasHost (machines : Machines) (machine name host : Str) : Prop :=
  ∃ apps : ExtTreeMap Str Route compare, ∃ route,
    machines[machine]? = some apps ∧ apps[name]? = some route ∧ route.host = host

theorem not_hasHost_of_appWithHost (h : appWithHost vms host = none)
    (name : Str) : ¬ HasHost vms name host := by
  rintro ⟨entry, route, hentry, hroute, hhost⟩
  have htest := test_of_find?_eq_none (map_eq_none_iff.mp h) hentry
  simp [hroute, hhost] at htest

theorem hasHost_of_appWithHost {owner}
    (h : appWithHost vms host = some owner) : HasHost vms owner host := by
  obtain ⟨item, hfind, rfl⟩ := map_eq_some_iff.mp h
  obtain ⟨hget, htest⟩ := lookup_of_find? hfind
  obtain ⟨route, hroute, hhost⟩ := (Option.any_eq_true _ _).mp htest
  exact ⟨item.2, route, hget, hroute, by simpa using hhost⟩

theorem Machines.not_hasHost_of_appWithHost (h : machines.appWithHost host = none)
    (machine name : Str) : ¬ machines.HasHost machine name host := by
  rintro ⟨apps, route, happs, hroute, hhost⟩
  have hnone := findSome?_eq_none_iff.mp h (machine, apps)
    (mem_items.mpr happs)
  have htest := test_of_find?_eq_none (map_eq_none_iff.mp hnone) hroute
  simp [hhost] at htest

/-- The address handed out is a VM address that no entry holds. -/
theorem freeVmAddress_eq_ok {address} (h : freeVmAddress subnet vms = .ok address) :
    address ∈ subnet.vmAddresses ∧
      ∀ (name : Str) (entry : Entry), vms[name]? = some entry → entry.vmAddress ≠ some address := by
  unfold freeVmAddress at h
  dsimp only at h
  split at h
  · rename_i found hfind
    cases h
    refine ⟨mem_of_find?_eq_some hfind, fun name entry hentry haddress => ?_⟩
    have hfree := find?_some hfind
    have hheld : address ∈ vms.toList.filterMap fun item => item.2.vmAddress :=
      mem_filterMap.mpr
        ⟨(name, entry), mem_items.mpr hentry, haddress⟩
    simp [hheld] at hfree
  · cases h

/-- No address is handed out only when every VM address is held. -/
theorem freeVmAddress_eq_error {e} (h : freeVmAddress subnet vms = .error e) {address}
    (hmem : address ∈ subnet.vmAddresses) :
    ∃ (name : Str) (entry : Entry), vms[name]? = some entry ∧ entry.vmAddress = some address := by
  unfold freeVmAddress at h
  dsimp only at h
  split at h
  · cases h
  · rename_i hnone
    have hheld := find?_eq_none.mp hnone address hmem
    simpa using hheld

/-! ## What a reservation checked -/

theorem refuseIf_eq_ok {refused error}
    (h : refuseIf refused error = .ok result) : refused = false := by
  cases refused with
  | false => rfl
  | true => cases h

theorem machineHostFree_eq_ok {route} (h : machineHostFree machines route = .ok result) {own}
    (hown : route = some own) : machines.appWithHost own.host = none := by
  unfold machineHostFree at h
  split at h
  · cases h
  · rename_i hnone
    simpa [hown] using hnone

theorem hostFree_eq_ok {route}
    (h : hostFree vms name route = .ok result) {own} (hown : route = some own)
    {owner} (howner : appWithHost vms own.host = some owner) : owner = name := by
  subst hown
  simp only [hostFree, bind_some, howner, map_some] at h
  split at h
  · cases h
  · rename_i heq
    exact not_not.mp heq

theorem vmHostFree_eq_ok (h : vmHostFree vms host = .ok result) : appWithHost vms host = none := by
  unfold vmHostFree at h
  split at h
  · cases h
  · assumption

/-- A name is given to a start when it is absent or an Ended VM's that is not parked. -/
theorem replacedVm_eq_ok {replaced} (h : replacedVm vms name = .ok replaced) :
    (vms[name]? = none ∧ replaced = none) ∨
      ∃ info log, vms[name]? = some (.ended info log) ∧ isParked info = false ∧
        replaced = some ⟨info, log⟩ := by
  unfold replacedVm at h
  split at h
  · cases h
  · cases h
  · rename_i info log hentry
    split at h
    · cases h
    · rename_i hparked
      cases h
      exact .inr ⟨info, log, hentry, by simpa using hparked, rfl⟩
  · rename_i hentry
    cases h
    exact .inl ⟨hentry, rfl⟩

/-- What `run_vm` saw under the lock when it reserved the name. -/
structure RunReserved (subnet : Subnet) (shuttingDown : Bool) (machines : Machines) (vms : Table)
    (run : RunRequest) (log : Str) (reserved : Reserved) : Prop where
  not_shuttingDown : shuttingDown = false
  not_app : machines.hasApp run.name = false
  not_machineHost : ∀ route, run.route = some route → machines.appWithHost route.host = none
  replaces : replacedVm vms run.name = .ok reserved.replaced
  own_host : ∀ route owner, run.route = some route →
    appWithHost vms route.host = some owner → owner = run.name
  free : freeVmAddress subnet vms = .ok reserved.vmAddress
  vms_eq : reserved.vms = vms.insert run.name (.starting reserved.vmAddress log run.route)

theorem reserveRun_eq_ok {shuttingDown run log reserved}
    (h : reserveRun subnet shuttingDown machines vms run log = .ok reserved) :
    RunReserved subnet shuttingDown machines vms run log reserved := by
  obtain ⟨_, hdown, h⟩ := except_bind_eq_ok.mp h
  obtain ⟨_, happ, h⟩ := except_bind_eq_ok.mp h
  obtain ⟨_, hmachine, h⟩ := except_bind_eq_ok.mp h
  obtain ⟨replaced, hreplaced, h⟩ := except_bind_eq_ok.mp h
  obtain ⟨_, hhost, h⟩ := except_bind_eq_ok.mp h
  obtain ⟨vmAddress, hfree, h⟩ := except_bind_eq_ok.mp h
  cases h
  exact {
    not_shuttingDown := refuseIf_eq_ok hdown
    not_app := refuseIf_eq_ok happ
    not_machineHost := fun route hroute => machineHostFree_eq_ok hmachine hroute
    replaces := hreplaced
    own_host := fun route owner hroute howner => hostFree_eq_ok hhost hroute howner
    free := hfree
    vms_eq := rfl }

theorem parkedVm_eq_ok {isDir parked} (h : parkedVm isDir vms name = .ok parked) :
    vms[name]? = some (.ended parked.info parked.log) ∧ isParked parked.info ∧
      isDir := by
  unfold parkedVm at h
  split at h
  · cases h
  · rename_i info log hentry
    split at h
    · rename_i hparked
      split at h
      · rename_i hdir
        cases h
        exact ⟨hentry, hparked, hdir⟩
      · cases h
    · cases h
  · cases h

/-- What `wake_vm` saw under the lock when it reserved the name. -/
structure WakeReserved (subnet : Subnet) (shuttingDown isDir : Bool) (vms : Table) (name : Str)
    (reserved : ReservedWake) : Prop where
  not_shuttingDown : shuttingDown = false
  parked : parkedVm isDir vms name = .ok reserved.parked
  free : freeVmAddress subnet vms = .ok reserved.vmAddress
  vms_eq : reserved.vms =
    vms.insert name (.starting reserved.vmAddress reserved.parked.log reserved.parked.info.route)

theorem reserveWake_eq_ok {shuttingDown isDir reserved}
    (h : reserveWake subnet shuttingDown isDir vms name = .ok reserved) :
    WakeReserved subnet shuttingDown isDir vms name reserved := by
  obtain ⟨_, hdown, h⟩ := except_bind_eq_ok.mp h
  obtain ⟨parked, hparked, h⟩ := except_bind_eq_ok.mp h
  obtain ⟨vmAddress, hfree, h⟩ := except_bind_eq_ok.mp h
  cases h
  exact ⟨refuseIf_eq_ok hdown, hparked, hfree, rfl⟩

/-! ## The table after an update -/

theorem lookup_forgetStart (vms : Table) (name : Str) (replaced : Option Replaced) (other : Str) :
    (forgetStart vms name replaced)[other]? =
      if other = name then replaced.map fun old => .ended old.info old.log
      else vms[other]? := by
  cases replaced with
  | none => simp [forgetStart, lookup_erase]
  | some old =>
    simp only [forgetStart, lookup_insert, lookup_erase, map_some]
    split <;> rfl

theorem lookup_recordEnd {info log task}
    (hentry : vms[name]? = some (.running info log task)) (ended : Ended) (other : Str) :
    (recordEnd vms name ended)[other]? =
      if other = name then some (.ended (endedInfo info ended) log) else vms[other]? := by
  simp only [recordEnd, hentry, lookup_insert, lookup_erase]
  split <;> rfl

theorem removeVm_eq_ok {vms'} (h : removeVm vms name = .ok vms') :
    (∃ info log, vms[name]? = some (.ended info log)) ∧ vms' = vms.erase name := by
  unfold removeVm at h
  split at h
  · cases h
  · rename_i info log hentry
    cases h
    exact ⟨⟨info, log, hentry⟩, rfl⟩
  · cases h

end Cirrocumulus.Node
