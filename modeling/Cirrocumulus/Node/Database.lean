/-
# The columns of the state database

The store keeps each VM in one row of nullable columns: an address as text, a process as
two integers, an end as an integer and a text, a route as a text and two integers. The
route's columns were added to the table after its first release, so a database may have
been made, and rows written, by an agent that knew only some of them.

The result is that none of this shows: what `load` reads is a map of records by name,
which the three statements change as the abstract store does.
-/

import Cirrocumulus.Node.Store
import Cirrocumulus.Lib.Sql
import Cirrocumulus.Lib.Runs

namespace Cirrocumulus.Node

open Std (ExtTreeMap)
open Lib Lib.Sql List Option

/-! ## Values and their columns -/

/-- The columns of `vms` beside its key, the name. -/
inductive Column
  | vmAddress | pid | pidStart | memMib | vcpus | startedAt | endedAt | endReason | log
  | routeHost | routePort | routeIdlePark
  deriving DecidableEq

/-- The columns of the table's first release. -/
def firstColumns : List Column :=
  [.vmAddress, .pid, .pidStart, .memMib, .vcpus, .startedAt, .endedAt, .endReason, .log]

/-- Which of the columns added later an agent knows. -/
structure Version where
  routeHost : Bool
  routePort : Bool
  routeIdlePark : Bool

/-- This agent. -/
def Version.current : Version := ⟨true, true, true⟩

variable (version : Version)

/-- `ADDED`, in the order they came. -/
def Version.added : List Column :=
  (if version.routeHost then [.routeHost] else []) ++
    (if version.routePort then [.routePort] else []) ++
    (if version.routeIdlePark then [.routeIdlePark] else [])

/-- `to_sql`. -/
def toSql (n : Nat) : Int := if n < 2 ^ 63 then n else 2 ^ 63 - 1

/-- `from_sql`. -/
def fromSql (n : Int) : Nat := n.toNat

/-- One octet of an address. -/
def showOctet (n : Nat) : Str := Nat.toDigits 10 n

/-- An address as `Display` writes it. -/
def showIpv4 (address : Ipv4Addr) : Str :=
  ['.'].intercalate
    [showOctet (address.toNat / 2 ^ 24), showOctet (address.toNat / 2 ^ 16 % 256),
      showOctet (address.toNat / 2 ^ 8 % 256), showOctet (address.toNat % 256)]

/-- `reason_text`. -/
def reasonText : EndReason → Str
  | .graceful => "graceful"
  | .forced => "forced"
  | .exited => "exited"
  | .crashed => "crashed"
  | .parked => "parked"
  | .agentDown => "agent_down"

/-- `parse_reason`. -/
def parseReason (text : Str) : Option EndReason :=
  [.graceful, .forced, .exited, .crashed, .parked, .agentDown].find? fun reason =>
    reasonText reason == text

/-- A VMM's pid and start time. -/
structure VmmProcess where
  pid : Nat
  startTime : Nat
  deriving DecidableEq

/-- A record as `load` gives it. -/
structure StoredVm where
  info : VmInfo
  log : Str
  process : Option VmmProcess
  deriving DecidableEq

/-- `Option::zip`. -/
def zip {α β : Type} (first : Option α) (second : Option β) : Option (α × β) :=
  first.bind fun a => second.map fun b => (a, b)

/-! ## Statements -/

abbrev VmsTable := Lib.Sql.Table Column

/-- The state database, before and after `vms` is created. -/
structure Database where
  /-- The row of `node`. -/
  subnet : Option Str
  vms : Option VmsTable

def Database.empty : Database := ⟨none, none⟩

/-- `add_missing_columns`, of an agent that knows these columns. -/
def addMissingColumns (table : VmsTable) : Option VmsTable :=
  (version.added.filter fun column => !table.columns.contains column).foldlM
    Table.addColumn table

/-- `Store::open`: what it leaves, and its error. -/
def Database.open (db : Database) (version : Version) (subnet : Str) :
    Option (Database × Except Str Unit) :=
  let table := db.vms.getD ⟨firstColumns ++ version.added, ∅⟩
  (addMissingColumns version table).map fun table =>
    match db.subnet with
    | none => (⟨some subnet, some table⟩, .ok ())
    | some stored =>
      (⟨some stored, some table⟩,
        if stored = subnet then .ok ()
        else .error ("the state dir belongs to the Node subnet " ++ stored ++
          ", but this agent was started with " ++ subnet))

/-- What `insert_running` writes of a route. -/
def routeValues (route : Option Route) : List (Column × Value) :=
  (if version.routeHost then [(.routeHost, .ofOption .text (route.map Route.host))] else []) ++
    (if version.routePort then
      [(.routePort, .ofOption (fun n : Nat => .integer n) (route.map Route.port))] else []) ++
    (if version.routeIdlePark then
      [(.routeIdlePark,
        .ofOption (fun n : Nat => .integer n) (route.bind Route.idleParkSecs))] else [])

/-- The columns that `insert_running` names, with their values. -/
def runningValues (info : VmInfo) (log : Str) (process : VmmProcess) : List (Column × Value) :=
  [(.vmAddress, .ofOption .text (info.vmAddress.map showIpv4)), (.pid, .integer process.pid),
    (.pidStart, .integer (toSql process.startTime)), (.memMib, .integer info.memMib),
    (.vcpus, .integer info.vcpus), (.startedAt, .integer (toSql info.startedAt)),
    (.log, .text log)] ++ routeValues version info.route

/-- The row that it makes of them. -/
def runningValue (info : VmInfo) (log : Str) (process : VmmProcess) : Column → Value :=
  assign (fun _ => .null) (runningValues version info log process)

/-- `Store::insert_running`. -/
def insertRunning (table : VmsTable) (info : VmInfo) (log : Str)
    (process : VmmProcess) : Option VmsTable :=
  table.insertOrReplace info.name (runningValues version info log process)

/-- The columns that `mark_ended` names, with their values. -/
def endedValues (ended : Ended) : List (Column × Value) :=
  [(.vmAddress, .null), (.pid, .null), (.pidStart, .null),
    (.endedAt, .integer (toSql ended.time)), (.endReason, .text (reasonText ended.reason))]

/-- `Store::mark_ended`. -/
def markEnded (table : VmsTable) (name : Str) (ended : Ended) : Option VmsTable :=
  table.update name (endedValues ended)

/-- The columns of a row with the types that `load` reads them at. -/
structure Fields where
  vmAddress : Option Str
  pid : Option Nat
  pidStart : Option Int
  endedAt : Option Int
  endReason : Option Str
  log : Str
  routeHost : Option Str
  routePort : Option Nat
  idleParkSecs : Option Nat
  memMib : Nat
  vcpus : Nat
  startedAt : Int

def readFields (row : Column → Value) : Option Fields := do
  let vmAddress ← (row .vmAddress).optional Value.text?
  let pid ← (row .pid).optional (Value.nat? (2 ^ 32))
  let pidStart ← (row .pidStart).optional Value.int?
  let endedAt ← (row .endedAt).optional Value.int?
  let endReason ← (row .endReason).optional Value.text?
  let log ← (row .log).text?
  let routeHost ← (row .routeHost).optional Value.text?
  let routePort ← (row .routePort).optional (Value.nat? (2 ^ 16))
  let idleParkSecs ← (row .routeIdlePark).optional (Value.nat? (2 ^ 32))
  let memMib ← (row .memMib).nat? (2 ^ 32)
  let vcpus ← (row .vcpus).nat? (2 ^ 8)
  let startedAt ← (row .startedAt).int?
  return ⟨vmAddress, pid, pidStart, endedAt, endReason, log, routeHost, routePort, idleParkSecs,
    memMib, vcpus, startedAt⟩

/-- The record that `load` makes of a row. -/
def Fields.record (fields : Fields) (name : Str) : StoredVm where
  info :=
    { name
      vmAddress := fields.vmAddress.bind fun text => (parseIpv4 text).toOption
      memMib := fields.memMib
      vcpus := fields.vcpus
      startedAt := fromSql fields.startedAt
      ended := (zip fields.endedAt fields.endReason).bind fun item =>
        (parseReason item.2).map fun reason => ⟨fromSql item.1, reason⟩
      route := (zip fields.routeHost fields.routePort).map fun item =>
        ⟨item.1, item.2, fields.idleParkSecs⟩ }
  log := fields.log
  process := (zip fields.pid fields.pidStart).map fun item => ⟨item.1, fromSql item.2⟩

/-- How `load` reads one row. -/
def readRow (name : Str) (row : Column → Value) : Option StoredVm :=
  (readFields row).map fun fields => fields.record name

/-- `Store::load`. -/
def Database.load (db : Database) : Option (List StoredVm) :=
  db.vms.bind fun table => table.select (firstColumns ++ Version.current.added) readRow

/-! ## What is read back -/

theorem parseOctet_showOctet : ∀ n < 256, parseOctet (showOctet n) = some n ∧
    '.' ∉ showOctet n := by
  decide +kernel

/-- An address is read back as it was. -/
theorem parseIpv4_showIpv4 (address : Ipv4Addr) : parseIpv4 (showIpv4 address) = .ok address := by
  have hlt := address.isLt
  have h1 := parseOctet_showOctet (address.toNat / 2 ^ 24) (by omega)
  have h2 := parseOctet_showOctet (address.toNat / 2 ^ 16 % 256) (by omega)
  have h3 := parseOctet_showOctet (address.toNat / 2 ^ 8 % 256) (by omega)
  have h4 := parseOctet_showOctet (address.toNat % 256) (by omega)
  rw [parseIpv4, showIpv4, splitOn_intercalate]
  · simp only [map_cons, map_nil, h1.1, h2.1, h3.1, h4.1]
    congr 1
    apply BitVec.eq_of_toNat_eq
    rw [BitVec.toNat_ofNat]
    omega
  · rw [forall_mem_cons, forall_mem_cons, forall_mem_cons, forall_mem_cons]
    exact ⟨h1.2, h2.2, h3.2, h4.2, forall_mem_nil _⟩
  · exact cons_ne_nil _ _

/-- `Subnet::fmt`. -/
def Subnet.fmt (subnet : Subnet) : Str :=
  showIpv4 subnet.network ++ '/' :: showOctet subnet.prefixLen

/-- A subnet is read back as it was. -/
theorem Subnet.fromStr_fmt (subnet : Subnet) : Subnet.fromStr subnet.fmt = .ok subnet := by
  have hdigits (n : Nat) : '/' ∉ showOctet n := fun hmem => by
    cases Nat.isDigit_of_mem_toDigits (by decide) (by decide) hmem
  have hslash : '/' ∉ showIpv4 subnet.network := by simp [showIpv4, List.intercalate, hdigits]
  have hlen : ∀ n ≤ 30, parseUnsigned 8 (showOctet n) = .ok n := by decide +kernel
  obtain ⟨network, prefixLen, hle, haligned⟩ := subnet
  rw [fromStr, fmt, splitOnce_append hslash]
  simp only [parseIpv4_showIpv4, hlen prefixLen hle.2, hle, and_self, dite_true,
    and_maskOf_eq_iff.mpr haligned]

theorem parseReason_reasonText (reason : EndReason) :
    parseReason (reasonText reason) = some reason := by
  cases reason <;> decide

theorem fromSql_toSql {n} (h : n < 2 ^ 63) : fromSql (toSql n) = n := by
  rw [fromSql, toSql, if_pos h, Int.toNat_natCast]

/-- What an agent that knows only some of the added columns keeps of a route. -/
def Version.keeps (route : Option Route) : Option Route :=
  if version.routeHost && version.routePort then
    route.map fun route =>
      if version.routeIdlePark then route else { route with idleParkSecs := none }
  else none

/-- The numbers of a route fit their types. -/
def Route.Fits (route : Route) : Prop :=
  route.port < 2 ^ 16 ∧ ∀ secs ∈ route.idleParkSecs, secs < 2 ^ 32

/-- The numbers of a VM fit their types, and its time the database. -/
structure VmInfo.Fits (info : VmInfo) : Prop where
  memMib : info.memMib < 2 ^ 32
  vcpus : info.vcpus < 2 ^ 8
  startedAt : info.startedAt < 2 ^ 63
  route : ∀ route ∈ info.route, route.Fits

def VmmProcess.Fits (process : VmmProcess) : Prop :=
  process.pid < 2 ^ 32 ∧ process.startTime < 2 ^ 63

/-- A record of a VM that runs. -/
def StoredVm.running (info : VmInfo) (log : Str) (process : VmmProcess) : StoredVm :=
  ⟨{ info with ended := none, route := version.keeps info.route }, log, some process⟩

/-- The record of the VM when it has ended. -/
def StoredVm.markEnded (ended : Ended) (vm : StoredVm) : StoredVm :=
  ⟨{ vm.info with vmAddress := none, ended := some ended }, vm.log, none⟩

section

variable {version : Version} {info : VmInfo} {log : Str} {process : VmmProcess} {name : Str}
  {row : Column → Value} {vm : StoredVm} {ended : Ended}

/-- The columns of a row hold these fields. -/
structure Fields.Of (fields : Fields) (row : Column → Value) : Prop where
  vmAddress : (row .vmAddress).optional Value.text? = some fields.vmAddress
  pid : (row .pid).optional (Value.nat? (2 ^ 32)) = some fields.pid
  pidStart : (row .pidStart).optional Value.int? = some fields.pidStart
  endedAt : (row .endedAt).optional Value.int? = some fields.endedAt
  endReason : (row .endReason).optional Value.text? = some fields.endReason
  log : (row .log).text? = some fields.log
  routeHost : (row .routeHost).optional Value.text? = some fields.routeHost
  routePort : (row .routePort).optional (Value.nat? (2 ^ 16)) = some fields.routePort
  idleParkSecs :
    (row .routeIdlePark).optional (Value.nat? (2 ^ 32)) = some fields.idleParkSecs
  memMib : (row .memMib).nat? (2 ^ 32) = some fields.memMib
  vcpus : (row .vcpus).nat? (2 ^ 8) = some fields.vcpus
  startedAt : (row .startedAt).int? = some fields.startedAt

theorem readFields_eq_some {fields} : readFields row = some fields ↔ fields.Of row := by
  constructor
  · intro h
    simp only [readFields, bind_eq_bind, bind_eq_some_iff] at h
    obtain ⟨_, h1, _, h2, _, h3, _, h4, _, h5, _, h6, _, h7, _, h8, _, h9, _, h10, _, h11, _, h12,
      ⟨⟩⟩ := h
    exact ⟨h1, h2, h3, h4, h5, h6, h7, h8, h9, h10, h11, h12⟩
  · rintro ⟨h1, h2, h3, h4, h5, h6, h7, h8, h9, h10, h11, h12⟩
    simp only [readFields, h1, h2, h3, h4, h5, h6, h7, h8, h9, h10, h11, h12, bind_eq_bind,
      bind_some, Option.pure_def]

/-- The row that an insertion writes. -/
theorem fields_of_running (hinfo : info.Fits) (hprocess : process.Fits) :
    Fields.Of
      { vmAddress := info.vmAddress.map showIpv4
        pid := some process.pid
        pidStart := some (toSql process.startTime)
        endedAt := none
        endReason := none
        log
        routeHost := if version.routeHost then info.route.map Route.host else none
        routePort := if version.routePort then info.route.map Route.port else none
        idleParkSecs := if version.routeIdlePark then info.route.bind Route.idleParkSecs else none
        memMib := info.memMib
        vcpus := info.vcpus
        startedAt := toSql info.startedAt }
      (runningValue version info log process) := by
  -- The route's columns are named by the agents that know them, and null otherwise.
  have hhost : runningValue version info log process .routeHost =
      if version.routeHost then .ofOption .text (info.route.map Route.host) else .null := by
    rcases version with ⟨_ | _, _ | _, _ | _⟩ <;> rfl
  have hport : runningValue version info log process .routePort =
      if version.routePort then
        .ofOption (fun n : Nat => .integer n) (info.route.map Route.port) else .null := by
    rcases version with ⟨_ | _, _ | _, _ | _⟩ <;> rfl
  have hidle : runningValue version info log process .routeIdlePark =
      if version.routeIdlePark then
        .ofOption (fun n : Nat => .integer n) (info.route.bind Route.idleParkSecs) else .null := by
    rcases version with ⟨_ | _, _ | _, _ | _⟩ <;> rfl
  -- So are the columns of the end, which nobody names.
  have hended : runningValue version info log process .endedAt = .null ∧
      runningValue version info log process .endReason = .null := by
    rcases version with ⟨_ | _, _ | _, _ | _⟩ <;> exact ⟨rfl, rfl⟩
  have hpid : runningValue version info log process .pid = .integer process.pid := rfl
  constructor
  case vmAddress => exact Value.optional_ofOption fun text _ => ⟨by simp, rfl⟩
  case pid => rw [hpid, Value.optional_integer, Value.nat?_integer hprocess.1, map_some]
  case pidStart => rfl
  case endedAt => rw [hended.1, Value.optional_null]
  case endReason => rw [hended.2, Value.optional_null]
  case log => rfl
  case routeHost =>
    rw [hhost]
    split
    · exact Value.optional_ofOption fun text _ => ⟨by simp, rfl⟩
    · rfl
  case routePort =>
    rw [hport]
    split
    · apply Value.optional_ofOption
      intro port hmem
      obtain ⟨route, hroute, rfl⟩ := map_eq_some_iff.mp hmem
      exact ⟨by simp, Value.nat?_integer (hinfo.route route hroute).1⟩
    · rfl
  case idleParkSecs =>
    rw [hidle]
    split
    · apply Value.optional_ofOption
      intro secs hmem
      obtain ⟨route, hroute, hsecs⟩ := bind_eq_some_iff.mp hmem
      exact ⟨by simp, Value.nat?_integer ((hinfo.route route hroute).2 secs hsecs)⟩
    · rfl
  case memMib => exact Value.nat?_integer hinfo.memMib
  case vcpus => exact Value.nat?_integer hinfo.vcpus
  case startedAt => rfl

/-- What is inserted is read back, with as much of the route as was written. -/
theorem readRow_running (hinfo : info.Fits) (hprocess : process.Fits) :
    readRow info.name (runningValue version info log process) =
      some (.running version info log process) := by
  rw [readRow, readFields_eq_some.mpr (fields_of_running hinfo hprocess), map_some]
  have haddress : (info.vmAddress.map showIpv4).bind (fun text => (parseIpv4 text).toOption) =
      info.vmAddress := by
    cases info.vmAddress with
    | none => rfl
    | some address =>
      rw [map_some, bind_some, parseIpv4_showIpv4]
      rfl
  have hroute : (zip (if version.routeHost then info.route.map Route.host else none)
      (if version.routePort then info.route.map Route.port else none)).map (fun item =>
        (⟨item.1, item.2, if version.routeIdlePark then info.route.bind Route.idleParkSecs
          else none⟩ : Route)) = version.keeps info.route := by
    rcases version with ⟨_ | _, _ | _, _ | _⟩ <;> cases info.route <;> rfl
  simp only [Fields.record, haddress, hroute, fromSql_toSql hinfo.startedAt]
  simp [StoredVm.running, zip, fromSql_toSql hprocess.2]

/-- An end takes the place of the address and the process, and leaves the rest. -/
theorem readRow_ended (h : readRow name row = some vm) (htime : ended.time < 2 ^ 63) :
    readRow name (assign row (endedValues ended)) = some (vm.markEnded ended) := by
  obtain ⟨fields, hfields, rfl⟩ := map_eq_some_iff.mp h
  have hof := readFields_eq_some.mp hfields
  have hended : Fields.Of { fields with
      vmAddress := none
      pid := none
      pidStart := none
      endedAt := some (toSql ended.time)
      endReason := some (reasonText ended.reason) } (assign row (endedValues ended)) :=
    { hof with vmAddress := rfl, pid := rfl, pidStart := rfl, endedAt := rfl, endReason := rfl }
  rw [readRow, readFields_eq_some.mpr hended, map_some]
  simp [Fields.record, StoredVm.markEnded, zip, parseReason_reasonText, fromSql_toSql htime]

end

/-! ## The store as a map of records -/

/-- What an agent does with its store. -/
inductive StoreOp
  | open (version : Version) (subnet : Str)
  | insertRunning (version : Version) (info : VmInfo) (log : Str) (process : VmmProcess)
  | markEnded (name : Str) (ended : Ended)
  | delete (name : Str)

/-- The database behind an operation; none if a statement of it fails. -/
def Database.step (db : Database) : StoreOp → Option Database
  | .open version subnet => (db.open version subnet).map (·.1)
  | .insertRunning version info log process =>
    db.vms.bind fun table => (insertRunning version table info log process).map fun table =>
      { db with vms := some table }
  | .markEnded name ended =>
    db.vms.bind fun table => (markEnded table name ended).map fun table =>
      { db with vms := some table }
  | .delete name => db.vms.map fun table => { db with vms := some (table.delete name) }

/-- What the store is for: a record for each live name. -/
abbrev Records := ExtTreeMap Str StoredVm compare

/-- A VM that has started takes its name with whatever was recorded under it; one that has
ended keeps all but its address and its process. -/
def Records.step (records : Records) : StoreOp → Records
  | .open _ _ => records
  | .insertRunning version info log process =>
    records.insert info.name (.running version info log process)
  | .markEnded name ended => records.modify name (·.markEnded ended)
  | .delete name => records.erase name

/-- The numbers of an operation fit the database. -/
def StoreOp.Fits : StoreOp → Prop
  | .insertRunning _ info _ process => info.Fits ∧ process.Fits
  | .markEnded _ ended => ended.time < 2 ^ 63
  | .open _ _ | .delete _ => True

/-- An operation of this agent, on a store that is open. -/
def StoreOp.IsCurrent : StoreOp → Prop
  | .open _ _ => False
  | .insertRunning version _ _ _ => version = .current
  | .markEnded _ _ | .delete _ => True

/-- A table that holds these records. -/
structure HoldsRecords (table : VmsTable) (records : Records) : Prop where
  tidy : table.Tidy
  reads : table.Reads readRow records
  columns : ∀ column ∈ firstColumns, column ∈ table.columns

@[inherit_doc HoldsRecords]
structure Database.Holds (db : Database) (records : Records) : Prop where
  fresh : db.vms = none → records = ∅
  table : ∀ {table}, db.vms = some table → HoldsRecords table records

section

variable {version : Version} {db next : Database} {records : Records} {op : StoreOp}
  {table : VmsTable}

theorem Database.Holds.empty : empty.Holds ∅ where
  fresh _ := rfl
  table h := by cases h

theorem Database.Holds.of_table {subnet} (htable : HoldsRecords table records) :
    Database.Holds ⟨subnet, some table⟩ records where
  fresh h := by cases h
  table h := by
    cases h
    exact htable

/-- Adding what is missing changes no row, and never fails. -/
theorem exists_addMissingColumns (htidy : table.Tidy) (version : Version) :
    ∃ next, addMissingColumns version table = some next ∧ next.rows = table.rows ∧ next.Tidy ∧
      ∀ column, column ∈ next.columns ↔ column ∈ table.columns ∨ column ∈ version.added := by
  have hnodup : version.added.Nodup := by
    rcases version with ⟨_ | _, _ | _, _ | _⟩ <;> decide
  obtain ⟨next, hnext, hrows, hcolumns⟩ := Table.exists_addColumns
    (hnodup.filter fun column => !table.columns.contains column) (by simp) htidy
  have hmem (column : Column) :
      column ∈ next.columns ↔ column ∈ table.columns ∨ column ∈ version.added := by
    rw [hcolumns, mem_append, mem_filter, Bool.not_eq_true', ← Bool.not_eq_true,
      contains_iff_mem]
    tauto
  refine ⟨next, hnext, hrows, ?_, hmem⟩
  intro key row hrow column hcolumn
  rw [hrows] at hrow
  exact htidy hrow column fun hold => hcolumn ((hmem column).mpr (.inl hold))

variable (h : db.Holds records)
include h

/-- Opening the store leaves its records as they are, and it has the agent's columns. -/
theorem Database.Holds.open (version : Version) (subnet : Str) :
    ∃ opened result table, db.open version subnet = some (opened, result) ∧
      opened.Holds records ∧ opened.vms = some table ∧
      (∀ column ∈ version.added, column ∈ table.columns) ∧
      (db.subnet = none ∨ db.subnet = some subnet → result = .ok ()) := by
  have htable : HoldsRecords (db.vms.getD ⟨firstColumns ++ version.added, ∅⟩) records := by
    cases hvms : db.vms with
    | none =>
      rw [h.fresh hvms]
      refine ⟨?_, .empty _, fun column hcolumn => mem_append_left _ hcolumn⟩
      intro key row hrow
      simp at hrow
    | some table => exact h.table hvms
  obtain ⟨next, hnext, hrows, htidy, hmem⟩ := exists_addMissingColumns htable.tidy version
  have hholds : HoldsRecords next records := by
    refine ⟨htidy, fun key => ?_, fun column hcolumn => ?_⟩
    · rw [hrows]
      exact htable.reads key
    · exact (hmem column).mpr (.inl (htable.columns column hcolumn))
  have hadded : ∀ column ∈ version.added, column ∈ next.columns :=
    fun column hcolumn => (hmem column).mpr (.inr hcolumn)
  rw [Database.open, hnext, map_some]
  cases hsubnet : db.subnet with
  | none => exact ⟨_, _, next, rfl, .of_table hholds, rfl, hadded, fun _ => rfl⟩
  | some stored =>
    refine ⟨_, _, next, rfl, .of_table hholds, rfl, hadded, ?_⟩
    rintro (hnone | hsame)
    · cases hnone
    · cases hsame
      exact if_pos rfl

/-- Every operation does to the records what it is meant to. -/
theorem Database.Holds.step (hfits : op.Fits)
    (hstep : db.step op = some next) : next.Holds (records.step op) := by
  cases op with
  | «open» version subnet =>
    obtain ⟨⟨opened, result⟩, hopen, rfl⟩ := map_eq_some_iff.mp hstep
    obtain ⟨opened', result', table, hopen', hholds, -⟩ := h.open version subnet
    cases hopen.symm.trans hopen'
    exact hholds
  | insertRunning version info log process =>
    obtain ⟨table, hvms, hrest⟩ := bind_eq_some_iff.mp hstep
    obtain ⟨after, hafter, rfl⟩ := map_eq_some_iff.mp hrest
    have htable := h.table hvms
    refine of_table ⟨Table.tidy_insertOrReplace htable.tidy hafter, ?_, ?_⟩
    · exact htable.reads.insertOrReplace (readRow_running hfits.1 hfits.2) hafter
    · rw [Table.columns_insertOrReplace hafter]
      exact htable.columns
  | markEnded name ended =>
    obtain ⟨table, hvms, hrest⟩ := bind_eq_some_iff.mp hstep
    obtain ⟨after, hafter, rfl⟩ := map_eq_some_iff.mp hrest
    have htable := h.table hvms
    refine of_table ⟨Table.tidy_update htable.tidy hafter, ?_, ?_⟩
    · exact htable.reads.update (fun hread => readRow_ended hread hfits) hafter
    · rw [Table.columns_update hafter]
      exact htable.columns
  | delete name =>
    obtain ⟨table, hvms, rfl⟩ := map_eq_some_iff.mp hstep
    have htable := h.table hvms
    exact of_table ⟨fun hrow => htable.tidy (of_lookup_erase hrow).2, htable.reads.delete,
      htable.columns⟩

theorem Database.Holds.run {schedule}
    (hfits : ∀ op ∈ schedule, op.Fits) (hrun : run Database.step db schedule = some next) :
    next.Holds (schedule.foldl Records.step records) := by
  induction schedule generalizing db records with
  | nil =>
    cases hrun
    exact h
  | cons op rest ih =>
    obtain ⟨middle, hstep, hrest⟩ := run_cons_eq_some.mp hrun
    obtain ⟨hfirst, hfits⟩ := forall_mem_cons.mp hfits
    exact ih (h.step hfirst hstep) hfits hrest

/-- The columns of this agent are in the table. -/
def Database.IsCurrent (db : Database) : Prop :=
  ∃ table, db.vms = some table ∧
    ∀ column ∈ firstColumns ++ Version.current.added, column ∈ table.columns

omit h in
/-- No statement of this agent fails on a store that it has opened. -/
theorem Database.IsCurrent.step (h : db.IsCurrent) (hop : op.IsCurrent) :
    ∃ next, db.step op = some next ∧ next.IsCurrent := by
  obtain ⟨table, hvms, hcolumns⟩ := h
  have hall {columns} (h : ∀ column ∈ columns, column ∈ firstColumns ++ Version.current.added) :
      table.hasAll columns :=
    Table.hasAll_iff.mpr fun column hcolumn => hcolumns column (h column hcolumn)
  cases op with
  | «open» version subnet => exact hop.elim
  | insertRunning version info log process =>
    cases hop
    have hnames : (runningValues .current info log process).map (·.1) =
        [.vmAddress, .pid, .pidStart, .memMib, .vcpus, .startedAt, .log] ++
          Version.current.added := rfl
    obtain ⟨after, hafter⟩ : ∃ after, insertRunning .current table info log process = some after :=
      ⟨_, if_pos (hall (by rw [hnames]; decide))⟩
    refine ⟨⟨db.subnet, some after⟩, ?_, after, rfl, ?_⟩
    · rw [step, hvms, bind_some, hafter, map_some]
    · rw [Table.columns_insertOrReplace hafter]
      exact hcolumns
  | markEnded name ended =>
    have hnames : (endedValues ended).map (·.1) =
        [.vmAddress, .pid, .pidStart, .endedAt, .endReason] := rfl
    obtain ⟨after, hafter⟩ : ∃ after, markEnded table name ended = some after := by
      rw [markEnded, Table.update, if_pos (hall (by rw [hnames]; decide))]
      split
      · exact ⟨_, rfl⟩
      · exact ⟨_, rfl⟩
    refine ⟨⟨db.subnet, some after⟩, ?_, after, rfl, ?_⟩
    · rw [step, hvms, bind_some, hafter, map_some]
    · rw [Table.columns_update hafter]
      exact hcolumns
  | delete name =>
    refine ⟨⟨db.subnet, some (table.delete name)⟩, ?_, table.delete name, rfl, hcolumns⟩
    rw [step, hvms, map_some]

omit h in
theorem Database.IsCurrent.run {schedule} (h : db.IsCurrent)
    (hops : ∀ op ∈ schedule, op.IsCurrent) :
    ∃ next, run Database.step db schedule = some next ∧ next.IsCurrent := by
  induction schedule generalizing db with
  | nil => exact ⟨db, rfl, h⟩
  | cons op rest ih =>
    obtain ⟨hop, hops⟩ := forall_mem_cons.mp hops
    obtain ⟨middle, hstep, hmiddle⟩ := h.step hop
    obtain ⟨next, hrest, hnext⟩ := ih hmiddle hops
    exact ⟨next, run_cons_eq_some.mpr ⟨middle, hstep, hrest⟩, hnext⟩

/-- A store that this agent has opened loads its records, by name. -/
theorem Database.Holds.load (hcurrent : db.IsCurrent) :
    db.load = some (records.toList.map (·.2)) := by
  obtain ⟨table, hvms, hcolumns⟩ := hcurrent
  rw [Database.load, hvms, bind_some]
  exact (h.table hvms).reads.select (Table.hasAll_iff.mpr hcolumns)

/-- A record is about the VM of its name. -/
theorem Database.Holds.name {name} {vm : StoredVm}
    (hvm : records[name]? = some vm) : vm.info.name = name := by
  cases hvms : db.vms with
  | none =>
    rw [h.fresh hvms] at hvm
    simp at hvm
  | some table =>
    have hread := (h.table hvms).reads name
    rw [hvm, map_some] at hread
    obtain ⟨row, -, hrow⟩ := map_eq_some_iff.mp hread
    obtain ⟨fields, -, rfl⟩ := map_eq_some_iff.mp hrow
    rfl

end

/-- Whatever agents of any version have done with a database, this agent can open it for
the subnet it was made for, and no statement of its own fails from then on. Whatever it
does, `load` gives the records of the abstract store, one for each live name and in the
order of the names. -/
theorem store_is_map_of_records {before : List StoreOp} {db : Database}
    (hmade : run Database.step .empty before = some db) (hbefore : ∀ op ∈ before, op.Fits)
    {subnet : Str} (hsubnet : db.subnet = none ∨ db.subnet = some subnet)
    {ops : List StoreOp} (hops : ∀ op ∈ ops, op.IsCurrent ∧ op.Fits) :
    let records := ops.foldl Records.step (before.foldl Records.step ∅)
    ∃ opened after vms, db.open .current subnet = some (opened, .ok ()) ∧
      run Database.step opened ops = some after ∧ after.load = some vms ∧
      (vms.Pairwise fun a b => compare a.info.name b.info.name = .lt) ∧
      ∀ vm, vm ∈ vms ↔ records[vm.info.name]? = some vm := by
  intro records
  have hholds := Database.Holds.empty.run hbefore hmade
  obtain ⟨opened, result, table, hopen, hopened, hvms, hadded, hok⟩ := hholds.open .current subnet
  have hcurrent : opened.IsCurrent := by
    refine ⟨table, hvms, fun column hcolumn => ?_⟩
    rcases mem_append.mp hcolumn with hfirst | hrest
    · exact (hopened.table hvms).columns column hfirst
    · exact hadded column hrest
  obtain ⟨after, hrun, hafter⟩ := hcurrent.run fun op hop => (hops op hop).1
  have hrecords : after.Holds records := hopened.run (fun op hop => (hops op hop).2) hrun
  refine ⟨opened, after, records.toList.map (·.2), by rw [hopen, hok hsubnet], hrun,
    hrecords.load hafter, ?_, fun vm => ?_⟩
  · rw [pairwise_map]
    refine ExtTreeMap.ordered_keys_toList.imp_of_mem ?_
    intro first second hfirst hsecond hlt
    rw [hrecords.name (mem_items.mp hfirst),
      hrecords.name (mem_items.mp hsecond)]
    exact hlt
  · rw [List.mem_map]
    constructor
    · rintro ⟨⟨name, found⟩, hitem, rfl⟩
      have hfound := mem_items.mp hitem
      rw [hrecords.name hfound]
      exact hfound
    · intro hvm
      exact ⟨(vm.info.name, vm), mem_items.mpr hvm, rfl⟩

/-- A VM that an agent without routes has recorded. -/
def StoredVm.sample : StoredVm where
  info := ⟨"web", some 0x0A4D0002#32, 256, 1, 100, none, none⟩
  log := "/var/log/web.1.log"
  process := some ⟨4242, 7⟩

/-- It ends when this agent has taken the database over. -/
theorem store_of_older_agent :
    ∃ db opened after vms,
      run Database.step .empty
        [.open ⟨false, false, false⟩ "10.77.0.0/24",
          .insertRunning ⟨false, false, false⟩ StoredVm.sample.info StoredVm.sample.log
            ⟨4242, 7⟩] = some db ∧
      db.open .current "10.77.0.0/24" = some (opened, .ok ()) ∧
      run Database.step opened [.markEnded "web" ⟨200, .exited⟩] = some after ∧
      after.load = some vms ∧ StoredVm.sample.markEnded ⟨200, .exited⟩ ∈ vms := by
  let older : List StoreOp := [.open ⟨false, false, false⟩ "10.77.0.0/24",
    .insertRunning ⟨false, false, false⟩ StoredVm.sample.info StoredVm.sample.log ⟨4242, 7⟩]
  have hmade : run Database.step .empty older = some _ := rfl
  have hfits : StoredVm.sample.info.Fits :=
    ⟨by decide, by decide, by decide, fun route hroute => by cases hroute⟩
  have hops : ∀ op ∈ [StoreOp.markEnded "web" ⟨200, .exited⟩],
      op.IsCurrent ∧ op.Fits :=
    forall_mem_singleton.mpr ⟨True.intro, show 200 < 2 ^ 63 by decide⟩
  obtain ⟨opened, after, vms, hopen, hrun, hload, -, hvms⟩ :=
    store_is_map_of_records hmade
      (forall_mem_cons.mpr ⟨True.intro,
        forall_mem_singleton.mpr ⟨hfits, by decide, by decide⟩⟩)
      (.inr rfl) hops
  refine ⟨_, opened, after, vms, hmade, hopen, hrun, hload, (hvms _).mpr ?_⟩
  decide +kernel

/-! ## The rows of the abstract store -/

variable (number : VmmProcess → ProcessId)

/-- A row of the abstract store, for a numbering of processes. -/
def StoredVm.row (vm : StoredVm) : Row :=
  ⟨vm.info.vmAddress, vm.process.map number, vm.info.memMib, vm.info.vcpus, vm.info.startedAt,
    vm.info.ended, vm.log, vm.info.route⟩

def StoredVm.record (vm : StoredVm) : Record :=
  ⟨vm.info, vm.log, vm.process.map number⟩

def Records.rows (records : Records) : Rows :=
  records.map fun _ vm => vm.row number

/-- What an operation does to the rows. -/
def Rows.step (rows : Rows) : StoreOp → Rows
  | .open _ _ => rows
  | .insertRunning _ info log process => rows.insertRunning info log (number process)
  | .markEnded name ended => rows.markEnded name ended
  | .delete name => rows.delete name

section

variable {number : VmmProcess → ProcessId} {records : Records} {db : Database} {op : StoreOp}
  {ops : List StoreOp}

theorem Version.keeps_current (route : Option Route) : current.keeps route = route := by
  cases route <;> rfl

theorem Records.rows_step (hop : op.IsCurrent) :
    (records.step op).rows number = (records.rows number).step number op := by
  apply ExtTreeMap.ext_getElem?
  intro other
  cases op with
  | «open» => exact hop.elim
  | insertRunning version info log process =>
    cases hop
    simp only [rows, step, Rows.step, Rows.insertRunning, ExtTreeMap.getElem?_map,
      lookup_insert]
    split
    · simp [StoredVm.running, StoredVm.row, runningRow, Version.keeps_current]
    · rfl
  | markEnded name ended =>
    simp only [rows, step, Rows.step, ExtTreeMap.getElem?_map, lookup_markEnded,
      ExtTreeMap.getElem?_modify, Std.LawfulEqCmp.compare_eq_iff_eq, eq_comm (a := other)]
    split
    · rename_i heq
      rw [Option.map_map, Option.map_map, heq]
      rfl
    · rfl
  | delete name =>
    simp only [rows, step, Rows.step, Rows.delete, ExtTreeMap.getElem?_map,
      lookup_erase]
    split <;> rfl

theorem Records.rows_foldl (hops : ∀ op ∈ ops, op.IsCurrent) :
    (ops.foldl step records).rows number =
      ops.foldl (Rows.step number) (records.rows number) := by
  induction ops generalizing records with
  | nil => rfl
  | cons op ops ih =>
    obtain ⟨hop, hops⟩ := forall_mem_cons.mp hops
    rw [foldl_cons, foldl_cons, ih hops, rows_step hop]

/-- What the database loads is what the abstract store loads. -/
theorem Database.Holds.load_rows (h : db.Holds records) (hcurrent : db.IsCurrent) :
    db.load.map (List.map (StoredVm.record number)) = some (records.rows number).load := by
  rw [h.load hcurrent, map_some, Option.some.injEq, List.map_map, Rows.load, Records.rows,
    ExtTreeMap.toList_map, List.map_map]
  apply map_congr_left
  intro item hitem
  have hname := h.name (mem_items.mp hitem)
  simp only [Function.comp_apply, StoredVm.record, Row.record, StoredVm.row, ← hname]

/-- Whatever this agent does with a new database, it loads what the abstract store does. -/
theorem database_refines_rows (number : VmmProcess → ProcessId) (subnet : Str)
    (hops : ∀ op ∈ ops, op.IsCurrent ∧ op.Fits) :
    ∃ opened after, Database.empty.open .current subnet = some (opened, .ok ()) ∧
      run Database.step opened ops = some after ∧
      after.load.map (List.map (StoredVm.record number)) =
        some (ops.foldl (Rows.step number) ∅).load := by
  obtain ⟨opened, result, table, hopen, hholds, -⟩ := Database.Holds.empty.open .current subnet
  have hopened : result = .ok () ∧ opened.IsCurrent := by
    cases hopen
    exact ⟨rfl, _, rfl, fun _ hcolumn => hcolumn⟩
  obtain ⟨rfl, hcurrent⟩ := hopened
  obtain ⟨after, hrun, hafter⟩ := hcurrent.run fun op hop => (hops op hop).1
  have hrows : (ops.foldl Records.step ∅).rows number = ops.foldl (Rows.step number) ∅ :=
    Records.rows_foldl fun op hop => (hops op hop).1
  refine ⟨opened, after, hopen, hrun, ?_⟩
  rw [(hholds.run (fun op hop => (hops op hop).2) hrun).load_rows hafter, hrows]

/-- A VM starts and ends. -/
def sampleOps : List StoreOp :=
  [.insertRunning .current StoredVm.sample.info [] ⟨4242, 7⟩,
    .markEnded "web" ⟨200, .exited⟩]

theorem sampleOps_refined :
    ∃ opened after, Database.empty.open .current [] = some (opened, .ok ()) ∧
      run Database.step opened sampleOps = some after ∧
      after.load.map (List.map (StoredVm.record VmmProcess.pid)) =
        some (sampleOps.foldl (Rows.step VmmProcess.pid) ∅).load := by
  have hfits : StoredVm.sample.info.Fits :=
    ⟨by decide, by decide, by decide, fun route hroute => by cases hroute⟩
  exact database_refines_rows _ _ (forall_mem_cons.mpr ⟨⟨rfl, hfits, by decide, by decide⟩,
    forall_mem_singleton.mpr ⟨True.intro, show 200 < 2 ^ 63 by decide⟩⟩)

end

end Cirrocumulus.Node
