/-
# The state database

One row for each VM's name, which is the table's primary key. A row of a VM that
runs names its VM address and its VMM's process, and a row of an Ended VM names
when and why it ended. Each statement is committed before it returns, so a row is
what the last statement that succeeded made of it.
-/

import Cirrocumulus.Node.Registry

namespace Cirrocumulus.Node

open Std (ExtTreeMap)

/-- A VMM's pid together with its start time, which no two processes share. Pairs are
numbered in the order they come into being. -/
abbrev ProcessId := Nat

/-- A row of the table `vms`, without its key. -/
structure Row where
  vmAddress : Option Ipv4Addr
  process : Option ProcessId
  memMib : Nat
  vcpus : Nat
  startedAt : Nat
  ended : Option Ended
  log : Str
  route : Option Route
  deriving DecidableEq

/-- A record as `load` gives it. -/
structure Record where
  info : VmInfo
  log : Str
  process : Option ProcessId
  deriving DecidableEq

/-- The table `vms`, by name. -/
abbrev Rows := ExtTreeMap Str Row compare

def Row.record (name : Str) (row : Row) : Record where
  info := ⟨name, row.vmAddress, row.memMib, row.vcpus, row.startedAt, row.ended, row.route⟩
  log := row.log
  process := row.process

variable (rows : Rows)

/-- `Store::load`: every record, by name. -/
def Rows.load : List Record := rows.toList.map fun item => item.2.record item.1

/-- The row `insert_running` writes. It leaves the end's columns out, so they are
null. -/
def runningRow (info : VmInfo) (log : Str) (process : ProcessId) : Row :=
  ⟨info.vmAddress, some process, info.memMib, info.vcpus, info.startedAt, none, log, info.route⟩

/-- `Store::insert_running`: it replaces any row under the name. -/
def Rows.insertRunning (info : VmInfo) (log : Str) (process : ProcessId) : Rows :=
  rows.insert info.name (runningRow info log process)

/-- The row `mark_ended` leaves. -/
def Row.markEnded (row : Row) (ended : Ended) : Row :=
  { row with vmAddress := none, process := none, ended := some ended }

/-- `Store::mark_ended`: it updates the name's row, if there is one. -/
def Rows.markEnded (name : Str) (ended : Ended) : Rows :=
  match rows[name]? with
  | some row => rows.insert name (row.markEnded ended)
  | none => rows

/-- `Store::delete`. -/
def Rows.delete (name : Str) : Rows := rows.erase name

theorem mem_load {rows : Rows} {record} :
    record ∈ rows.load ↔
      ∃ row, rows[record.info.name]? = some row ∧ row.record record.info.name = record := by
  simp only [Rows.load, List.mem_map, Prod.exists, Lib.mem_items]
  constructor
  · rintro ⟨name, row, hrow, rfl⟩
    exact ⟨row, hrow, rfl⟩
  · rintro ⟨row, hrow, heq⟩
    exact ⟨_, row, hrow, heq⟩

/-- No two records share a name, and they come in the names' order. -/
theorem nodup_load : (rows.load.map fun record => record.info.name).Nodup := by
  have hnames : (rows.load.map fun record => record.info.name) = rows.toList.map (·.1) := by
    simp [Rows.load, Row.record, Function.comp_def]
  rw [hnames, ExtTreeMap.map_fst_toList_eq_keys]
  exact ExtTreeMap.nodup_keys

@[simp]
theorem lookup_markEnded (name : Str) (ended : Ended) (other : Str) :
    (rows.markEnded name ended)[other]? =
      if other = name then rows[name]?.map (·.markEnded ended) else rows[other]? := by
  unfold Rows.markEnded
  split
  · rename_i row hrow
    rw [Lib.lookup_insert, hrow, Option.map_some]
  · rename_i hrow
    split
    · rename_i heq
      rw [heq, hrow, Option.map_none]
    · rfl

/-- What was recorded as running is read back as it was. -/
theorem record_runningRow {info} (hended : info.ended = none) (log : Str) (process : ProcessId) :
    (runningRow info log process).record info.name = ⟨info, log, some process⟩ := by
  simp [Row.record, runningRow, ← hended]

/-- A row's columns are in its record. -/
theorem Row.of_record {row : Row} {record} (h : row.record record.info.name = record) :
    row.ended = record.info.ended ∧ row.vmAddress = record.info.vmAddress ∧
      row.process = record.process ∧ row.log = record.log := by
  refine ⟨?_, ?_, ?_, ?_⟩ <;> rw [← h] <;> rfl

end Cirrocumulus.Node
