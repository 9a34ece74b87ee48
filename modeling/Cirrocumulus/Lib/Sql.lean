/-
# Tables with a primary key

An SQL table with a text primary key: the columns it has beside the key, and a row of
values under each key. A statement that names a column the table lacks fails and changes
nothing. `INSERT OR REPLACE` leaves the columns it does not name null, whatever the row it
replaces had in them; `UPDATE` leaves them as they are; a column that is added is null in
every row.

A table is meant to hold records. `Reads` says that a function of rows reads a given map
of records out of the table, row by row, and each statement is stated by what it does to
that map.
-/

import Cirrocumulus.Lib.Maps

namespace Cirrocumulus.Lib.Sql

open List Option
open Std (ExtTreeMap)

universe u v

inductive Value
  | null
  | integer (n : Int)
  | text (s : List Char)
  deriving DecidableEq

namespace Value

/-- A value that may be missing. -/
def ofOption {α : Type u} (write : α → Value) : Option α → Value
  | some a => write a
  | none => .null

/-- Read a text. -/
def text? : Value → Option (List Char)
  | .text s => some s
  | _ => none

/-- Read a signed integer. -/
def int? : Value → Option Int
  | .integer n => some n
  | _ => none

/-- Read an unsigned integer below a bound. -/
def nat? (bound : Nat) : Value → Option Nat
  | .integer n => if 0 ≤ n ∧ n < bound then some n.toNat else none
  | _ => none

/-- Read what may be null. -/
def optional {α : Type u} (read : Value → Option α) : Value → Option (Option α)
  | .null => some none
  | value => (read value).map some

theorem nat?_integer {bound n : Nat} (h : n < bound) : (integer n).nat? bound = some n := by
  simp [nat?, h]

@[simp]
theorem optional_null {α} (read : Value → Option α) :
    null.optional read = some none := rfl

theorem optional_integer {α} (read : Value → Option α) (n : Int) :
    (integer n).optional read = (read (.integer n)).map some := rfl

/-- What is written is read back. -/
theorem optional_ofOption {α : Type u} {write : α → Value} {read : Value → Option α}
    {option : Option α} (hread : ∀ a ∈ option, write a ≠ .null ∧ read (write a) = some a) :
    (ofOption write option).optional read = some option := by
  cases option with
  | none => rfl
  | some a =>
    obtain ⟨hne, hread⟩ := hread a rfl
    rw [ofOption]
    cases hvalue : write a with
    | null => exact absurd hvalue hne
    | integer | text =>
      rw [hvalue] at hread
      rw [optional, hread, map_some]
      exact fun h => by cases h

end Value

variable {γ : Type u} [DecidableEq γ] {β : Type v}

/-- A row with some of its columns set, the first in the list first. -/
def assign (row : γ → Value) : List (γ × Value) → γ → Value
  | [], column => row column
  | (target, value) :: rest, column => if column = target then value else assign row rest column

structure Table (γ : Type u) where
  columns : List γ
  rows : ExtTreeMap (List Char) (γ → Value) compare

namespace Table

variable (table : Table γ)

/-- The table has every column that a statement names. -/
def hasAll (columns : List γ) : Bool := columns.all fun column => table.columns.contains column

/-- `INSERT OR REPLACE INTO table (key, ...) VALUES (...)`. -/
def insertOrReplace (key : List Char) (values : List (γ × Value)) : Option (Table γ) :=
  if table.hasAll (values.map (·.1)) then
    some { table with rows := table.rows.insert key (assign (fun _ => .null) values) }
  else none

/-- `UPDATE table SET ... WHERE key = ...`. -/
def update (key : List Char) (values : List (γ × Value)) : Option (Table γ) :=
  if table.hasAll (values.map (·.1)) then
    match table.rows[key]? with
    | some row => some { table with rows := table.rows.insert key (assign row values) }
    | none => some table
  else none

/-- `DELETE FROM table WHERE key = ...`. -/
def delete (key : List Char) : Table γ := { table with rows := table.rows.erase key }

/-- `ALTER TABLE table ADD COLUMN column`. -/
def addColumn (column : γ) : Option (Table γ) :=
  if table.columns.contains column then none
  else some
    { columns := table.columns ++ [column]
      rows := table.rows.map fun _ row => assign row [(column, .null)] }

/-- `SELECT ... FROM table ORDER BY key`, with each row read by a function that may fail. -/
def select (columns : List γ) (read : List Char → (γ → Value) → Option β) : Option (List β) :=
  if table.hasAll columns then table.rows.toList.mapM fun item => read item.1 item.2 else none

/-- A row has no values but in the table's columns. -/
def Tidy : Prop :=
  ∀ {key : List Char} {row : γ → Value}, table.rows[key]? = some row →
    ∀ column ∉ table.columns, row column = .null

/-- The rows of the table are read as the records of a map, under the same keys. -/
def Reads (read : List Char → (γ → Value) → Option β)
    (records : ExtTreeMap (List Char) β compare) : Prop :=
  ∀ key : List Char, table.rows[key]?.map (read key) = records[key]?.map some

end Table

/-! ## What the statements do -/

section

variable {table next : Table γ} {read : List Char → (γ → Value) → Option β}
  {records : ExtTreeMap (List Char) β compare} {key : List Char} {values : List (γ × Value)}

theorem assign_of_not_mem {row column} (h : column ∉ values.map (·.1)) :
    assign row values column = row column := by
  induction values with
  | nil => rfl
  | cons item rest ih =>
    rw [map_cons, mem_cons, not_or] at h
    rw [assign, if_neg h.1]
    exact ih h.2

theorem Table.hasAll_iff {columns} :
    table.hasAll columns ↔ ∀ column ∈ columns, column ∈ table.columns := by
  simp [hasAll]

section

omit [DecidableEq γ]

theorem Table.Reads.empty (columns : List γ) : Table.Reads (⟨columns, ∅⟩ : Table γ) read ∅ := by
  intro key
  simp

theorem Table.Reads.put (h : table.Reads read records) {row record}
    (hread : read key row = some record) :
    Table.Reads { table with rows := table.rows.insert key row } read
      (records.insert key record) := by
  intro other
  simp only [lookup_insert]
  by_cases heq : other = key
  · rw [if_pos heq, if_pos heq, heq, map_some, map_some, hread]
  · rw [if_neg heq, if_neg heq]
    exact h other

theorem Table.Reads.delete (h : table.Reads read records) :
    (table.delete key).Reads read (records.erase key) := by
  intro other
  simp only [Table.delete, lookup_erase]
  by_cases heq : other = key
  · rw [if_pos heq, if_pos heq, map_none, map_none]
  · rw [if_neg heq, if_neg heq]
    exact h other

end

/-- An insertion puts one record in the place of whatever was there. -/
theorem Table.Reads.insertOrReplace (h : table.Reads read records) {record}
    (hread : read key (assign (fun _ => .null) values) = some record)
    (hnext : table.insertOrReplace key values = some next) :
    next.Reads read (records.insert key record) := by
  obtain ⟨-, rfl⟩ := ite_some_none_eq_some.mp hnext
  exact h.put hread

/-- An update changes the record it meets, if it meets one. -/
theorem Table.Reads.update (h : table.Reads read records) {change}
    (hread : ∀ {row record}, read key row = some record →
      read key (assign row values) = some (change record))
    (hnext : table.update key values = some next) :
    next.Reads read (records.modify key change) := by
  obtain ⟨-, hs⟩ := ite_none_right_eq_some.mp hnext
  have hkey := h key
  intro other
  rw [ExtTreeMap.getElem?_modify]
  cases hrow : table.rows[key]? with
  | none =>
    rw [hrow, map_none] at hkey
    rw [hrow] at hs
    cases hs
    have hnone : records[key]? = none := map_eq_none_iff.mp hkey.symm
    by_cases heq : key = other
    · rw [← heq, hrow, hnone, if_pos (by simp)]
      rfl
    · rw [if_neg (by simpa using heq)]
      exact h other
  | some row =>
    rw [hrow, map_some] at hkey
    rw [hrow] at hs
    cases hs
    obtain ⟨record, hrecord, hold⟩ := map_eq_some_iff.mp hkey.symm
    dsimp only
    by_cases heq : key = other
    · rw [← heq, lookup_insert, if_pos rfl, if_pos (by simp), hrecord, map_some,
        hread hold.symm]
      rfl
    · rw [lookup_insert_of_ne _ (Ne.symm heq), if_neg (by simpa using heq)]
      exact h other

/-- A column that is added was null before as well. -/
theorem Table.rows_addColumn (htidy : table.Tidy) {column}
    (hnext : table.addColumn column = some next) :
    next.rows = table.rows ∧ next.columns = table.columns ++ [column] ∧ column ∉ table.columns := by
  obtain ⟨hnew, hs⟩ := ite_none_left_eq_some.mp hnext
  cases hs
  rw [contains_iff_mem] at hnew
  refine ⟨ExtTreeMap.ext_getElem? fun key => ?_, rfl, hnew⟩
  rw [ExtTreeMap.getElem?_map]
  cases hrow : table.rows[key]? with
  | none => rfl
  | some row =>
    rw [map_some, Option.some.injEq]
    funext other
    rw [assign]
    split
    · rename_i heq
      rw [heq, htidy hrow column hnew]
    · rfl

/-- Columns that the table lacks can all be added, and no row changes. -/
theorem Table.exists_addColumns {columns} (hnodup : columns.Nodup)
    (hnew : ∀ column ∈ columns, column ∉ table.columns) (htidy : table.Tidy) :
    ∃ next, columns.foldlM addColumn table = some next ∧ next.rows = table.rows ∧
      next.columns = table.columns ++ columns := by
  induction columns generalizing table with
  | nil => exact ⟨table, rfl, rfl, (append_nil _).symm⟩
  | cons column rest ih =>
    obtain ⟨hfirst, hrest⟩ := nodup_cons.mp hnodup
    have hcontains : ¬ table.columns.contains column := by
      rw [contains_iff_mem]
      exact hnew column mem_cons_self
    obtain ⟨middle, hmiddle⟩ : ∃ middle, table.addColumn column = some middle :=
      ⟨_, if_neg hcontains⟩
    obtain ⟨hrows, hcolumns, -⟩ := rows_addColumn htidy hmiddle
    have hmiddleTidy : middle.Tidy := by
      intro key row hrow other hother
      rw [hrows] at hrow
      rw [hcolumns, mem_append, not_or] at hother
      exact htidy hrow other hother.1
    obtain ⟨next, hnext, hnextRows, hnextColumns⟩ := ih hrest (by
      intro other hother
      rw [hcolumns, mem_append, mem_singleton, not_or]
      refine ⟨hnew other (mem_cons_of_mem _ hother), ?_⟩
      rintro rfl
      exact hfirst hother) hmiddleTidy
    refine ⟨next, ?_, hnextRows.trans hrows, ?_⟩
    · rw [foldlM_cons, hmiddle]
      exact hnext
    · rw [hnextColumns, hcolumns, append_assoc, singleton_append]

theorem Table.tidy_insertOrReplace (h : table.Tidy)
    (hnext : table.insertOrReplace key values = some next) : next.Tidy := by
  obtain ⟨hall, rfl⟩ := ite_some_none_eq_some.mp hnext
  intro other row hrow
  refine forall_insert (motive := fun _ row => ∀ column ∉ table.columns, row column = .null)
    ?_ h hrow
  intro column hcolumn
  apply assign_of_not_mem
  exact fun hmem => hcolumn (hasAll_iff.mp hall column hmem)

theorem Table.tidy_update (h : table.Tidy) (hnext : table.update key values = some next) :
    next.Tidy := by
  obtain ⟨hall, hs⟩ := ite_none_right_eq_some.mp hnext
  cases hrow : table.rows[key]? with
  | none =>
    rw [hrow] at hs
    cases hs
    exact h
  | some row =>
    rw [hrow] at hs
    cases hs
    intro other found hfound
    refine forall_insert (motive := fun _ row => ∀ column ∉ table.columns, row column = .null)
      ?_ h hfound
    intro column hcolumn
    rw [assign_of_not_mem fun hmem => hcolumn (hasAll_iff.mp hall column hmem)]
    exact h hrow column hcolumn

theorem Table.columns_insertOrReplace (hnext : table.insertOrReplace key values = some next) :
    next.columns = table.columns := by
  obtain ⟨-, rfl⟩ := ite_some_none_eq_some.mp hnext
  rfl

theorem Table.columns_update (hnext : table.update key values = some next) :
    next.columns = table.columns := by
  obtain ⟨-, hs⟩ := ite_none_right_eq_some.mp hnext
  cases hrow : table.rows[key]? with
  | none | some =>
    rw [hrow] at hs
    cases hs
    rfl

/-- Every row is read, in the order of the keys. -/
theorem Table.Reads.select (h : table.Reads read records) {columns}
    (hcolumns : table.hasAll columns) :
    table.select columns read = some (records.toList.map (·.2)) := by
  have hmaps : table.rows.map read = records.map fun _ record => some record := by
    apply ExtTreeMap.ext_getElem?
    intro key
    rw [ExtTreeMap.getElem?_map, ExtTreeMap.getElem?_map]
    exact h key
  have hlists := congrArg (fun map => map.toList.map (·.2)) hmaps
  simp only [ExtTreeMap.toList_map, List.map_map, Function.comp_def] at hlists
  rw [Table.select, if_pos hcolumns]
  calc table.rows.toList.mapM (fun item => read item.1 item.2)
      = (table.rows.toList.map fun item => read item.1 item.2).mapM id := by
        rw [mapM_map]
        rfl
    _ = (records.toList.map fun item => some item.2).mapM id := by rw [hlists]
    _ = records.toList.mapM fun item => pure item.2 := by
        rw [mapM_map]
        rfl
    _ = some (records.toList.map (·.2)) := mapM_pure

end

end Cirrocumulus.Lib.Sql
