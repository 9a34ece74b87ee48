/-
# Telling a VMM by its process

A pid is used again once its process is gone, so a VMM is known by its pid and its start
time together, and the start time is read from a line whose second field is the command
name. A process chooses that name: it may have spaces, newlines and parentheses, and look
like the fields that follow it. They hold no parenthesis, so the last one closes the name.
-/

import Cirrocumulus.Lib.Text

namespace Cirrocumulus.Node.Proc

open List Option

variable {read : Str → Option Str} {pid : Nat}

/-- `/proc/<pid>/stat`. -/
def statPath (pid : Nat) : Str := "/proc/" ++ (Nat.repr pid).toList ++ "/stat"

/-- `proc_stat`, with what `read_to_string` gives for a path. -/
def procStat (read : Str → Option Str) (pid : Nat) : Option (Char × Nat) := do
  let stat ← read (statPath pid)
  let (_, behind) ← rsplitOnce ')' stat
  match splitWhitespace behind with
  | [] => none
  | first :: rest => do
    let state ← first.head?
    -- `state` is field 3 and the start time field 22
    let startTime ← rest[18]?.bind fun field => (parseUnsigned 64 field).toOption
    return (state, startTime)

/-- `ProcessId`. -/
structure ProcessId where
  pid : Nat
  startTime : Nat
  deriving DecidableEq

/-- `ProcessId::of`. -/
def ProcessId.of (read : Str → Option Str) (pid : Nat) : Option ProcessId :=
  (procStat read pid).map fun stat => ⟨pid, stat.2⟩

/-- `ProcessId::is_running`. -/
def ProcessId.isRunning (read : Str → Option Str) (id : ProcessId) : Bool :=
  (procStat read id.pid).any fun stat => stat.1 != 'Z' && stat.2 == id.startTime

/-! ## What the kernel writes -/

/-- One of the fields behind the command name. -/
def IsField (field : Str) : Prop := field ≠ [] ∧ ∀ c ∈ field, isWhitespace c = false ∧ c ≠ ')'

/-- A process, by the fields of its line. -/
structure Stat where
  /-- Any text at all. -/
  comm : Str
  state : Char
  /-- Fields 4 to 21. -/
  between : List Str
  startTime : Nat
  /-- The fields from 23 on. -/
  later : List Str
  isField : ∀ field ∈ [state] :: between ++ later, IsField field
  between_length : between.length = 18
  startTime_lt : startTime < 2 ^ 64

/-- The fields behind the command name. -/
def Stat.fields (stat : Stat) : List Str :=
  [stat.state] :: stat.between ++ (Nat.repr stat.startTime).toList :: stat.later

/-- `pid (comm) state f4 ... f22 ...`. -/
def Stat.line (stat : Stat) (pid : Nat) : Str :=
  (Nat.repr pid).toList ++ " (" ++ stat.comm ++
    ')' :: (stat.fields.flatMap (' ' :: ·) ++ ['\n'])

theorem isField_repr (n : Nat) : IsField (Nat.repr n).toList := by
  refine ⟨by simp [Nat.toList_repr, Nat.toDigits_ne_nil], fun c hc => ?_⟩
  have hdigit := isDigit_of_mem_repr hc
  refine ⟨not_isWhitespace_of_isDigit hdigit, ?_⟩
  rintro rfl
  cases hdigit

theorem Stat.isField_of_mem (stat : Stat) : ∀ field ∈ stat.fields, IsField field := by
  intro field hfield
  rcases mem_append.mp hfield with hfirst | hlater
  · exact stat.isField field (mem_append_left _ hfirst)
  · rcases mem_cons.mp hlater with rfl | hlater
    · exact isField_repr stat.startTime
    · exact stat.isField field (mem_append_right _ hlater)

/-- The last parenthesis closes the command name. -/
theorem Stat.not_mem_fields (stat : Stat) : ')' ∉ stat.fields.flatMap (' ' :: ·) ++ ['\n'] := by
  intro hmem
  rcases mem_append.mp hmem with hfields | hend
  · obtain ⟨field, hfield, hmem⟩ := mem_flatMap.mp hfields
    rcases mem_cons.mp hmem with hspace | hmem
    · cases hspace
    · exact ((stat.isField_of_mem field hfield).2 ')' hmem).2 rfl
  · simp at hend

theorem procStat_line {stat : Stat} (h : read (statPath pid) = some (stat.line pid)) :
    procStat read pid = some (stat.state, stat.startTime) := by
  have hcut : rsplitOnce ')' (stat.line pid) = some (_, _) :=
    rsplitOnce_append _ stat.not_mem_fields
  have hsplit : splitWhitespace (stat.fields.flatMap (' ' :: ·) ++ ['\n']) = stat.fields := by
    refine splitWhitespace_words fun field hfield => ?_
    obtain ⟨hne, hchars⟩ := stat.isField_of_mem field hfield
    exact ⟨hne, fun c hc => (hchars c hc).1⟩
  have hstart : (stat.between ++ (Nat.repr stat.startTime).toList :: stat.later)[18]? =
      some (Nat.repr stat.startTime).toList := by
    rw [← stat.between_length]
    simp
  simp only [procStat, h, bind, bind_some, hcut, hsplit]
  simp only [Stat.fields, cons_append, head?_cons, bind_some, hstart,
    parseUnsigned_repr stat.startTime_lt, Except.toOption]
  rfl

/-- Whatever the process at a pid calls itself, its state and its start time are read from its
line, and a `ProcessId` is running just when the process at its pid has its start time and
is no zombie. -/
theorem process_identified (read : Str → Option Str) (id : ProcessId) (process : Option Stat)
    (hread : read (statPath id.pid) = process.map (·.line id.pid)) :
    procStat read id.pid = process.map (fun stat => (stat.state, stat.startTime)) ∧
    ProcessId.of read id.pid = process.map (fun stat => ⟨id.pid, stat.startTime⟩) ∧
    (id.isRunning read = true ↔
      ∃ stat, process = some stat ∧ stat.startTime = id.startTime ∧ stat.state ≠ 'Z') := by
  have hstat : procStat read id.pid = process.map fun stat => (stat.state, stat.startTime) := by
    cases process with
    | none => rw [procStat, hread]; rfl
    | some stat => exact procStat_line hread
  refine ⟨hstat, ?_, ?_⟩
  · rw [ProcessId.of, hstat, Option.map_map]
    rfl
  · rw [ProcessId.isRunning, hstat]
    cases process with
    | none => simp
    | some stat => simp [and_comm]

/-- A process that calls itself what could be a zombie's fields. -/
def Stat.disguised : Stat where
  comm := "fc) Z 1 (\n"
  state := 'S'
  between := List.replicate 18 "0"
  startTime := 4711
  later := ["8"]
  isField := by simp [IsField, isWhitespace]
  between_length := rfl
  startTime_lt := by decide

/-- The theorem applies: the name does not hide that the process runs. -/
theorem disguised_process_runs :
    (⟨7, 4711⟩ : ProcessId).isRunning (fun _ => some (Stat.disguised.line 7)) = true :=
  (process_identified _ ⟨7, 4711⟩ (some Stat.disguised) rfl).2.2.mpr
    ⟨Stat.disguised, rfl, rfl, by decide⟩

end Cirrocumulus.Node.Proc
