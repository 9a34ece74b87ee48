/-
# Console logs

Each start of a VM writes its console to a file of its own in `logs_dir`, with a number in
its name that the agent draws from a counter. The counter begins, in every agent, one past
the highest number that a file carries. A wake goes on writing to the parked VM's log. A
failed start removes its log, a start that is recorded removes the log of the VM whose name
it reuses, and `rm` removes that of the history it forgets. An agent that starts removes the
logs that no record names.

A logbook is a Node with the files in `logs_dir`. A file has a stamp, which is new whenever
the file is created or truncated. All paths to a log lead into the one directory, so a log
is known by its file name.
-/

import Cirrocumulus.Node.System

namespace Cirrocumulus.Node

open Std (ExtTreeMap)

/-! ## File names -/

/-- `new_log_path`, for the number that was drawn. -/
def logPath (name : Str) (n : Nat) : Str := name ++ '.' :: (Nat.repr n).toList ++ ".log"

/-- The number that a log file carries. -/
def logNumber (file : Str) : Option Nat := do
  let stem ← stripSuffix ".log" file
  let (_, number) ← rsplitOnce '.' stem
  (parseUnsigned 64 number).toOption

/-- `next_log_number`, from the files that reading the directory gave. When it can't be
read, there are none. -/
def nextLogNumber (seen : List Str) : Nat :=
  ((seen.filterMap logNumber).max?.map fun highest => (highest + 1) % 2 ^ 64).getD 0

/-! ## The Node with its logs -/

structure Logbook where
  node : System
  /-- The files in `logs_dir`, each with its stamp. -/
  files : ExtTreeMap Str Nat compare
  stamp : Nat
  /-- `next_log`. -/
  next : Nat
  /-- The paths that requests have drawn, and for which names. -/
  drawn : List (Str × Str)
  /-- The logs that the agent's start has yet to remove. -/
  sweeping : List Str
  /-- The logs that failed starts have yet to remove. -/
  forgetting : List Str

inductive LogEvent
  /-- An agent starts. It reads the directory for its counter, and again for the logs that
  no record names; either reading may miss files. -/
  | boot (seen swept : List Str)
  /-- The agent's start looks at the next log to remove. -/
  | sweep (outcome : Outcome)
  /-- A request to run a VM draws its log's path, before it meets the table. -/
  | draw (name : Str)
  /-- A failed start, which the table has forgotten, removes its log. -/
  | forget (log : Str) (outcome : Outcome)
  /-- A step of the Node. A launch may fail to spawn jailer after it has `opened` its log. -/
  | node (event : NodeEvent) (opened : Bool)

namespace Logbook

def fresh : Logbook := ⟨.fresh, ∅, 0, 0, [], [], []⟩

variable (book : Logbook)

/-- A start creates its log, or truncates what is there. -/
def create (log : Str) : Logbook :=
  { book with files := book.files.insert log book.stamp, stamp := book.stamp + 1 }

/-- A wake appends to its log, and creates it if it is not there. -/
def append (log : Str) : Logbook := if book.files.contains log then book else book.create log

/-- `remove_file`, whose errors are ignored. -/
def remove (log : Str) (outcome : Outcome) : Logbook :=
  if outcome = .failed then book else { book with files := book.files.erase log }

/-- What the effect of a launch does to logs. -/
def launched (launch : Launch) (pc : LaunchPc) (outcome : Outcome) (opened : Bool) : Logbook :=
  match pc, launch.kind with
  | .spawnJailer, .start _ =>
    if outcome ≠ .failed ∨ opened then book.create launch.log else book
  | .spawnJailer, .wake _ =>
    if outcome ≠ .failed ∨ opened then book.append launch.log else book
  | .tidy _, .start (some old) => book.remove old.log outcome
  | .giveUp, .start _ => { book with forgetting := launch.log :: book.forgetting }
  | _, _ => book

/-- What a step of an agent at work does to logs. -/
def after (up : AgentProcess) (event : NodeEvent) (opened : Bool) : Logbook :=
  match event with
  | .runVm run log => { book with drawn := book.drawn.filter (· ≠ (run.name, log)) }
  | .launch task outcome _ =>
    match up.agent.launches[task]?, up.launching[task]? with
    | some launch, some (pc, _) => book.launched launch pc outcome opened
    | _, _ => book
  | .removeStep outcome =>
    match up.removing with
    | some (name, .erase) => (up.agent.vms[name]?.map fun entry =>
      book.remove entry.log outcome).getD book
    | _ => book
  | _ => book

/-- An agent that starts removes the unrecorded logs before all else, and a request to run
a VM has drawn its path. -/
def allows : NodeEvent → Bool
  | .boot => false
  | .crash | .vmmEnds _ _ => true
  | .runVm run log => book.sweeping.isEmpty && book.drawn.contains (run.name, log)
  | _ => book.sweeping.isEmpty

/-- The Node's part of a step. What tasks had in hand goes with their agent. -/
def settle (node : System) : Logbook :=
  if node.up.isSome then { book with node }
  else { book with node, drawn := [], sweeping := [], forgetting := [] }

/-- An agent that starts counts on from the logs it sees, and has those to sweep that no row
names. -/
def boot (seen swept : List Str) (node : System) : Logbook :=
  { book with
    node
    next := nextLogNumber seen
    drawn := []
    sweeping := swept.filter fun file =>
      !book.node.host.rows.load.any fun record => record.log == file
    forgetting := [] }

def draw (name : Str) : Logbook :=
  { book with
    next := (book.next + 1) % 2 ^ 64
    drawn := (name, logPath name book.next) :: book.drawn }

end Logbook

def Logbook.step (subnet : Subnet) (book : Logbook) : LogEvent → Option Logbook
  | .boot seen swept =>
    if seen.all book.files.contains && swept.all book.files.contains then
      (book.node.step subnet .boot).map (book.boot seen swept)
    else none
  | .sweep outcome =>
    match book.sweeping with
    | log :: sweeping => some { book.remove log outcome with sweeping }
    | [] => none
  | .draw name =>
    if book.node.up.any AgentProcess.isReady then some (book.draw name) else none
  | .forget log outcome =>
    if log ∈ book.forgetting then
      some { book.remove log outcome with forgetting := book.forgetting.filter (· ≠ log) }
    else none
  | .node event opened =>
    if book.allows event then
      (book.node.step subnet event).map
        (book.node.up.elim book (book.after · event opened)).settle
    else none

end Cirrocumulus.Node
