/-
# Console logs are only lost on purpose

A log belongs to the VM whose name is in its file name, and two logs of one name differ in
their numbers. So what must not happen is that a start draws a number which its name has in
use, and that is so as long as every agent sees all the files when it sets its counter, and
the counter does not wrap around. A recorded VM's log is then the same file for as long as
the row is there, and everything that is truncated or removed meanwhile is another.
-/

import Cirrocumulus.Node.LogFiles
import Cirrocumulus.Node.Places
import Cirrocumulus.Node.Records

namespace Cirrocumulus.Node

open Std (ExtTreeMap)
open Lib List Option

variable {n : Nat} {file : Str} {pc' : LaunchPc}

/-! ## File names -/

theorem dot_not_mem_repr (n : Nat) : '.' ∉ (Nat.repr n).toList := by
  intro h
  cases isDigit_of_mem_repr h

theorem rsplitOnce_stem (name : Str) (n : Nat) :
    rsplitOnce '.' (name ++ '.' :: (Nat.repr n).toList) = some (name, (Nat.repr n).toList) :=
  rsplitOnce_append name (dot_not_mem_repr n)

theorem logNumber_logPath (name : Str) (h : n < 2 ^ 64) : logNumber (logPath name n) = some n := by
  rw [logNumber, logPath, stripSuffix_append]
  simp only [bind_eq_bind, bind_some, rsplitOnce_stem, parseUnsigned_repr h]
  rfl

/-- A log's name says whose it is, and which of them. -/
theorem logPath_inj {name other m} (h : logPath name n = logPath other m) :
    name = other ∧ n = m := by
  have hstem := congrArg (rsplitOnce '.') (append_cancel_right h)
  rw [rsplitOnce_stem, rsplitOnce_stem] at hstem
  have hpair := Option.some.inj hstem
  have hdigits := congrArg (Nat.ofDigitChars 10 · 0) (congrArg Prod.snd hpair)
  exact ⟨congrArg Prod.fst hpair,
    by simpa [Nat.toList_repr, Nat.ofDigitChars_ten_toDigits] using hdigits⟩

/-- The counter begins past every number that was seen, while there is room. -/
theorem lt_nextLogNumber {seen} (hfile : file ∈ seen) (hnumber : logNumber file = some n)
    (hroom : ∀ file ∈ seen, ∀ n, logNumber file = some n → n + 1 < 2 ^ 64) :
    n < nextLogNumber seen := by
  have hmem : n ∈ seen.filterMap logNumber := mem_filterMap.mpr ⟨file, hfile, hnumber⟩
  unfold nextLogNumber
  cases hmax : (seen.filterMap logNumber).max? with
  | none =>
    rw [max?_eq_none_iff] at hmax
    rw [hmax] at hmem
    cases hmem
  | some highest =>
    obtain ⟨hhighest, hle⟩ := max?_eq_some_iff.mp hmax
    obtain ⟨other, hother, hnumber'⟩ := mem_filterMap.mp hhighest
    have hlt := hroom other hother highest hnumber'
    rw [map_some, getD_some, Nat.mod_eq_of_lt hlt]
    exact Nat.lt_succ_of_le (hle n hmem)

variable {subnet : Subnet} {up : AgentProcess} {node next : System}
  {event : NodeEvent} {name other log : Str} {s s' : Standing} {task : Nat}

/-! ## What is recorded of logs -/

/-- The name's row names this log. -/
def System.RecordsLog (node : System) (name log : Str) : Prop :=
  ∃ row, node.host.rows[name]? = some row ∧ row.log = log

/-- The name's row names the same log as before. -/
def System.SameLog (node next : System) (name : Str) : Prop :=
  ∀ log, next.RecordsLog name log ↔ node.RecordsLog name log

theorem System.SameLog.of_row (h : next.host.rows[name]? = node.host.rows[name]?) :
    node.SameLog next name := by
  intro log
  rw [RecordsLog, RecordsLog, h]

theorem System.SameLog.of_host (h : next.host = node.host) : node.SameLog next name :=
  .of_row (by rw [h])

/-- Marking a row as ended leaves its log. -/
theorem System.SameLog.of_markEnded (ended : Ended)
    (h : next.host.rows[name]? = (node.host.rows[name]?.map (·.markEnded ended))) :
    node.SameLog next name := by
  intro log
  unfold RecordsLog
  rw [h]
  cases node.host.rows[name]? with
  | none => simp
  | some row => simp [Row.markEnded]

/-- What a step of the Node does to the log that a name's row names. -/
inductive RowLogMove (node next : System) (name : Str) : NodeEvent → Standing → Standing → Prop
  | same {event : NodeEvent} {s s'} (h : node.SameLog next name) :
      RowLogMove node next name event s s'
  | recorded {task now launch vm} (hname : launch.name = name)
      (h : ∀ log, next.RecordsLog name log ↔ log = launch.log) :
      RowLogMove node next name (.launch task .ok now) (.launching task launch .record vm)
        (.launching task launch (.tidy now) vm)
  | deleted {info log} (h : ∀ log, ¬ next.RecordsLog name log) :
      RowLogMove node next name (.removeStep .ok) (.ended info log (some .delete))
        (.ended info log (some .erase))

theorem NameMove.rowLogMove (h : NameMove node next name event s s') :
    RowLogMove node next name event s s' := by
  have hmarked {rows ended} (hrows : next.host.rows = rows.markEnded name ended)
      (hbefore : rows = node.host.rows) : node.SameLog next name := by
    refine .of_markEnded ended ?_
    rw [hrows, hbefore, lookup_markEnded, if_pos rfl]
  cases h with
  | untouched huntouched => exact .same (.of_row huntouched.row)
  | dropped hs hunowned hhost | unsnapped hparked hhost =>
    exact .same (.of_row (by rw [hhost]; rfl))
  | gone hhost hrow hended haddress hprocess hdead =>
    exact .same (hmarked (by rw [hhost]) rfl)
  | launchStep hname hstep =>
    generalize hview : next.host.view name _ = view at hstep
    have hrow : next.host.rows[name]? = view.row := by rw [← hview]; rfl
    cases (Launch.stepped hstep).row with
    | same hsame => exact .same (.of_row (hrow.trans hsame))
    | recorded hok hprocess =>
      subst hok
      refine .recorded hname fun log => ?_
      simp only [System.RecordsLog, hrow, Option.some.injEq, exists_eq_left']
      exact eq_comm
    | lost hok => exact .same (.of_markEnded _ hrow)
  | superviseStep hstep => exact .same (.of_row (Vm.supervised hstep).row)
  | @recorded task now outcome reason why info log vm hhost =>
    by_cases hok : outcome = .ok
    · rw [if_pos hok] at hhost
      exact .same (hmarked (by rw [hhost]) rfl)
    · rw [if_neg hok] at hhost
      exact .same (.of_row (by rw [hhost]))
  | deleted hok hhost =>
    subst hok
    refine .deleted fun log ⟨row, hrow, _⟩ => ?_
    rw [hhost, Rows.delete, lookup_erase, if_pos rfl] at hrow
    cases hrow
  | _ => exact .same (.of_row (by simp_all))

/-! ## The invariant -/

/-- The launch has opened its log, and goes on. -/
def LaunchPc.opened : LaunchPc → Bool
  | .addLinks | .awaitSocket | .copyRootfs | .boot | .moveIn _ _ | .loadSnapshot | .record => true
  | _ => false

namespace Logbook

variable (book : Logbook) (name log : Str)

/-- The log is one of the name's, and was drawn. -/
def Numbered : Prop :=
  ∃ n, log = logPath name n ∧ n + 1 < 2 ^ 64 ∧ (book.node.up.isSome = true → n < book.next)

/-- The log was drawn and used, and is not to be swept. -/
structure Taken : Prop where
  numbered : book.Numbered name log
  drawn : (name, log) ∉ book.drawn
  sweeping : log ∉ book.sweeping

/-- The log is in nobody else's hands. -/
structure Owned : Prop extends book.Taken name log where
  forgetting : log ∉ book.forgetting
  file : log ∈ book.files

/-- What a start knows of its own log, and of the log of the VM that it would replace. -/
structure StartLogged (launch : Launch) (replaced : Option Replaced) (pc : LaunchPc) : Prop
    extends book.Taken name launch.log where
  forgetting : pc ≠ .giveUp → launch.log ∉ book.forgetting
  unrecorded : pc.recorded = false → ¬ book.node.RecordsLog name launch.log
  replaced : ∀ old, replaced = some old → old.log ≠ launch.log ∧ ∃ n, old.log = logPath name n
  file : pc.opened → launch.log ∈ book.files

/-- What a launch knows of logs. -/
structure LaunchLogged (launch : Launch) (pc : LaunchPc) : Prop where
  recorded : pc.recorded → book.node.RecordsLog name launch.log
  aside : pc.recorded = false → ∀ old, launch.setAside = some old →
    book.node.RecordsLog name old.log
  wake : ∀ parked, launch.kind = .wake parked → launch.log = parked.log
  start : ∀ replaced, launch.kind = .start replaced → book.StartLogged name launch replaced pc

end Logbook

/-- The logs that go with where a Node stands with a name. -/
def Standing.Logged (book : Logbook) (name : Str) : Standing → Prop
  | .ended _ log removal =>
    (∃ n, log = logPath name n) ∧ (removal ≠ some .erase → book.node.RecordsLog name log)
  | .launching _ launch pc _ => book.LaunchLogged name launch pc
  | .running _ _ log _ _ => book.node.RecordsLog name log
  | .down | .loading | .absent => True

namespace Logbook

/-- What holds of the logs of a Node, as long as its agents see all of them. -/
structure Sound (subnet : Subnet) (book : Logbook) : Prop where
  reached : book.node.Reached subnet
  recorded : ∀ {name s}, book.node.Stands name s → s.Recorded name book.node.host.rows[name]?
  room : ∀ {file n}, file ∈ book.files → logNumber file = some n → n + 1 < 2 ^ 64
  idle : book.node.up = none → book.drawn = [] ∧ book.sweeping = [] ∧ book.forgetting = []
  drawn : ∀ {name log}, (name, log) ∈ book.drawn → book.Numbered name log ∧ log ∉ book.forgetting
  forgetting : ∀ {log}, log ∈ book.forgetting → ∃ name, book.Numbered name log
  row : ∀ {name log}, book.node.RecordsLog name log → book.Owned name log
  stands : ∀ {name s}, book.node.Stands name s → s.Logged book name

variable {book later : Logbook} {launch : Launch} {pc : LaunchPc} {vm : Vm} {outcome : Outcome}
  {opened : Bool}

/-- A wake's log is the one that the row names already. -/
theorem LaunchLogged.recordsLog_of_wake {parked} (h : book.LaunchLogged name launch pc)
    (hpc : pc.recorded = false) (hkind : launch.kind = .wake parked) :
    book.node.RecordsLog name launch.log := by
  rw [h.wake parked hkind]
  exact h.aside hpc parked (by rw [Launch.setAside, hkind])

/-- Logs of different names are different files. -/
theorem Numbered.ne (h : book.Numbered name log) (hne : name ≠ other) : log ≠ logPath other n := by
  obtain ⟨m, rfl, -⟩ := h
  exact fun heq => hne (logPath_inj heq).1

/-- A log of the name that is in no use: the name's row does not name it, and no start of the
name is under way. -/
structure Spent (book : Logbook) (name log : Str) : Prop where
  path : ∃ n, log = logPath name n
  unrecorded : ¬ book.node.RecordsLog name log
  unstarted : ∀ {task launch pc vm}, book.node.Stands name (.launching task launch pc vm) →
    pc.recorded

/-- What a step of the Node does to the files. -/
inductive FileMove (book : Logbook) (files : ExtTreeMap Str Nat compare) : Prop
  | same (hfiles : files = book.files)
  | created {task launch replaced vm}
      (hs : book.node.Stands launch.name (.launching task launch .spawnJailer vm))
      (hkind : launch.kind = .start replaced)
      (hfiles : files = book.files.insert launch.log book.stamp)
  | erased {name log : Str} (hspent : book.Spent name log) (hfiles : files = book.files.erase log)

/-- What a step of the Node does to logs. -/
structure Written (book later : Logbook) : Prop where
  files : book.FileMove later.files
  next : later.next = book.next
  sweeping : ∀ log ∈ later.sweeping, log ∈ book.sweeping
  drawn : ∀ item ∈ later.drawn, item ∈ book.drawn
  /-- The logs that are to be removed are those of starts that failed. -/
  forgetting : ∀ log ∈ later.forgetting, log ∈ book.forgetting ∨
    ∃ task launch replaced vm, log = launch.log ∧ launch.kind = .start replaced ∧
      book.node.Stands launch.name (.launching task launch .giveUp vm)

/-- What is known of a step of the Node. -/
structure Stepped (subnet : Subnet) (book later : Logbook) (event : NodeEvent) : Prop
    extends Written book later where
  node : book.node.step subnet event = some later.node
  up : later.node.up.isSome → book.node.up.isSome
  down : later.node.up = none → later.drawn = [] ∧ later.sweeping = [] ∧ later.forgetting = []
  ran : ∀ {run log}, event = .runVm run log → (run.name, log) ∈ book.drawn ∧
    (run.name, log) ∉ later.drawn ∧ later.forgetting = book.forgetting ∧ book.sweeping = []
  created : ∀ {task now launch replaced vm}, event = .launch task .ok now →
    book.node.Stands launch.name (.launching task launch .spawnJailer vm) →
      launch.kind = .start replaced → launch.log ∈ later.files

theorem files_create (log : Str) : (book.create log).files = book.files.insert log book.stamp := rfl

/-- A step that changes files only. -/
theorem Written.of_files {files stamp}
    (h : book.FileMove files) : book.Written { book with files, stamp } :=
  ⟨h, rfl, fun _ => id, fun _ => id, fun _ => .inl⟩

theorem Written.refl (book : Logbook) : book.Written book := .of_files (.same rfl)

theorem Written.remove (hspent : book.Spent name log) : book.Written (book.remove log outcome) := by
  unfold Logbook.remove
  split
  · exact .refl book
  · exact .of_files (.erased hspent rfl)

theorem Written.settle (h : book.Written later) (node : System) :
    book.Written (later.settle node) := by
  unfold Logbook.settle
  split
  · exact ⟨h.files, h.next, h.sweeping, h.drawn, h.forgetting⟩
  · exact ⟨h.files, h.next, nofun, nofun, nofun⟩

theorem recordsLog_unique {log'} (h : node.RecordsLog name log)
    (h' : node.RecordsLog name log') : log = log' := by
  obtain ⟨row, hrow, rfl⟩ := h
  obtain ⟨row', hrow', rfl⟩ := h'
  cases hrow.symm.trans hrow'
  rfl

section

variable (h : book.Sound subnet)
include h

/-- What a start under way knows of logs. -/
theorem Sound.start {replaced} (hs : book.node.Stands name (.launching task launch pc vm))
    (hkind : launch.kind = .start replaced) : book.StartLogged name launch replaced pc :=
  (h.stands hs : book.LaunchLogged name launch pc).start replaced hkind

/-- A recorded log carries its VM's name. -/
theorem Sound.path_of_row (hrow : book.node.RecordsLog name log) :
    ∃ n, log = logPath name n := by
  obtain ⟨n, hpath, -⟩ := (h.row hrow).numbered
  exact ⟨n, hpath⟩

/-- What a launch's effect does to logs. -/
theorem Sound.written_launched (hs : book.node.Stands launch.name (.launching task launch pc vm)) :
    book.Written (book.launched launch pc outcome opened) := by
  have hlogged : book.LaunchLogged launch.name launch pc := h.stands hs
  unfold launched
  split
  · rename_i hkind
    split
    · exact .of_files (.created hs hkind rfl)
    · exact .refl book
  · -- A wake appends to the parked VM's log, which is there.
    rename_i hkind
    have hfile : book.files.contains launch.log :=
      ExtTreeMap.contains_iff_mem.mpr (h.row (hlogged.recordsLog_of_wake rfl hkind)).file
    rw [append, if_pos hfile, ite_self]
    exact .refl book
  · rename_i old hkind
    obtain ⟨hne, hpath⟩ := (hlogged.start _ hkind).replaced old rfl
    refine .remove ⟨hpath, fun hrow => ?_, fun hs' => ?_⟩
    · exact hne (recordsLog_unique hrow (hlogged.recorded rfl))
    · cases h.reached.stands_unique hs hs'
      rfl
  · rename_i hkind
    refine ⟨.same rfl, rfl, fun _ => id, fun _ => id, fun log hlog => ?_⟩
    rcases mem_cons.mp hlog with rfl | hlog
    · exact .inr ⟨_, _, _, _, rfl, hkind, hs⟩
    · exact .inl hlog
  · exact .refl book

/-- `rm` removes the log of the Ended VM whose record it has deleted. -/
theorem Sound.written_removeStep {node}
    (hup : book.node.up = some up) (hmove : up.RemoveMove book.node.host outcome node) :
    book.Written (book.after up (.removeStep outcome) opened) := by
  simp only [after]
  split
  · rename_i name hremoving
    cases hmove with
    | erase herasing hentry =>
      cases herasing.symm.trans hremoving
      have hs := AgentProcess.Stands.ended hentry
      rw [AgentProcess.removal, hremoving, bind_some, if_pos rfl] at hs
      have hs := System.Stands.up hup hs
      rw [hentry, map_some, getD_some]
      refine .remove ⟨(h.stands hs).1, fun hrow => ?_, fun hs' => ?_⟩
      · obtain ⟨row, hrow, -⟩ := hrow
        cases hrow.symm.trans (h.recorded hs rfl)
      · cases h.reached.stands_unique hs hs'
    | snapshot hother | noSnapshot hother | delete hother | refused hother =>
      cases hother.symm.trans hremoving
  · exact .refl book

theorem Sound.written_after {node}
    (hup : book.node.up = some up) (hmove : up.Move subnet book.node.host event node) :
    book.Written (book.after up event opened) := by
  cases event with
  | runVm run log =>
    exact ⟨.same rfl, rfl, fun _ => id, fun _ hitem => (mem_filter.mp hitem).1, fun _ => .inl⟩
  | launch task outcome now =>
    cases hmove with
    | launches hlaunch hpc =>
      simp only [after, hlaunch, hpc]
      exact h.written_launched (.up hup (.launching hlaunch rfl hpc))
    | begins hfrom => cases hfrom
  | removeStep outcome =>
    cases hmove with
    | removes hmove => exact h.written_removeStep hup hmove
    | begins hfrom => cases hfrom
  | _ => exact .refl book

/-- Every step of the Node, as its logs go. -/
theorem Sound.stepped {node} (hallows : book.allows event)
    (hnode : book.node.step subnet event = some node) :
    Stepped subnet book
      ((book.node.up.elim book (book.after · event opened)).settle node) event := by
  have hdown (b : Logbook) : (b.settle node).node = node ∧ (b.settle node).files = b.files ∧
      (node.up = none → (b.settle node).drawn = [] ∧ (b.settle node).sweeping = [] ∧
        (b.settle node).forgetting = []) := by
    unfold settle
    split
    · rename_i hsome
      exact ⟨rfl, rfl, fun hnone => by rw [hnone] at hsome; cases hsome⟩
    · exact ⟨rfl, rfl, fun _ => ⟨rfl, rfl, rfl⟩⟩
  obtain ⟨hn, hfiles, hdown⟩ := hdown (book.node.up.elim book (book.after · event opened))
  rcases System.step_eq_some hnode with ⟨vmAddress, process, rfl, rfl⟩ | ⟨rfl, -, -⟩ |
    ⟨up, hup, hmove⟩
  · have hafter : book.node.up.elim book (book.after · (.vmmEnds vmAddress process) opened) =
        book := by cases book.node.up <;> rfl
    rw [hafter] at hn hdown ⊢
    exact ⟨(Written.refl book).settle _, by rwa [hn], by rw [hn]; exact id, by rwa [hn], nofun,
      nofun⟩
  · cases hallows
  · rw [hup, elim_some] at hn hfiles hdown ⊢
    refine ⟨(h.written_after hup hmove).settle node, by rwa [hn], fun _ => by rw [hup]; rfl,
      by rwa [hn], ?_, ?_⟩
    · rintro run log rfl
      simp only [allows, Bool.and_eq_true, contains_iff_mem] at hallows
      cases hmove with
      | begins hfrom hmove =>
        cases hmove
        exact ⟨hallows.2, by simp [settle, after], rfl, List.isEmpty_iff.mp hallows.1⟩
    · rintro task now launch replaced vm rfl hs hkind
      rw [hfiles]
      obtain ⟨_, hup', hlaunch, hname, hpc⟩ := hs.of_launching
      cases hup.symm.trans hup'
      simp only [after, hlaunch, hpc, launched, hkind]
      rw [if_pos (.inl nofun), files_create, ExtTreeMap.mem_insert]
      exact .inl (Std.compare_eq_iff_eq.mpr rfl)

omit h in
/-- What is in no use is not what the row names. -/
theorem Spent.ne (h : book.Spent other log) (hnumbered : book.Numbered name file)
    (huse : name = other → file ≠ log) : file ≠ log := by
  by_cases hname : name = other
  · exact huse hname
  · obtain ⟨n, hpath⟩ := h.path
    exact hpath ▸ hnumbered.ne hname

/-- A recorded log is the same file after every step. -/
theorem Sound.file_kept (hst : book.Written later)
    (hrow : book.node.RecordsLog name log) : later.files[log]? = book.files[log]? := by
  have hnumbered := (h.row hrow).numbered
  cases hst.files with
  | same hfiles => rw [hfiles]
  | @created task launch replaced vm hs hkind hfiles =>
    have hstart := h.start hs hkind
    rw [hfiles, lookup_insert, if_neg]
    rintro rfl
    by_cases hname : name = launch.name
    · subst hname
      exact hstart.unrecorded rfl hrow
    · obtain ⟨n, hlog, -⟩ := hstart.numbered
      exact hnumbered.ne hname hlog
  | erased hspent hfiles =>
    rw [hfiles, lookup_erase, if_neg (hspent.ne hnumbered ?_)]
    rintro rfl rfl
    exact hspent.unrecorded hrow

/-- So is the log of a start that is under way. -/
theorem Sound.file_of_start (hst : book.Written later)
    {replaced} (hs : book.node.Stands name (.launching task launch pc vm))
    (hpc : pc.recorded = false) (hkind : launch.kind = .start replaced)
    (hfile : launch.log ∈ book.files) : launch.log ∈ later.files := by
  have hnumbered := (h.start hs hkind).numbered
  cases hst.files with
  | same hfiles => rwa [hfiles]
  | created hs hkind hfiles =>
    rw [hfiles, ExtTreeMap.mem_insert]
    exact .inr hfile
  | erased hspent hfiles =>
    have hne := hspent.ne hnumbered fun hname => by
      subst hname
      cases hpc.symm.trans (hspent.unstarted hs)
    rw [hfiles, ExtTreeMap.mem_erase]
    exact ⟨fun heq => hne (Std.compare_eq_iff_eq.mp heq).symm, hfile⟩

section

variable (hst : Stepped subnet book later event)
include hst

omit h in
theorem Numbered.step (h : book.Numbered name log) : later.Numbered name log := by
  obtain ⟨n, hlog, hroom, hlt⟩ := h
  exact ⟨n, hlog, hroom, fun hup => hst.next ▸ hlt (hst.up hup)⟩

omit h in
theorem Taken.step (h : book.Taken name log) : later.Taken name log :=
  ⟨h.numbered.step hst, fun hmem => h.drawn (hst.drawn _ hmem),
    fun hmem => h.sweeping (hst.sweeping _ hmem)⟩

/-- A start that fails leaves the logs of others alone. -/
theorem Sound.not_forgetting (hnumbered : book.Numbered name log) (hnot : log ∉ book.forgetting)
    (hown : ∀ {task launch vm replaced}, launch.name = name → launch.kind = .start replaced →
      book.node.Stands name (.launching task launch .giveUp vm) → log ≠ launch.log) :
    log ∉ later.forgetting := by
  intro hlog
  rcases hst.forgetting _ hlog with hlog | ⟨task, launch, replaced, vm, rfl, hkind, hs⟩
  · exact hnot hlog
  · by_cases hname : name = launch.name
    · exact hown hname.symm hkind (hname ▸ hs) rfl
    · obtain ⟨n, hpath, -⟩ := (h.start hs hkind).numbered
      exact hnumbered.ne hname hpath

/-- A recorded log stays its VM's. -/
theorem Sound.owned_kept (hrow : book.node.RecordsLog name log) : later.Owned name log := by
  have howned := h.row hrow
  refine ⟨howned.toTaken.step hst, ?_, ?_⟩
  · refine h.not_forgetting hst howned.numbered howned.forgetting ?_
    rintro task launch vm replaced rfl hkind hs rfl
    exact (h.start hs hkind).unrecorded rfl hrow
  · have hfile := howned.file
    rw [ExtTreeMap.mem_iff_isSome_getElem?] at hfile ⊢
    rwa [h.file_kept hst.toWritten hrow]

/-- A start's log, while the start goes from one point to another without being recorded. -/
theorem Sound.startLogged {replaced} (hs : book.node.Stands name (.launching task launch pc vm))
    (hkind : launch.kind = .start replaced) (hgive : pc = .giveUp → pc' = .giveUp)
    (hunrecorded : pc'.recorded = false →
      pc.recorded = false ∧ book.node.SameLog later.node name)
    (hopened : pc'.opened → launch.log ∈ later.files) :
    later.StartLogged name launch replaced pc' := by
  have hstart := h.start hs hkind
  refine ⟨hstart.toTaken.step hst, fun hpc' => ?_, fun hpc' => ?_, hstart.replaced, hopened⟩
  · have hpc : pc ≠ .giveUp := fun heq => hpc' (hgive heq)
    refine h.not_forgetting hst hstart.numbered (hstart.forgetting hpc) ?_
    rintro task' launch' vm' replaced' - - hs' -
    cases h.reached.stands_unique hs hs'
    exact hpc rfl
  · obtain ⟨hpc, hrows⟩ := hunrecorded hpc'
    rw [hrows]
    exact hstart.unrecorded hpc

omit h hst in
/-- A launch has its log open once jailer was spawned. -/
theorem opened_of_step {fresh now vm' view view'}
    (h : launch.step fresh outcome now pc vm view = some (pc', vm', view'))
    (hopened : pc'.opened) : pc.opened ∨ pc = .spawnJailer ∧ outcome = .ok := by
  cases Launch.effect_of_step h with
  | spawnJailer hok => exact .inr ⟨rfl, hok⟩
  | addNetns | tidy | moveBack | notMovedBack | movedBack | kill | undo | givesUp | loses |
    markLost | fails | failsToWake => cases hopened
  | _ => exact .inl rfl

/-- A launch's logs, when its VM's row names the same log before and after. -/
theorem Sound.launchLogged_of_same (hs : book.node.Stands name (.launching task launch pc vm))
    (hrows : book.node.SameLog later.node name) (hrecorded : pc'.recorded = pc.recorded)
    (hgive : pc = .giveUp → pc' = .giveUp)
    (hopened : pc'.opened → ∀ replaced, launch.kind = .start replaced →
      launch.log ∈ later.files) : later.LaunchLogged name launch pc' := by
  have hlogged : book.LaunchLogged _ _ _ := h.stands hs
  refine ⟨fun hpc' => ?_, fun hpc' old hold => ?_, hlogged.wake, fun replaced hkind => ?_⟩
  · rw [hrows]
    exact hlogged.recorded (hrecorded ▸ hpc')
  · rw [hrows]
    exact hlogged.aside (hrecorded ▸ hpc') old hold
  · exact h.startLogged hst hs hkind hgive (fun hpc' => ⟨hrecorded ▸ hpc', hrows⟩)
      fun hpc' => hopened hpc' replaced hkind

omit h hst in
theorem opened_unrecorded (h : pc.opened) : pc.recorded = false := by
  cases pc <;> first | rfl | cases h

omit hst in
theorem Sound.launchLogged_of_step {now vm' view'}
    (hst : Stepped subnet book later (.launch task outcome now)) (hname : launch.name = name)
    (hs : book.node.Stands name (.launching task launch pc vm))
    (hstep : launch.step book.node.host.nextProcess outcome now pc vm
      (book.node.host.view name launch.vmAddress) = some (pc', vm', view'))
    (hrow : later.node.host.rows[name]? = view'.row) : later.LaunchLogged name launch pc' := by
  have hlogged : book.LaunchLogged _ _ _ := h.stands hs
  have hgive : pc = .giveUp → pc' = .giveUp := by
    rintro rfl
    cases hstep
  have hopened (hpc' : pc'.opened) (replaced : Option Replaced)
      (hkind : launch.kind = .start replaced) : launch.log ∈ later.files := by
    rcases opened_of_step hstep hpc' with hpc | ⟨rfl, rfl⟩
    · exact h.file_of_start hst.toWritten hs (opened_unrecorded hpc) hkind
        ((hlogged.start _ hkind).file hpc)
    · exact hst.created rfl (hname ▸ hs) hkind
  cases (Launch.stepped hstep).row with
  | same hsame hstarted hvm =>
    exact h.launchLogged_of_same hst hs (.of_row (hrow.trans hsame))
      (congrArg Option.isSome hstarted) hgive hopened
  | recorded hok hprocess =>
    refine ⟨fun _ => ⟨_, hrow, rfl⟩, nofun, hlogged.wake, fun replaced hkind => ?_⟩
    exact h.startLogged hst hs hkind nofun nofun nofun
  | lost hok =>
    exact h.launchLogged_of_same hst hs (.of_markEnded _ hrow) rfl hgive hopened

/-- A launch that begins. -/
theorem Sound.launchLogged_of_begun (hname : launch.name = name)
    (hs : book.node.Stands name (.history launch.setAside))
    (hfrom : launch.From event) (hrows : book.node.SameLog later.node name) :
    later.LaunchLogged name launch .addNetns := by
  subst hname
  have haside (old : Replaced) (hold : launch.setAside = some old) :
      book.node.RecordsLog launch.name old.log := by
    rw [hold] at hs
    exact (h.stands hs).2 nofun
  refine ⟨nofun, fun _ old hold => (hrows _).mpr (haside old hold), fun parked hkind => ?_,
    fun replaced hkind => ?_⟩
  · cases hfrom with
    | start hname hlog hother => cases hkind.symm.trans hother
    | wake hlog hother =>
      cases hkind.symm.trans hother
      exact hlog
  · cases hfrom with
    | wake hlog hother => cases hkind.symm.trans hother
    | start hname hlog hother =>
      cases hkind.symm.trans hother
      obtain ⟨hdrawn, hlater, hforget, hswept⟩ := hst.ran rfl
      rw [← hname, ← hlog] at hdrawn hlater
      have hnew : ¬ book.node.RecordsLog launch.name launch.log :=
        fun hrow => (h.row hrow).drawn hdrawn
      refine ⟨⟨(h.drawn hdrawn).1.step hst, hlater, fun hmem => ?_⟩, fun _ => ?_, fun _ => ?_,
        fun old hold => ?_, nofun⟩
      · have hmem := hst.sweeping _ hmem
        rw [hswept] at hmem
        cases hmem
      · rw [hforget]
        exact (h.drawn hdrawn).2
      · rwa [hrows]
      · have hrow := haside old (by rw [Launch.setAside, hkind, hold])
        obtain ⟨n, hpath, -⟩ := (h.row hrow).numbered
        exact ⟨fun heq => hnew (heq ▸ hrow), n, hpath⟩

/-- Every name's logs go with where it stands, after a step of the Node. -/
theorem Sound.logged_of_step (hs : book.node.Stands name s) (hs' : later.node.Stands name s')
    (hmove : NameMove book.node later.node name event s s') : s'.Logged later name := by
  have hlogged := h.stands hs
  have hhost (hhost : later.node.host = book.node.host) : book.node.SameLog later.node name :=
    .of_host hhost
  have hrowMove := hmove.rowLogMove
  cases hmove with
  | untouched huntouched =>
    have hrows : book.node.SameLog later.node name := .of_row huntouched.row
    cases s with
    | ended info log removal => exact ⟨hlogged.1, fun hpc => (hrows _).mpr (hlogged.2 hpc)⟩
    | launching task launch pc vm =>
      refine h.launchLogged_of_same hst hs hrows rfl id fun hpc replaced hkind => ?_
      exact h.file_of_start hst.toWritten hs (opened_unrecorded hpc) hkind
        (((hlogged : book.LaunchLogged _ _ _).start _ hkind).file hpc)
    | running task info log pc vm => exact (hrows _).mpr hlogged
    | down | loading | absent => trivial
  | down | loaded | unknown | erased => trivial
  | dropped hs => rcases hs with rfl | rfl <;> trivial
  | restored hsame hrow =>
    exact ⟨h.path_of_row ⟨_, hrow, rfl⟩, fun _ => (hhost hsame _).mpr ⟨_, hrow, rfl⟩⟩
  | adopted hsame hrow => exact (hhost hsame _).mpr ⟨_, hrow, rfl⟩
  | gone hmarked hrow =>
    cases hrowMove with
    | same hrows => exact ⟨h.path_of_row ⟨_, hrow, rfl⟩, fun _ => (hrows _).mpr ⟨_, hrow, rfl⟩⟩
  | begun hname hsame hup hready hreserves hfrom =>
    exact h.launchLogged_of_begun hst hname hs hfrom (hhost hsame)
  | launchStep hname hstep => exact h.launchLogged_of_step hst hname hs hstep rfl
  | handedOver hname hsame => exact (hhost hsame _).mpr (hlogged.recorded rfl)
  | @gaveUp task now outcome launch vm hname hsame =>
    cases hold : launch.setAside with
    | none => trivial
    | some old =>
      have hrow := hlogged.aside rfl old hold
      exact ⟨h.path_of_row hrow, fun _ => (hhost hsame _).mpr hrow⟩
  | @lost task now outcome launch vm parked ended hname hsame hkind =>
    have hrow := hlogged.aside rfl parked (by rw [Launch.setAside, hkind])
    exact ⟨h.path_of_row hrow, fun _ => (hhost hsame _).mpr hrow⟩
  | asked hsame => exact (hhost hsame _).mpr hlogged
  | superviseStep hstep =>
    cases hrowMove with
    | same hrows => exact (hrows _).mpr hlogged
  | recorded hmarked =>
    cases hrowMove with
    | same hrows => exact ⟨h.path_of_row hlogged, fun _ => (hrows _).mpr hlogged⟩
  | removing hsame | notParked hparked hsame | undeleted hfailed hsame =>
    exact ⟨hlogged.1, fun _ => (hhost hsame _).mpr (hlogged.2 (by rintro ⟨⟩))⟩
  | unsnapped =>
    cases hrowMove with
    | same hrows => exact ⟨hlogged.1, fun _ => (hrows _).mpr (hlogged.2 (by rintro ⟨⟩))⟩
  | deleted => exact ⟨hlogged.1, fun hpc => absurd rfl hpc⟩

/-- What a row names after a step of the Node is its VM's own. -/
theorem Sound.owned_of_step (hlater : later.node.Reached subnet)
    (hrow : later.node.RecordsLog name log) : later.Owned name log := by
  obtain ⟨s', hs'⟩ := hlater.exists_stands name
  obtain ⟨s, hs, hmove⟩ := h.reached.nameMove hst.node hs'
  have hlogged := h.logged_of_step hst hs hs' hmove
  cases hmove.rowLogMove with
  | same hrows => exact h.owned_kept hst ((hrows log).mp hrow)
  | deleted hrows => exact absurd hrow (hrows log)
  | @recorded task now launch vm hname hrows =>
    cases (hrows log).mp hrow
    cases hkind : launch.kind with
    | wake parked =>
      -- A wake writes the log that its row names already.
      have hbefore : book.LaunchLogged _ _ _ := h.stands hs
      exact h.owned_kept hst (hbefore.recordsLog_of_wake rfl hkind)
    | start replaced =>
      have hbefore := h.start hs hkind
      have hafter := (hlogged : later.LaunchLogged _ _ _).start _ hkind
      exact ⟨hafter.toTaken, hafter.forgetting (by rintro ⟨⟩),
        h.file_of_start hst.toWritten hs rfl hkind (hbefore.file rfl)⟩

omit hst in
/-- Files come from starts, whose numbers leave room. -/
theorem Sound.room_of_step (hst : book.Written later)
    (hfile : file ∈ later.files) (hnumber : logNumber file = some n) : n + 1 < 2 ^ 64 := by
  cases hst.files with
  | same hfiles => exact h.room (hfiles ▸ hfile) hnumber
  | created hs hkind hfiles =>
    rw [hfiles, ExtTreeMap.mem_insert] at hfile
    rcases hfile with heq | hfile
    · obtain ⟨m, hpath, hroom, -⟩ := (h.start hs hkind).numbered
      rw [← Std.compare_eq_iff_eq.mp heq, hpath,
        logNumber_logPath _ (Nat.lt_of_succ_lt hroom)] at hnumber
      cases hnumber
      exact hroom
    · exact h.room hfile hnumber
  | erased hspent hfiles =>
    rw [hfiles] at hfile
    exact h.room (ExtTreeMap.mem_of_mem_erase hfile) hnumber

theorem Sound.step_node : later.Sound subnet := by
  have hlater := h.reached.step hst.node
  refine ⟨hlater, fun hs' => ?_, h.room_of_step hst.toWritten, hst.down, fun hmem => ?_,
    fun hmem => ?_, h.owned_of_step hst hlater, fun hs' => ?_⟩
  · obtain ⟨s, hs, hmove⟩ := h.reached.nameMove hst.node hs'
    exact (h.recorded hs).step hmove
  · have hdrawn := hst.drawn _ hmem
    obtain ⟨hnumbered, hforget⟩ := h.drawn hdrawn
    refine ⟨hnumbered.step hst, h.not_forgetting hst hnumbered hforget ?_⟩
    rintro task launch vm replaced rfl hkind hs rfl
    exact (h.start hs hkind).drawn hdrawn
  · rcases hst.forgetting _ hmem with hmem | ⟨task, launch, replaced, vm, rfl, hkind, hs⟩
    · obtain ⟨name, hnumbered⟩ := h.forgetting hmem
      exact ⟨name, hnumbered.step hst⟩
    · exact ⟨_, (h.start hs hkind).numbered.step hst⟩
  · obtain ⟨s, hs, hmove⟩ := h.reached.nameMove hst.node hs'
    exact h.logged_of_step hst hs hs' hmove

end

/-! ## The agent's own steps -/

/-- A step of the agent that leaves the Node as it is. -/
theorem Sound.of_node (hnode : later.node = book.node)
    (hroom : ∀ {file n}, file ∈ later.files → logNumber file = some n → n + 1 < 2 ^ 64)
    (hidle : later.node.up = none → later.drawn = [] ∧ later.sweeping = [] ∧ later.forgetting = [])
    (hnumbered : ∀ {name log}, book.Numbered name log → later.Numbered name log)
    (hdrawn : ∀ {name log}, (name, log) ∈ later.drawn → (name, log) ∈ book.drawn ∨
      later.Numbered name log ∧ ∀ other, ¬ book.Numbered other log)
    (hsweeping : ∀ {log}, log ∈ later.sweeping → log ∈ book.sweeping)
    (hforgets : ∀ {log}, log ∈ later.forgetting → log ∈ book.forgetting)
    (hfile : ∀ {log}, log ∈ book.files → log ∉ book.sweeping → log ∉ book.forgetting →
      log ∈ later.files) : later.Sound subnet := by
  have hrows {name log} : later.node.RecordsLog name log ↔ book.node.RecordsLog name log := by
    rw [hnode]
  have htaken {name log} (htaken : book.Taken name log) : later.Taken name log :=
    ⟨hnumbered htaken.numbered,
      fun hmem => (hdrawn hmem).elim htaken.drawn (·.2 name htaken.numbered),
      fun hmem => htaken.sweeping (hsweeping hmem)⟩
  refine ⟨hnode ▸ h.reached, fun hs => ?_, hroom, hidle, fun hmem => ?_, fun hmem => ?_,
    fun hrow => ?_, fun {name s} hs => ?_⟩
  · rw [hnode] at hs ⊢
    exact h.recorded hs
  · rcases hdrawn hmem with hmem | ⟨hnum, hnew⟩
    · obtain ⟨hnum, hnot⟩ := h.drawn hmem
      exact ⟨hnumbered hnum, fun hmem => hnot (hforgets hmem)⟩
    · refine ⟨hnum, fun hmem => ?_⟩
      obtain ⟨other, hother⟩ := h.forgetting (hforgets hmem)
      exact hnew other hother
  · obtain ⟨name, hnum⟩ := h.forgetting (hforgets hmem)
    exact ⟨name, hnumbered hnum⟩
  · have howned := h.row (hrows.mp hrow)
    exact ⟨htaken howned.toTaken, fun hmem => howned.forgetting (hforgets hmem),
      hfile howned.file howned.sweeping howned.forgetting⟩
  · rw [hnode] at hs
    have hlogged := h.stands hs
    cases s with
    | ended info log removal => exact ⟨hlogged.1, fun hpc => hrows.mpr (hlogged.2 hpc)⟩
    | running task info log pc vm => exact hrows.mpr hlogged
    | launching task launch pc vm =>
      refine ⟨fun hpc => hrows.mpr (hlogged.recorded hpc),
        fun hpc old hold => hrows.mpr (hlogged.aside hpc old hold), hlogged.wake,
        fun replaced hkind => ?_⟩
      have hstart := hlogged.start replaced hkind
      refine ⟨htaken hstart.toTaken, fun hpc hmem => hstart.forgetting hpc (hforgets hmem),
        fun hpc hrow => hstart.unrecorded hpc (hrows.mp hrow), hstart.replaced, fun hpc => ?_⟩
      refine hfile (hstart.file hpc) hstart.sweeping (hstart.forgetting ?_)
      rintro rfl
      cases hpc
    | down | loading | absent => trivial

omit h in
/-- Removing a log changes nothing but the files. -/
theorem remove_eq (book : Logbook) (log : Str) (outcome : Outcome) :
    book.remove log outcome = { book with files := (book.remove log outcome).files } := by
  unfold remove
  split <;> rfl

/-- Every step of a logbook. -/
inductive LogMove (subnet : Subnet) (book : Logbook) : LogEvent → Logbook → Prop
  | boot {seen swept} (hseen : ∀ file ∈ seen, file ∈ book.files)
      (hnode : book.node.step subnet .boot = some ⟨book.node.host, some (.start book.node.host)⟩) :
      LogMove subnet book (.boot seen swept)
        (book.boot seen swept ⟨book.node.host, some (.start book.node.host)⟩)
  | removes {event log outcome sweeping forgetting}
      (hlog : log ∈ book.sweeping ∨ log ∈ book.forgetting)
      (hsweeping : ∀ file ∈ sweeping, file ∈ book.sweeping)
      (hforgetting : ∀ file ∈ forgetting, file ∈ book.forgetting) :
      LogMove subnet book event
        { book with files := (book.remove log outcome).files, sweeping, forgetting }
  | draw {name : Str} (hup : book.node.up.isSome) :
      LogMove subnet book (.draw name) (book.draw name)
  | node {event : NodeEvent} {opened later}
      (hst : Stepped subnet book later event) : LogMove subnet book (.node event opened) later

theorem Sound.move_of_step {event}
    (hstep : book.step subnet event = some later) : LogMove subnet book event later := by
  cases event with
  | boot seen swept =>
    simp only [step, ite_none_right_eq_some, Bool.and_eq_true, List.all_eq_true,
      map_eq_some_iff] at hstep
    obtain ⟨⟨hseen, -⟩, node, hnode, rfl⟩ := hstep
    obtain ⟨-, rfl⟩ := System.boot_eq_some hnode
    exact .boot (fun file hfile => ExtTreeMap.contains_iff_mem.mp (hseen file hfile)) hnode
  | sweep outcome =>
    simp only [step] at hstep
    split at hstep
    · rename_i log sweeping hsweeping
      cases hstep
      rw [book.remove_eq log outcome]
      exact .removes (.inl (by rw [hsweeping]; exact .head _))
        (fun file hfile => by rw [hsweeping]; exact .tail _ hfile) fun _ => id
    · cases hstep
  | draw name =>
    obtain ⟨hready, rfl⟩ := ite_some_none_eq_some.mp hstep
    obtain ⟨up, hup, -⟩ := (Option.any_eq_true _ _).mp hready
    exact .draw (by rw [hup]; rfl)
  | forget log outcome =>
    obtain ⟨hlog, rfl⟩ := ite_some_none_eq_some.mp hstep
    rw [book.remove_eq log outcome]
    exact .removes (.inr hlog) (fun _ => id) fun _ hfile => (mem_filter.mp hfile).1
  | node event opened =>
    obtain ⟨hallows, hstep⟩ := ite_none_right_eq_some.mp hstep
    obtain ⟨node, hnode, rfl⟩ := map_eq_some_iff.mp hstep
    exact .node (h.stepped hallows hnode)

omit h in
/-- What `remove_file` leaves. -/
theorem mem_remove (hne : file ≠ log) (h : file ∈ book.files) :
    file ∈ (book.remove log outcome).files := by
  unfold remove
  split
  · exact h
  · exact ExtTreeMap.mem_erase.mpr ⟨fun heq => hne (Std.compare_eq_iff_eq.mp heq).symm, h⟩

omit h in
theorem mem_of_mem_remove (h : file ∈ (book.remove log outcome).files) : file ∈ book.files := by
  unfold remove at h
  split at h
  · exact h
  · exact ExtTreeMap.mem_of_mem_erase h

/-- A log is removed that was to be swept, or that a failed start leaves. -/
theorem Sound.step_removes {sweeping forgetting}
    (hlog : log ∈ book.sweeping ∨ log ∈ book.forgetting)
    (hsweeping : ∀ file ∈ sweeping, file ∈ book.sweeping)
    (hforgetting : ∀ file ∈ forgetting, file ∈ book.forgetting) :
    Sound subnet { book with files := (book.remove log outcome).files, sweeping, forgetting } := by
  refine h.of_node rfl (fun hfile => h.room (mem_of_mem_remove hfile)) ?_ id .inl (hsweeping _)
    (hforgetting _) ?_
  · intro hnone
    obtain ⟨-, hsweep, hforget⟩ := h.idle hnone
    rw [hsweep, hforget] at hlog
    rcases hlog with hlog | hlog <;> cases hlog
  · intro log' hfile hswept hforgot
    refine mem_remove ?_ hfile
    rintro rfl
    exact hlog.elim hswept hforgot

/-- A number that is drawn is past all that are in use, as long as the counter has room. -/
theorem Sound.step_draw (hroom : book.next + 1 < 2 ^ 64) (hsome : book.node.up.isSome) :
    (book.draw name).Sound subnet := by
  have hnext : (book.next + 1) % 2 ^ 64 = book.next + 1 := Nat.mod_eq_of_lt hroom
  refine h.of_node rfl h.room (fun hnone => ?_) ?_ ?_ id id fun hfile _ _ => hfile
  · have hnone : book.node.up = none := hnone
    rw [hnone] at hsome
    cases hsome
  · rintro other log ⟨n, hpath, hn, hlt⟩
    exact ⟨n, hpath, hn, fun _ => (Nat.lt_succ_of_lt (hlt hsome)).trans_eq hnext.symm⟩
  · intro other log hmem
    rcases mem_cons.mp hmem with heq | hmem
    · cases heq
      refine .inr ⟨⟨_, rfl, hroom, fun _ => (Nat.lt_succ_self _).trans_eq hnext.symm⟩, ?_⟩
      rintro owner ⟨n, hpath, -, hlt⟩
      exact absurd (logPath_inj hpath).2 (Nat.ne_of_gt (hlt hsome))
    · exact .inl hmem

/-- An agent that sees all logs begins past all their numbers, and sweeps none that is
recorded. -/
theorem Sound.step_boot {seen swept : List Str}
    (hseen : ∀ file ∈ seen, file ∈ book.files) (hall : ∀ file ∈ book.files, file ∈ seen)
    (hnode : book.node.step subnet .boot = some ⟨book.node.host, some (.start book.node.host)⟩) :
    (book.boot seen swept ⟨book.node.host, some (.start book.node.host)⟩).Sound subnet := by
  refine ⟨h.reached.step hnode, fun hs' => ?_, h.room, nofun, nofun, nofun,
    fun {name log} hrow => ?_, fun {name s} hs' => ?_⟩
  · obtain ⟨s, hs, hmove⟩ := h.reached.nameMove hnode hs'
    exact (h.recorded hs).step hmove
  · have hrow : book.node.RecordsLog name log := hrow
    have howned := h.row hrow
    obtain ⟨n, hpath, hn, -⟩ := howned.numbered
    refine ⟨⟨⟨n, hpath, hn, fun _ => ?_⟩, nofun, fun hmem => ?_⟩, nofun, howned.file⟩
    · refine lt_nextLogNumber (hall log howned.file) ?_
        fun file hfile _ => h.room (hseen file hfile)
      rw [hpath]
      exact logNumber_logPath _ (Nat.lt_of_succ_lt hn)
    · obtain ⟨row, hfound, rfl⟩ := hrow
      have hrecorded : (book.node.host.rows.load.any fun record => record.log == row.log) :=
        List.any_eq_true.mpr
          ⟨row.record name, mem_load.mpr ⟨row, hfound, rfl⟩, by simp [Row.record]⟩
      have hnot := (mem_filter.mp hmem).2
      rw [hrecorded] at hnot
      cases hnot
  · cases hs' with
    | up hup hs' =>
      cases hup
      cases hs' with
      | loading => trivial
      | absent => trivial
      | ended hentry => simp [AgentProcess.start, Agent.empty] at hentry
      | launching hlaunch => simp [AgentProcess.start, Agent.empty] at hlaunch
      | running hsup => simp [AgentProcess.start, Agent.empty] at hsup
    | down hup => trivial

/-! ## Runs -/

/-- An agent that starts sees every log, and no number is drawn that has none behind it. -/
def seesLogs (book : Logbook) : LogEvent → Bool
  | .boot seen _ => book.files.keys.all seen.contains
  | .draw _ => book.next + 1 < 2 ^ 64
  | _ => true

def SeesLogs (book : Logbook) (event : LogEvent) : Prop := book.seesLogs event = true

instance (book : Logbook) (event : LogEvent) : Decidable (book.SeesLogs event) :=
  inferInstanceAs (Decidable (_ = _))

theorem Sound.step {event : LogEvent} (hsees : book.SeesLogs event)
    (hstep : book.step subnet event = some later) : later.Sound subnet := by
  cases h.move_of_step hstep with
  | boot hseen hnode =>
    refine h.step_boot hseen (fun file hfile => ?_) hnode
    exact contains_iff_mem.mp
      (List.all_eq_true.mp hsees file (ExtTreeMap.mem_keys.mpr hfile))
  | removes hlog hsweeping hforgetting => exact h.step_removes hlog hsweeping hforgetting
  | draw hup => exact h.step_draw (of_decide_eq_true hsees) hup
  | node hst => exact h.step_node hst

end

theorem Sound.fresh (subnet : Subnet) : Logbook.fresh.Sound subnet := by
  have hdown {name s} (hs : Logbook.fresh.node.Stands name s) : s = .down := by
    cases hs with
    | down => rfl
    | up hup => cases hup
  refine ⟨.fresh subnet, fun hs => ?_, fun hfile => ?_, fun _ => ⟨rfl, rfl, rfl⟩, nofun, nofun,
    fun hrow => ?_, fun hs => ?_⟩
  · rw [hdown hs]
    trivial
  · exact absurd hfile ExtTreeMap.not_mem_empty
  · obtain ⟨row, hrow, -⟩ := hrow
    simp [Logbook.fresh, System.fresh, Host.empty] at hrow
  · rw [hdown hs]
    trivial

theorem Sound.of_run {schedule} (hsees : Along (Logbook.step subnet) SeesLogs .fresh schedule)
    (hrun : run (Logbook.step subnet) .fresh schedule = some book) : book.Sound subnet :=
  run_preserves (fun hsees h hstep => h.step hsees hstep) (.fresh subnet) hsees hrun

end Logbook

/-- The Node has a Running or Ended VM under the name, with this console log: one that is
recorded, in the table, or set aside by a launch whose VM is not recorded. -/
inductive System.Keeps (node : System) (name log : Str) : Prop
  | recorded (h : node.RecordsLog name log)
  | running {up info task} (hup : node.up = some up)
      (h : up.agent.vms[name]? = some (.running info log task))
  | ended {up info} (hup : node.up = some up) (h : up.agent.vms[name]? = some (.ended info log))
  | aside {up : AgentProcess} {task : Nat} {launch pc vm old} (hup : node.up = some up)
      (hlaunch : up.agent.launches[task]? = some launch) (hname : launch.name = name)
      (hpc : up.launching[task]? = some (pc, vm)) (hrecorded : pc.recorded = false)
      (hold : launch.setAside = some old) (hlog : old.log = log)

/-- A successful `rm` of the name: it deletes the record, or has done so and is left with
the log and the entry. -/
inductive System.Removes (node : System) (name : Str) : LogEvent → Prop
  | deletes {up opened} (hup : node.up = some up) (h : up.removing = some (name, .delete)) :
      System.Removes node name (.node (.removeStep .ok) opened)
  | deleted {up : AgentProcess} {event} (hup : node.up = some up)
      (h : up.removing = some (name, .erase)) : System.Removes node name event

/-- A successful run that replaces the Ended VM under the name: it is recorded. -/
inductive System.Replaces (node : System) (name log : Str) : LogEvent → Prop
  | mk {up task now launch old vm opened} (hup : node.up = some up)
      (hlaunch : up.agent.launches[task]? = some launch) (hname : launch.name = name)
      (hkind : launch.kind = .start (some old)) (hlog : old.log = log)
      (hpc : up.launching[task]? = some (.record, vm)) :
      System.Replaces node name log (.node (.launch task .ok now) opened)

section

variable {book later : Logbook}

/-- What a Node keeps is recorded, unless `rm` has deleted the record. -/
theorem Logbook.Sound.recordsLog_of_keeps (h : book.Sound subnet)
    (hkeeps : book.node.Keeps name log) :
    book.node.RecordsLog name log ∨
      ∃ up, book.node.up = some up ∧ up.removing = some (name, .erase) := by
  cases hkeeps with
  | recorded hrow => exact .inl hrow
  | running hup hentry =>
    obtain ⟨pc, vm, hs⟩ := h.reached.stands_of_running hup hentry
    exact .inl (h.stands hs)
  | @ended up info hup hentry =>
    by_cases herase : up.removal name = some .erase
    · exact .inr ⟨up, hup, up.removing_of_removal herase⟩
    · exact .inl ((h.stands (.up hup (.ended hentry))).2 herase)
  | aside hup hlaunch hname hpc hrecorded hold hlog =>
    have hlogged : book.LaunchLogged _ _ _ := h.stands (.up hup (.launching hlaunch hname hpc))
    exact .inl (hlog ▸ hlogged.aside hrecorded _ hold)

/-- Each entry's log carries its name. -/
theorem Logbook.Sound.entry_log (h : book.Sound subnet) (hup : book.node.up = some up)
    {entry} (hentry : up.agent.vms[name]? = some entry) : ∃ n, entry.log = logPath name n := by
  have hsound := h.reached.sound.up hup
  cases entry with
  | ended info log => exact (h.stands (.up hup (.ended hentry))).1
  | running info log task =>
    obtain ⟨pc, vm, hs⟩ := h.reached.stands_of_running hup hentry
    exact h.path_of_row (h.stands hs)
  | starting vmAddress log route =>
    obtain ⟨task, launch, hlaunch, rfl⟩ := hsound.owned.starting_launch hentry
    obtain ⟨pc, vm, hpc, -⟩ := hsound.launching hlaunch
    have hlogged : book.LaunchLogged _ _ _ := h.stands (.up hup (.launching hlaunch rfl hpc))
    cases hentry.symm.trans (hsound.owned.launch_entry hlaunch)
    by_cases hrecorded : pc.recorded
    · exact h.path_of_row (hlogged.recorded hrecorded)
    · cases hkind : launch.kind with
      | start replaced =>
        obtain ⟨n, hlog, -⟩ := (hlogged.start replaced hkind).numbered
        exact ⟨n, hlog⟩
      | wake parked =>
        exact h.path_of_row (hlogged.recordsLog_of_wake (by simpa using hrecorded) hkind)

/-- A recorded log stays the same file, and stays recorded, unless the step records a VM that
replaces it or deletes the record. -/
theorem Logbook.Sound.kept_of_step {event} (h : book.Sound subnet)
    (hstep : book.step subnet event = some later) (hrow : book.node.RecordsLog name log) :
    (later.files[log]? = book.files[log]? ∧ later.node.RecordsLog name log) ∨
      book.node.Removes name event ∨ book.node.Replaces name log event := by
  cases h.move_of_step hstep with
  | boot | draw => exact .inl ⟨rfl, hrow⟩
  | removes hlog =>
    refine .inl ⟨?_, hrow⟩
    unfold remove
    split
    · rfl
    · refine (lookup_erase ..).trans (if_neg ?_)
      rintro rfl
      exact hlog.elim (h.row hrow).sweeping (h.row hrow).forgetting
  | node hst =>
    have hfile := h.file_kept hst.toWritten hrow
    obtain ⟨s', hs'⟩ := (h.reached.step hst.node).exists_stands name
    obtain ⟨s, hs, hmove⟩ := h.reached.nameMove hst.node hs'
    cases hmove.rowLogMove with
    | same hrows => exact .inl ⟨hfile, (hrows log).mpr hrow⟩
    | @recorded task now launch vm hname hrows =>
      have hlogged : book.LaunchLogged _ _ _ := h.stands hs
      cases hkind : launch.kind with
      | wake parked =>
        have hlog := recordsLog_unique hrow (hlogged.recordsLog_of_wake rfl hkind)
        exact .inl ⟨hfile, (hrows log).mpr hlog⟩
      | start replaced =>
        cases replaced with
        | none =>
          obtain ⟨row, hfound, -⟩ := hrow
          cases hfound.symm.trans ((h.recorded hs).2 rfl (by rw [Launch.setAside, hkind]))
        | some old =>
          have hlog :=
            recordsLog_unique hrow (hlogged.aside rfl old (by rw [Launch.setAside, hkind]))
          obtain ⟨up, hup, hlaunch, hname, hpc⟩ := hs.of_launching
          exact .inr (.inr (.mk hup hlaunch hname hkind hlog.symm hpc))
    | deleted hrows =>
      generalize hremoval : some RemovePc.delete = removal at hs
      cases hs with
      | up hup hs =>
        cases hs with
        | ended hentry =>
          exact .inr (.inl (.deletes hup (AgentProcess.removing_of_removal _ hremoval.symm)))

end

/-- In a run whose agents see all logs when they start, no two entries share a log, and the
log of a Running or Ended VM stays the file it is, with its VM, over every step but a
successful `rm` of the name and the record of the run that replaces the VM. -/
theorem console_logs_lost_on_purpose {book : Logbook} {schedule : List LogEvent}
    (hsees : Along (Logbook.step subnet) Logbook.SeesLogs .fresh schedule)
    (hrun : run (Logbook.step subnet) .fresh schedule = some book) :
    (∀ (up : AgentProcess) (name other : Str) (entry entry' : Entry), book.node.up = some up →
      up.agent.vms[name]? = some entry → up.agent.vms[other]? = some entry' → name ≠ other →
        entry.log ≠ entry'.log) ∧
    ∀ (event : LogEvent) (next : Logbook) (name log : Str), book.step subnet event = some next →
      book.node.Keeps name log →
        (log ∈ book.files ∧ next.files[log]? = book.files[log]? ∧ next.node.Keeps name log) ∨
          book.node.Removes name event ∨ book.node.Replaces name log event := by
  have h := Logbook.Sound.of_run hsees hrun
  constructor
  · intro up name other entry entry' hup hentry hentry' hne hlog
    obtain ⟨n, hpath⟩ := h.entry_log hup hentry
    obtain ⟨m, hpath'⟩ := h.entry_log hup hentry'
    exact hne (logPath_inj (hpath.symm.trans (hlog.trans hpath'))).1
  · intro event next name log hstep hkeeps
    rcases h.recordsLog_of_keeps hkeeps with hrow | ⟨up, hup, herase⟩
    · rcases h.kept_of_step hstep hrow with ⟨hfile, hkept⟩ | hpurpose
      · exact .inl ⟨(h.row hrow).file, hfile, .recorded hkept⟩
      · exact .inr hpurpose
    · exact .inr (.inl (.deleted hup herase))

/-! ## A log that is lost, and one that is kept -/

/-- Steps of a Node, as steps of its logbook. -/
def LogEvent.nodes (events : List NodeEvent) : List LogEvent := events.map (.node · false)

/-- An agent starts, and its readings of the directory give `seen`. -/
def LogEvent.boots (seen : List Str) (steps : Nat) : List LogEvent :=
  .boot seen [] :: nodes (List.replicate steps (.bootStep .ok 0) ++ [.openSocket ∅])

/-- A VM starts, as task `task`, with the log of number `n`. -/
def LogEvent.starts (name : Str) (n task : Nat) : List LogEvent :=
  .draw name :: nodes
    (.runVm (.sample name none) (logPath name n) :: List.replicate 9 (.launch task .ok 0))

/-- A VM is stopped by force by its supervisor, the task `task`. -/
def LogEvent.stops (task : Nat) : List LogEvent :=
  nodes (.stop task .force :: List.replicate 7 (.supervise task .ok .exited 0))

/-- A run of `web` that fails once jailer was spawned. -/
def LogEvent.fails (task : Nat) : List LogEvent :=
  nodes (.launch task .failed 0 :: List.replicate 7 (.launch task .ok 0))

/-- A VM runs and ends, and the agent is killed. -/
def endedSchedule : List LogEvent :=
  LogEvent.boots [] 2 ++ LogEvent.starts "web" 0 0 ++ LogEvent.stops 1 ++
    [.node .crash false]

/-- The next agent can't read the directory when it sets its counter, and a run of the same
name is about to spawn jailer. -/
def blindSchedule : List LogEvent :=
  endedSchedule ++ LogEvent.boots [] 3 ++
    .draw "web" :: LogEvent.nodes
      [.runVm (.sample "web" none) "web.0.log", .launch 0 .ok 0]

/-- The run truncates the Ended VM's log, and removes it when it fails. -/
theorem ended_vm_log_lost :
    ∃ book next last, run (Logbook.step .sample) .fresh blindSchedule = some book ∧
      book.step .sample (.node (.launch 0 .ok 0) false) = some next ∧
      run (Logbook.step .sample) next
        (LogEvent.fails 0 ++ [.forget "web.0.log" .ok]) = some last ∧
      (∀ b ∈ [book, next, last], b.node.Keeps "web" "web.0.log") ∧
      book.files["web.0.log".toList]? = some 0 ∧ next.files["web.0.log".toList]? = some 1 ∧
      last.files["web.0.log".toList]? = none := by
  obtain ⟨book, hbook, next, hnext, last, hlast, hkeeps, hfiles⟩ : ∃ book,
      run (Logbook.step .sample) .fresh blindSchedule = some book ∧
      ∃ next, book.step .sample (.node (.launch 0 .ok 0) false) = some next ∧
      ∃ last, run (Logbook.step .sample) next
        (LogEvent.fails 0 ++ [.forget "web.0.log" .ok]) = some last ∧
      (∀ b ∈ [book, next, last], ∃ row, b.node.host.rows["web".toList]? = some row ∧
        row.log = "web.0.log") ∧
      book.files["web.0.log".toList]? = some 0 ∧ next.files["web.0.log".toList]? = some 1 ∧
      last.files["web.0.log".toList]? = none := by decide +kernel
  exact ⟨book, next, last, hbook, hnext, hlast, fun b hb => .recorded (hkeeps b hb), hfiles⟩

/-- The next agent sees the log, and the run that fails has one of its own to remove. -/
def sightedSchedule : List LogEvent :=
  endedSchedule ++ LogEvent.boots ["web.0.log"] 3 ++
    .draw "web" :: LogEvent.nodes
      [.runVm (.sample "web" none) "web.1.log", .launch 0 .ok 0, .launch 0 .ok 0] ++
    LogEvent.fails 0

/-- The theorem applies: the failed run leaves the Ended VM's log. -/
theorem ended_vm_log_kept :
    ∃ book next, run (Logbook.step .sample) .fresh sightedSchedule = some book ∧
      book.step .sample (.forget "web.1.log" .ok) = some next ∧
      "web.1.log".toList ∉ next.files ∧
      next.files["web.0.log".toList]? = book.files["web.0.log".toList]? ∧
      next.node.Keeps "web" "web.0.log" := by
  have hsees : Along (Logbook.step .sample) Logbook.SeesLogs .fresh sightedSchedule := by
    decide +kernel
  obtain ⟨book, hbook, hrow, hidle, next, hnext, hgone⟩ : ∃ book,
      run (Logbook.step .sample) .fresh sightedSchedule = some book ∧
      (∃ row, book.node.host.rows["web".toList]? = some row ∧ row.log = "web.0.log") ∧
      (∃ up, book.node.up = some up ∧ up.removing = none) ∧
      ∃ next, book.step .sample (.forget "web.1.log" .ok) = some next ∧
        "web.1.log".toList ∉ next.files := by decide +kernel
  refine ⟨book, next, hbook, hnext, hgone, ?_⟩
  rcases (console_logs_lost_on_purpose hsees hbook).2 _ next _ _ hnext (.recorded hrow) with
    hkept | hremoves | hreplaces
  · exact hkept.2
  · cases hremoves with
    | deleted hup hremoving =>
      obtain ⟨up, hup', hidle⟩ := hidle
      cases hup.symm.trans hup'
      cases hremoving.symm.trans hidle
  · cases hreplaces

end Cirrocumulus.Node
