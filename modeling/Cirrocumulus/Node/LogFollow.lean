/-
# Following a console log

`cirro logs` polls the agent. Each poll asks for the log from the offset that the CLI has
come to, and the agent answers with the VM's state and at most `LOG_CHUNK` bytes. The agent
looks the state up first and reads the file afterwards, as far as it gets, while the console
goes on writing. A full chunk makes the CLI ask again at once. A short one is where the log
ended as it was read: a plain `logs` stops there, and a follow stops there if the VM had
ended before the read.

The log is one file, which the VM's start may have yet to create. Nothing is appended to it
once the VM has ended.
-/

import Mathlib.Algebra.Group.Nat.Defs
import Mathlib.Data.List.Infix
import Cirrocumulus.Lib.Runs

namespace Cirrocumulus.Node

open Lib List Option

variable {ended : Bool} {file : Option (List UInt8)}

def logChunk : Nat := 2 ^ 20

/-- Where a poll stands. `ended` is the state that the agent looked up. -/
inductive Poll
  /-- The CLI has sent its request. -/
  | asked
  | looked (ended : Bool)
  /-- `read_log` has opened the file and read so much. -/
  | reading (ended : Bool) (bytes : List UInt8)
  /-- The CLI has an answer of so many bytes, and has yet to write the rest. -/
  | printing (ended : Bool) (length : Nat) (rest : List UInt8)
  /-- `logs` has returned. -/
  | returned
  deriving DecidableEq

structure Follow where
  /-- The log, once it is created. -/
  file : Option (List UInt8)
  /-- The VM has ended. -/
  ended : Bool
  /-- The CLI's `offset`. -/
  offset : Nat
  /-- What the CLI has written. -/
  out : List UInt8
  poll : Poll
  deriving DecidableEq

inductive FollowEvent
  | create
  /-- The console writes. -/
  | append (bytes : List UInt8)
  | vmEnds
  /-- The agent looks the VM's state up. -/
  | look
  | openLog
  /-- The agent reads so many bytes more. -/
  | read (n : Nat)
  /-- The read comes to the end of the log or of the chunk. -/
  | answer
  /-- The CLI writes so many bytes. -/
  | print (n : Nat)
  /-- The CLI has written the answer. -/
  | next

namespace Follow

/-- `logs` starts. -/
def start (file : Option (List UInt8)) (ended : Bool) : Follow := ⟨file, ended, 0, [], .asked⟩

variable (s : Follow)

/-- The log's bytes: none before it is created. -/
def log : List UInt8 := s.file.getD []

/-- What the agent has yet to read, from where it is. -/
def unread (bytes : List UInt8) : List UInt8 := s.log.drop (s.offset + bytes.length)

def step (follow : Bool) (s : Follow) : FollowEvent → Option Follow
  | .create => if s.file = none ∧ ¬ s.ended then some { s with file := some [] } else none
  | .append bytes =>
    if s.ended then none else s.file.map fun log => { s with file := some (log ++ bytes) }
  | .vmEnds => some { s with ended := true }
  | .look => if s.poll = .asked then some { s with poll := .looked s.ended } else none
  | .openLog =>
    match s.poll with
    | .looked ended =>
      -- A log that can't be opened reads as empty.
      if s.file = none then some { s with poll := .printing ended 0 [] }
      else some { s with poll := .reading ended [] }
    | _ => none
  | .read n =>
    match s.poll with
    | .reading ended bytes =>
      if n ≤ logChunk - bytes.length then
        some { s with poll := .reading ended (bytes ++ (s.unread bytes).take n) }
      else none
    | _ => none
  | .answer =>
    match s.poll with
    | .reading ended bytes =>
      if bytes.length = logChunk ∨ s.unread bytes = [] then
        some { s with poll := .printing ended bytes.length bytes }
      else none
    | _ => none
  | .print n =>
    match s.poll with
    | .printing ended length rest =>
      some { s with out := s.out ++ rest.take n, poll := .printing ended length (rest.drop n) }
    | _ => none
  | .next =>
    match s.poll with
    | .printing ended length [] =>
      some { s with
        offset := s.offset + length
        poll := if length = logChunk then .asked
          else if !follow || ended then .returned else .asked }
    | _ => none

/-! ## Nothing lost, nothing twice -/

/-- An answer that is short came to the end of the log: it reaches as far as the log did when
the command started, and to the very end if the VM had ended. -/
structure Short (start : List UInt8) (ended : Bool) (got : List UInt8) : Prop where
  start : start <+: got
  ended : ended → s.ended ∧ got = s.log

/-- What a poll has come to, for a log that was `start` when the command started. -/
def Polled (follow : Bool) (start : List UInt8) : Prop :=
  match s.poll with
  | .asked => s.out.length = s.offset
  | .looked ended => s.out.length = s.offset ∧ (ended = true → s.ended = true)
  | .reading ended bytes =>
    s.out.length = s.offset ∧ (ended = true → s.ended = true) ∧ s.out ++ bytes <+: s.log
  | .printing ended length rest =>
    s.out.length + rest.length = s.offset + length ∧ s.out ++ rest <+: s.log ∧
      (length ≠ logChunk → s.Short start ended (s.out ++ rest))
  | .returned => start <+: s.out ∧ (follow = true → s.ended = true ∧ s.out = s.log)

structure Sound (follow : Bool) (start : List UInt8) : Prop where
  grown : start <+: s.log
  written : s.out <+: s.log
  polled : s.Polled follow start

namespace Sound

variable {s} {follow : Bool} {start : List UInt8}

theorem of_start (hfile : file.getD [] = start) : Sound (.start file ended) follow start where
  grown := by
    rw [← hfile]
    exact prefix_rfl
  written := nil_prefix
  polled := rfl

variable (h : s.Sound follow start)
include h

/-- The log grows or the VM ends. The log of a VM that has ended stays as it is. -/
theorem later (hlog : s.log <+: file.getD [])
    (hended : s.ended → ended ∧ file.getD [] = s.log) :
    Sound { s with file, ended } follow start where
  grown := h.grown.trans hlog
  written := h.written.trans hlog
  polled := by
    have hpolled := h.polled
    unfold Polled at hpolled ⊢
    split at hpolled
    case h_1 heq => simpa only [heq] using hpolled
    case h_2 heq =>
      simp only [heq]
      exact ⟨hpolled.1, fun hlooked => (hended (hpolled.2 hlooked)).1⟩
    case h_3 heq =>
      obtain ⟨hlength, hlooked, hprefix⟩ := hpolled
      simp only [heq]
      exact ⟨hlength, fun hended' => (hended (hlooked hended')).1, hprefix.trans hlog⟩
    case h_4 heq =>
      obtain ⟨hlength, hprefix, hshort⟩ := hpolled
      simp only [heq]
      refine ⟨hlength, hprefix.trans hlog, fun hne => ⟨(hshort hne).start, fun hlooked => ?_⟩⟩
      obtain ⟨hover, hall⟩ := (hshort hne).ended hlooked
      exact ⟨(hended hover).1, hall.trans (hended hover).2.symm⟩
    case h_5 heq =>
      simp only [heq]
      refine ⟨hpolled.1, fun hfollow => ?_⟩
      obtain ⟨hover, hall⟩ := hpolled.2 hfollow
      exact ⟨(hended hover).1, hall.trans (hended hover).2.symm⟩

/-- The poll goes on, and nothing is written. -/
theorem moves {poll} (hpoll : Polled { s with poll } follow start) :
    Sound { s with poll } follow start :=
  ⟨h.grown, h.written, hpoll⟩

theorem look (hpoll : s.poll = .asked) : Sound { s with poll := .looked s.ended } follow start := by
  have hpolled := h.polled
  simp only [Polled, hpoll] at hpolled
  exact h.moves ⟨hpolled, id⟩

theorem openMissing (hpoll : s.poll = .looked ended) (hfile : s.file = none) :
    Sound { s with poll := .printing ended 0 [] } follow start := by
  have hpolled := h.polled
  simp only [Polled, hpoll] at hpolled
  have hlog : s.log = [] := by rw [log, hfile]; rfl
  have hout : s.out = [] := prefix_nil.mp (hlog ▸ h.written)
  have hstart : start = [] := prefix_nil.mp (hlog ▸ h.grown)
  apply h.moves
  refine ⟨hpolled.1, ?_, fun _ => ⟨?_, fun hended => ⟨hpolled.2 hended, ?_⟩⟩⟩
  · simp [hout]
  · simp [hstart]
  · show s.out ++ [] = s.log
    rw [hout, hlog, append_nil]

theorem openLog (hpoll : s.poll = .looked ended) :
    Sound { s with poll := .reading ended [] } follow start := by
  have hpolled := h.polled
  simp only [Polled, hpoll] at hpolled
  refine h.moves ⟨hpolled.1, hpolled.2, ?_⟩
  rw [append_nil]
  exact h.written

/-- The agent goes on where it is: behind what the CLI has and what it has read. -/
theorem read {bytes} (hpoll : s.poll = .reading ended bytes) (n : Nat) :
    Sound { s with poll := .reading ended (bytes ++ (s.unread bytes).take n) } follow start := by
  have hpolled := h.polled
  simp only [Polled, hpoll] at hpolled
  obtain ⟨hlength, hended, rest, hrest⟩ := hpolled
  refine h.moves ⟨hlength, hended, ?_⟩
  have hunread : s.unread bytes = rest := by
    rw [unread, ← hlength, ← length_append, ← hrest, drop_left]
  rw [hunread, ← append_assoc]
  show _ <+: s.log
  rw [← hrest, prefix_append_right_inj]
  exact take_prefix n rest

theorem answer {bytes} (hpoll : s.poll = .reading ended bytes)
    (hdone : bytes.length = logChunk ∨ s.unread bytes = []) :
    Sound { s with poll := .printing ended bytes.length bytes } follow start := by
  have hpolled := h.polled
  simp only [Polled, hpoll] at hpolled
  obtain ⟨hlength, hended, hprefix⟩ := hpolled
  apply h.moves
  refine ⟨by rw [← hlength], hprefix, fun hshort => ?_⟩
  have hall : s.out ++ bytes = s.log := by
    apply hprefix.eq_of_length_le
    have hunread := hdone.resolve_left hshort
    rw [unread, drop_eq_nil_iff, ← hlength] at hunread
    rwa [length_append]
  constructor
  · rw [hall]
    exact h.grown
  · exact fun heq => ⟨hended heq, hall⟩

theorem print {length rest} (hpoll : s.poll = .printing ended length rest) (n : Nat) :
    Sound { s with out := s.out ++ rest.take n, poll := .printing ended length (rest.drop n) }
      follow start := by
  have hpolled := h.polled
  simp only [Polled, hpoll] at hpolled
  obtain ⟨hlength, hprefix, hshort⟩ := hpolled
  have hsame : s.out ++ rest.take n ++ rest.drop n = s.out ++ rest := by
    rw [append_assoc, take_append_drop]
  refine ⟨h.grown, ?_, ?_, ?_, ?_⟩
  · apply List.IsPrefix.trans _ hprefix
    rw [prefix_append_right_inj]
    exact take_prefix n rest
  · rw [← hlength, ← length_append, hsame, length_append]
  · show s.out ++ rest.take n ++ rest.drop n <+: s.log
    rwa [hsame]
  · intro hne
    show Short _ start ended (s.out ++ rest.take n ++ rest.drop n)
    rw [hsame]
    exact ⟨(hshort hne).start, (hshort hne).ended⟩

theorem next {length} (hpoll : s.poll = .printing ended length []) :
    Sound { s with
      offset := s.offset + length
      poll := if length = logChunk then .asked
        else if !follow || ended then .returned else .asked } follow start := by
  have hpolled := h.polled
  simp only [Polled, hpoll, append_nil, length_nil, Nat.add_zero] at hpolled
  obtain ⟨hlength, -, hshort⟩ := hpolled
  refine ⟨h.grown, h.written, ?_⟩
  by_cases hfull : length = logChunk
  · simpa only [Polled, if_pos hfull] using hlength
  · obtain ⟨hstart, hended⟩ := hshort hfull
    cases hreturn : !follow || ended with
    | false => simpa only [Polled, if_neg hfull, Bool.false_eq_true, if_false] using hlength
    | true =>
      simp only [Polled, if_neg hfull, if_true]
      refine ⟨hstart, fun hfollow => hended ?_⟩
      simpa [hfollow] using hreturn

theorem step {s' event} (hstep : s.step follow event = some s') : s'.Sound follow start := by
  cases event with
  | create =>
    obtain ⟨⟨hfile, hrunning⟩, rfl⟩ := ite_some_none_eq_some.mp hstep
    refine h.later ?_ fun hended => absurd hended hrunning
    rw [log, hfile]
    exact nil_prefix
  | append bytes =>
    obtain ⟨hrunning, hstep⟩ := ite_none_left_eq_some.mp hstep
    obtain ⟨log, hlog, rfl⟩ := map_eq_some_iff.mp hstep
    refine h.later ?_ fun hended => absurd hended hrunning
    rw [Follow.log, hlog]
    exact prefix_append log bytes
  | vmEnds =>
    cases hstep
    exact h.later prefix_rfl fun _ => ⟨rfl, rfl⟩
  | look =>
    obtain ⟨hpoll, rfl⟩ := ite_some_none_eq_some.mp hstep
    exact h.look hpoll
  | openLog =>
    simp only [Follow.step] at hstep
    split at hstep
    case h_2 => cases hstep
    case h_1 ended hpoll =>
      split at hstep
      case isTrue hfile =>
        cases hstep
        exact h.openMissing hpoll hfile
      case isFalse =>
        cases hstep
        exact h.openLog hpoll
  | read n =>
    simp only [Follow.step] at hstep
    split at hstep
    case h_2 => cases hstep
    case h_1 ended bytes hpoll =>
      obtain ⟨-, rfl⟩ := ite_some_none_eq_some.mp hstep
      exact h.read hpoll n
  | answer =>
    simp only [Follow.step] at hstep
    split at hstep
    case h_2 => cases hstep
    case h_1 ended bytes hpoll =>
      obtain ⟨hdone, rfl⟩ := ite_some_none_eq_some.mp hstep
      exact h.answer hpoll hdone
  | print n =>
    simp only [Follow.step] at hstep
    split at hstep
    case h_2 => cases hstep
    case h_1 ended length rest hpoll =>
      cases hstep
      exact h.print hpoll n
  | next =>
    simp only [Follow.step] at hstep
    split at hstep
    case h_2 => cases hstep
    case h_1 ended length hpoll =>
      cases hstep
      exact h.next hpoll

omit h in
theorem of_run {schedule}
    (hrun : run (Follow.step follow) (.start file ended) schedule = some s) :
    s.Sound follow (file.getD []) :=
  run_preserves_all (fun h hstep => step h hstep) (of_start rfl) hrun

end Sound

end Follow

end Cirrocumulus.Node
