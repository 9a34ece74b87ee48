/-
# Paths of an image layer

A layer's tar names its entries by Unix paths, which are arbitrary bytes. The
image's own tree is keyed by normalised strings: relative, without `.` or `..`,
with single slashes. This module follows the three functions that go between
the two, `normalise`, `split` and `join`.

A path read from a tar need not be UTF-8: it is the
sequence that decoding it yields, where each maximal undecodable chunk stands by
itself. A slash is ASCII, so cutting at slashes and decoding commute.
-/

import Cirrocumulus.Lib.Text

namespace Cirrocumulus.Image

open List

/-- One unit of a path as the operating system gives it. -/
inductive OsChar
  | char (c : Char)
  /-- A maximal chunk of bytes that is not UTF-8. -/
  | invalid (bytes : List UInt8)
  deriving DecidableEq

/-- A Unix path or path component. -/
abbrev OsStr := List OsChar

/-- A path that is UTF-8. -/
def OsStr.ofStr (s : Str) : OsStr := s.map .char

/-- `OsStr::to_str`: the string, if all of it is UTF-8. -/
def OsStr.toStr : OsStr → Option Str
  | [] => some []
  | .char c :: rest => (toStr rest).map (c :: ·)
  | .invalid _ :: _ => none

/-- `Path::display`: each undecodable chunk shows as one replacement char. -/
def OsStr.display (path : OsStr) : Str :=
  path.map fun unit => match unit with
    | .char c => c
    | .invalid _ => '�'

/-- `std::path::Component` on Unix, where no path has a prefix. -/
inductive Component
  | rootDir
  | curDir
  | parentDir
  | normal (part : OsStr)
  deriving DecidableEq

/-- One part between two slashes. An empty part (repeated or trailing slashes)
and an inner `.` are no components. -/
def componentOf (part : OsStr) : Option Component :=
  if part = [] ∨ part = [.char '.'] then none
  else if part = [.char '.', .char '.'] then some .parentDir
  else some (.normal part)

/-- `Path::components`. A leading slash is the root, and a `.` that starts a
relative path is kept as the current directory. -/
def components (path : OsStr) : List Component :=
  let parts := path.splitOn (.char '/')
  let start : List Component :=
    if path.head? = some (.char '/') then [.rootDir]
    else if parts.head? = some [.char '.'] then [.curDir]
    else []
  start ++ parts.filterMap componentOf

/-- The loop of `normalise`: the parts pushed so far stay in front. -/
def normaliseParts (path : OsStr) : List Component → Except Str (List Str)
  | [] => .ok []
  | .normal part :: rest =>
    match part.toStr with
    | none => .error (path.display ++ " isn't UTF-8")
    | some part => (normaliseParts path rest).map (part :: ·)
  | .rootDir :: rest | .curDir :: rest => normaliseParts path rest
  | .parentDir :: _ => .error (path.display ++ " leaves the image root")

/-- `path` relative to the image root, without `.` components, or an error if it
would leave the root. -/
def normalise (path : OsStr) : Except Str Str :=
  (normaliseParts path (components path)).map (['/'].intercalate ·)

/-- `path`'s parent and final component; the parent of a top-level entry is
empty. -/
def split (path : Str) : Str × Str := (rsplitOnce '/' path).getD ([], path)

def join (dir name : Str) : Str :=
  if dir.isEmpty then name else dir ++ '/' :: name

/-! ## Normalised paths -/

/-- A path component that stays: not empty, and neither `.` nor `..`. -/
def IsPart (part : Str) : Prop := part ≠ [] ∧ part ≠ ['.'] ∧ part ≠ ['.', '.']

/-- A path as `normalise` returns it: the root, which is empty, or parts joined
by single slashes. -/
def Normalised (path : Str) : Prop :=
  path = [] ∨ ∀ part ∈ path.splitOn '/', IsPart part

instance (part : Str) : Decidable (IsPart part) := inferInstanceAs (Decidable (_ ∧ _ ∧ _))

instance (path : Str) : Decidable (Normalised path) := inferInstanceAs (Decidable (_ ∨ _))

theorem OsStr.toStr_eq_some {part s} : part.toStr = some s ↔ part = ofStr s := by
  induction part generalizing s with
  | nil => cases s <;> simp [toStr, ofStr]
  | cons unit rest ih =>
    cases unit with
    | char c => cases s <;> simp [toStr, ofStr, ih, and_comm]
    | invalid bytes => cases s <;> simp [toStr, ofStr]

/-- What the loop of `normalise` pushes. -/
theorem normaliseParts_isPart {path} {parts : List OsStr} {result}
    (hsep : ∀ part ∈ parts, OsChar.char '/' ∉ part)
    (h : normaliseParts path (parts.filterMap componentOf) = .ok result) :
    ∀ part ∈ result, IsPart part ∧ '/' ∉ part := by
  induction parts generalizing result with
  | nil =>
    cases h
    simp
  | cons part parts ih =>
    have hrest := fun other hother => hsep other (mem_cons_of_mem part hother)
    by_cases hskip : part = [] ∨ part = [.char '.']
    · rw [filterMap_cons_none (by simp [componentOf, hskip])] at h
      exact ih hrest h
    · by_cases hup : part = [.char '.', .char '.']
      · have hcomp : componentOf part = some .parentDir := by simp [componentOf, hup]
        rw [filterMap_cons_some hcomp] at h
        cases h
      · have hcomp : componentOf part = some (.normal part) := by
          simp [componentOf, hskip, hup]
        rw [filterMap_cons_some hcomp] at h
        simp only [normaliseParts] at h
        split at h
        · cases h
        · rename_i s hs
          rw [OsStr.toStr_eq_some] at hs
          subst hs
          obtain ⟨tail, htail, rfl⟩ := except_map_eq_ok.mp h
          intro other hother
          rcases mem_cons.mp hother with rfl | hother
          · refine ⟨⟨?_, ?_, ?_⟩, ?_⟩
            · rintro rfl
              exact hskip (.inl rfl)
            · rintro rfl
              exact hskip (.inr rfl)
            · rintro rfl
              exact hup rfl
            · intro hmem
              exact hsep _ mem_cons_self (mem_map_of_mem hmem)
          · exact ih hrest htail other hother

/-- The root and a leading `.` push nothing. -/
theorem normaliseParts_components (path : OsStr) :
    normaliseParts path (components path) =
      normaliseParts path ((path.splitOn (.char '/')).filterMap componentOf) := by
  unfold components
  dsimp only
  split
  · rfl
  · split <;> rfl

/-- What `normalise` accepts, it returns normalised. -/
theorem normalised_of_normalise {path} {result : Str}
    (h : normalise path = .ok result) : Normalised result := by
  rw [normalise, normaliseParts_components] at h
  obtain ⟨parts, hparts, rfl⟩ := except_map_eq_ok.mp h
  have hall := normaliseParts_isPart (fun part hpart => not_mem_of_mem_splitOn hpart) hparts
  by_cases hnil : parts = []
  · subst hnil
    exact .inl rfl
  · right
    rw [splitOn_intercalate '/' (fun part hpart => (hall part hpart).2) hnil]
    exact fun part hpart => (hall part hpart).1

/-- Behind a slash of a normalised path there is more of it, which does not start
with another slash. -/
theorem Normalised.behind_slash {dir rest} (h : Normalised (dir ++ '/' :: rest)) :
    rest ≠ [] ∧ rest.head? ≠ some '/' := by
  rcases h with h | h
  · simp at h
  · rw [splitOn_append_cons_self] at h
    constructor
    · rintro rfl
      exact (h [] (by simp)).1 rfl
    · intro hhead
      obtain ⟨rest, rfl⟩ : ∃ tail, rest = '/' :: tail := by
        cases rest with
        | nil => simp at hhead
        | cons c tail => exact ⟨tail, by simpa using hhead⟩
      exact (h [] (by simp [splitOn_cons_eq_if_modifyHead])).1 rfl

end Cirrocumulus.Image
