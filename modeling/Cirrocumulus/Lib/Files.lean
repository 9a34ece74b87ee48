/-
# Directories of files, and files that move between them

A filesystem as far as renames see it: directories that exist or do not, and in each
the contents of its files by name. A list of renames takes files from one directory
into another, each under a name of its own, and goes on behind a rename that fails.
What such a list did is read off file by file: as long as no name stands in it twice,
no rename of the list sees what another did.
-/

import Cirrocumulus.Lib.Text

namespace Cirrocumulus.Lib

open List Option

universe u v w

/-- The directories, and in each directory that exists the contents of its files. -/
structure Files (δ : Type u) (ν : Type v) (γ : Type w) where
  dirs : δ → Option (ν → Option γ)

/-- One rename of a list: the file's name, the name it gets in the other directory, and
whether the filesystem lets it happen. -/
structure Rename (ν : Type v) where
  name : ν
  newName : ν
  allowed : Bool

namespace Files

variable {δ : Type u} {ν : Type v} {γ : Type w}

def hasDir (files : Files δ ν γ) (dir : δ) : Bool :=
  (files.dirs dir).isSome

/-- The contents of a file, if there is such a file. -/
def get (files : Files δ ν γ) (dir : δ) (name : ν) : Option γ :=
  (files.dirs dir).bind fun inside => inside name

theorem get_of_not_hasDir (files : Files δ ν γ) {dir} (h : files.hasDir dir = false) (name : ν) :
    files.get dir name = none := by
  rw [get, not_isSome_iff_eq_none.mp (Bool.eq_false_iff.mp h), bind_none]

theorem hasDir_of_get_isSome (files : Files δ ν γ) {dir name}
    (h : (files.get dir name).isSome) : files.hasDir dir := by
  cases hfiles : files.dirs dir with
  | none => simp [get, hfiles] at h
  | some inside => simp [hasDir, hfiles]

/-! ## Whole directories -/

section Directories

variable [DecidableEq δ]

/-- Make a directory unless it exists. -/
def createDir (files : Files δ ν γ) (dir : δ) : Files δ ν γ :=
  ⟨Function.update files.dirs dir (some ((files.dirs dir).getD fun _ => none))⟩

/-- Remove a directory with everything in it. -/
def removeDir (files : Files δ ν γ) (dir : δ) : Files δ ν γ :=
  ⟨Function.update files.dirs dir none⟩

variable (files : Files δ ν γ) {dir other : δ} {name : ν}

@[simp]
theorem get_createDir : (files.createDir dir).get other name = files.get other name := by
  by_cases h : other = dir
  · subst h
    cases hfiles : files.dirs other <;> simp [get, createDir, hfiles]
  · simp [get, createDir, h]

theorem hasDir_createDir_of_ne (h : other ≠ dir) :
    (files.createDir dir).hasDir other = files.hasDir other := by
  simp [hasDir, createDir, h]

@[simp]
theorem hasDir_createDir_self : (files.createDir dir).hasDir dir := by
  simp [hasDir, createDir]

@[simp]
theorem hasDir_removeDir_self : (files.removeDir dir).hasDir dir = false := by
  simp [hasDir, removeDir]

theorem get_removeDir_of_ne (h : other ≠ dir) :
    (files.removeDir dir).get other name = files.get other name := by
  simp [get, removeDir, h]

end Directories

/-! ## Single files -/

variable [DecidableEq δ] [DecidableEq ν]

/-- Write a file, or remove it. Nothing can be put into a directory that does not exist. -/
def put (files : Files δ ν γ) (dir : δ) (name : ν) (content : Option γ) : Files δ ν γ :=
  ⟨Function.update files.dirs dir
    ((files.dirs dir).map fun inside => Function.update inside name content)⟩

/-- Whether a rename from `old` to `new` takes place. -/
def moves (files : Files δ ν γ) (old new : δ) (item : Rename ν) : Bool :=
  item.allowed && files.hasDir new && (files.get old item.name).isSome

/-- One rename, which replaces a file that has the new name. -/
def rename (files : Files δ ν γ) (old new : δ) (item : Rename ν) : Files δ ν γ :=
  if files.moves old new item then
    (files.put old item.name none).put new item.newName (files.get old item.name)
  else files

/-- Every rename of a list is tried; the flag says whether all of them took place. -/
def moveFiles (files : Files δ ν γ) (old new : δ) : List (Rename ν) → Files δ ν γ × Bool
  | [] => (files, true)
  | item :: rest =>
    let (moved, ok) := moveFiles (files.rename old new item) old new rest
    (moved, files.moves old new item && ok)

section Single

variable (files : Files δ ν γ) {dir other : δ} {name : ν}

@[simp]
theorem hasDir_put (content : Option γ) :
    (files.put dir name content).hasDir other = files.hasDir other := by
  by_cases h : other = dir
  · subst h
    simp [hasDir, put]
  · simp [hasDir, put, h]

theorem get_put_of_ne {content name'} (h : ¬(other = dir ∧ name' = name)) :
    (files.put dir name content).get other name' = files.get other name' := by
  by_cases hdir : other = dir
  · subst hdir
    have hname : name' ≠ name := fun heq => h ⟨rfl, heq⟩
    cases hfiles : files.dirs other <;> simp [get, put, hfiles, hname]
  · simp [get, put, hdir]

theorem get_put_self {content} (h : files.hasDir dir) :
    (files.put dir name content).get dir name = content := by
  obtain ⟨inside, hinside⟩ := isSome_iff_exists.mp h
  simp [get, put, hinside]

end Single

/-! ## Renames -/

section Moving

variable (files : Files δ ν γ) {old new : δ} {item : Rename ν}

@[simp]
theorem hasDir_rename (dir : δ) : (files.rename old new item).hasDir dir = files.hasDir dir := by
  unfold rename
  split <;> simp

/-- A rename touches the file it moves and the file it makes, and no other. -/
theorem get_rename_of_ne {dir name} (hold : ¬(dir = old ∧ name = item.name))
    (hnew : ¬(dir = new ∧ name = item.newName)) :
    (files.rename old new item).get dir name = files.get dir name := by
  unfold rename
  split
  · rw [get_put_of_ne _ hnew, get_put_of_ne _ hold]
  · rfl

theorem get_rename_new (hmoves : files.moves old new item) :
    (files.rename old new item).get new item.newName = files.get old item.name := by
  rw [rename, if_pos hmoves]
  apply get_put_self
  simp only [moves, Bool.and_eq_true] at hmoves
  simpa using hmoves.1.2

theorem get_rename_old (hdirs : old ≠ new) (hmoves : files.moves old new item) :
    (files.rename old new item).get old item.name = none := by
  rw [rename, if_pos hmoves, get_put_of_ne _ fun h => hdirs h.1]
  apply get_put_self
  simp only [moves, Bool.and_eq_true] at hmoves
  exact files.hasDir_of_get_isSome hmoves.2

theorem rename_of_not_moves (hmoves : files.moves old new item = false) :
    files.rename old new item = files := by
  simp [rename, hmoves]

theorem rename_self (hname : item.name = item.newName) : files.rename old old item = files := by
  unfold rename
  split
  · rename_i hmoves
    simp only [moves, Bool.and_eq_true] at hmoves
    obtain ⟨inside, hinside⟩ := isSome_iff_exists.mp hmoves.1.2
    have hdirs : files.dirs = Function.update files.dirs old (some inside) := by
      rw [← hinside, Function.update_eq_self]
    simp [put, get, hinside, ← hname, ← hdirs]
  · rfl

/-- A rename of other names is no matter to this one. -/
theorem moves_rename {item'} (hdirs : old ≠ new) (hname : item.name ≠ item'.name) :
    (files.rename old new item').moves old new item = files.moves old new item := by
  unfold moves
  rw [hasDir_rename, get_rename_of_ne]
  · exact fun h => hname h.2
  · exact fun h => hdirs h.1

@[simp]
theorem hasDir_moveFiles (items : List (Rename ν)) (dir : δ) :
    (files.moveFiles old new items).1.hasDir dir = files.hasDir dir := by
  induction items generalizing files with
  | nil => rfl
  | cons first rest ih => exact (ih _).trans (files.hasDir_rename dir)

/-- A list of renames touches the files it moves and the files it makes, and no others. -/
theorem get_moveFiles_of_ne {items : List (Rename ν)} {dir name}
    (hold : dir = old → name ∉ items.map Rename.name)
    (hnew : dir = new → name ∉ items.map Rename.newName) :
    (files.moveFiles old new items).1.get dir name = files.get dir name := by
  induction items generalizing files with
  | nil => rfl
  | cons first rest ih =>
    simp only [map_cons, mem_cons, not_or] at hold hnew
    have hrest := ih (files.rename old new first) (fun h => (hold h).2) fun h => (hnew h).2
    rw [moveFiles]
    exact hrest.trans (files.get_rename_of_ne (fun h => (hold h.1).1 h.2)
      fun h => (hnew h.1).1 h.2)

end Moving

section Lists

variable {files : Files δ ν γ} {old new : δ} {items : List (Rename ν)} {item : Rename ν}

/-- A list of renames leaves at both ends of one of them what that rename alone would: no
name of the list stands in it twice. -/
theorem get_moveFiles (files : Files δ ν γ) (hdirs : old ≠ new)
    (hnames : (items.map Rename.name).Nodup)
    (hnewNames : (items.map Rename.newName).Nodup) (hitem : item ∈ items) :
    (files.moveFiles old new items).1.get old item.name =
        (if files.moves old new item then none else files.get old item.name) ∧
      (files.moveFiles old new items).1.get new item.newName =
        if files.moves old new item then files.get old item.name
        else files.get new item.newName := by
  induction items generalizing files with
  | nil => cases hitem
  | cons first rest ih =>
    simp only [map_cons, nodup_cons] at hnames hnewNames
    rw [moveFiles]
    rcases mem_cons.mp hitem with rfl | hrest
    · -- the rest of the list has neither of its names
      rw [get_moveFiles_of_ne _ (fun _ => hnames.1) fun h => absurd h hdirs,
        get_moveFiles_of_ne _ (fun h => absurd h.symm hdirs) fun _ => hnewNames.1]
      split
      · rename_i hmoves
        exact ⟨files.get_rename_old hdirs hmoves, files.get_rename_new hmoves⟩
      · rename_i hmoves
        rw [files.rename_of_not_moves (Bool.eq_false_iff.mpr hmoves)]
        exact ⟨rfl, rfl⟩
    · have hname : item.name ≠ first.name := fun h =>
        hnames.1 (h ▸ List.mem_map_of_mem hrest)
      have hnewName : item.newName ≠ first.newName := fun h =>
        hnewNames.1 (h ▸ List.mem_map_of_mem hrest)
      rw [(ih _ hnames.2 hnewNames.2 hrest).1, (ih _ hnames.2 hnewNames.2 hrest).2,
        files.moves_rename hdirs hname,
        files.get_rename_of_ne (fun h => hname h.2) fun h => hdirs h.1,
        files.get_rename_of_ne (fun h => hdirs h.1.symm) fun h => hnewName h.2]
      exact ⟨rfl, rfl⟩

/-- The flag says that every rename took place. -/
theorem moveFiles_ok (hdirs : old ≠ new) (hnames : (items.map Rename.name).Nodup) :
    (files.moveFiles old new items).2 ↔
      ∀ item ∈ items, files.moves old new item := by
  induction items generalizing files with
  | nil => simp [moveFiles]
  | cons first rest ih =>
    simp only [map_cons, nodup_cons] at hnames
    rw [moveFiles, Bool.and_eq_true, ih hnames.2, forall_mem_cons]
    refine and_congr_right' (forall₂_congr fun item hitem => ?_)
    rw [files.moves_rename hdirs fun h => hnames.1 (h ▸ List.mem_map_of_mem hitem)]

/-- Renames that all took place leave every file under its new name. -/
theorem get_moveFiles_of_ok (hdirs : old ≠ new) (hnames : (items.map Rename.name).Nodup)
    (hnewNames : (items.map Rename.newName).Nodup) (hok : (files.moveFiles old new items).2)
    (hitem : item ∈ items) :
    ((files.moveFiles old new items).1.get new item.newName).isSome := by
  have hmoves := (moveFiles_ok hdirs hnames).mp hok item hitem
  rw [(files.get_moveFiles hdirs hnames hnewNames hitem).2, if_pos hmoves]
  simp only [moves, Bool.and_eq_true] at hmoves
  exact hmoves.2

/-- Where nothing hinders the renames, none of the files is left under its old name. -/
theorem get_moveFiles_source (hdir : files.hasDir new)
    (hallowed : ∀ item ∈ items, item.allowed) {name}
    (hkept : old = new → name ∉ items.map Rename.newName) (hname : name ∈ items.map Rename.name) :
    (files.moveFiles old new items).1.get old name = none := by
  induction items generalizing files with
  | nil => cases hname
  | cons first rest ih =>
    simp only [map_cons, mem_cons, not_or] at hkept hname
    have hrest : ∀ item ∈ rest, item.allowed := fun item hitem =>
      hallowed item (mem_cons_of_mem first hitem)
    rw [moveFiles]
    by_cases hlater : name ∈ rest.map Rename.name
    · exact ih (by simpa using hdir) hrest (fun h => (hkept h).2) hlater
    · obtain rfl := hname.resolve_right hlater
      rw [get_moveFiles_of_ne _ (fun _ => hlater) fun h => (hkept h).2, rename]
      split
      · rename_i hmoves
        rw [get_put_of_ne _ fun h => (hkept h.1).1 h.2]
        apply get_put_self
        simp only [moves, Bool.and_eq_true] at hmoves
        exact files.hasDir_of_get_isSome hmoves.2
      · rename_i hmoves
        simpa [moves, hallowed first mem_cons_self, hdir] using hmoves

/-- Renames that find no file or no directory, or leave a file its place, do nothing. -/
theorem moveFiles_of_still (hstill : ∀ item ∈ items, files.moves old new item = false ∨
      old = new ∧ item.name = item.newName) :
    (files.moveFiles old new items).1 = files := by
  induction items with
  | nil => rfl
  | cons first rest ih =>
    have hrest := ih fun item hitem => hstill item (mem_cons_of_mem first hitem)
    rw [moveFiles]
    rcases hstill first mem_cons_self with hmoves | ⟨rfl, hname⟩
    · rw [files.rename_of_not_moves hmoves]
      exact hrest
    · rw [files.rename_self hname]
      exact hrest

end Lists

/-! ## Directories as lists -/

section Listing

universe x

variable {φ : Type x} {files files' : Files δ ν γ} {dir : δ} {name : φ → ν}
  {listing : Option (List φ)}

/-- A directory as a list shows it: whether it exists, and which of the files that are known
by a name of their own are in it. -/
structure Lists (files : Files δ ν γ) (dir : δ) (name : φ → ν) (listing : Option (List φ)) :
    Prop where
  hasDir : listing.isSome = files.hasDir dir
  mem : ∀ file, file ∈ listing.getD [] ↔ (files.get dir (name file)).isSome

omit [DecidableEq δ] [DecidableEq ν] in
/-- What happens elsewhere is no matter. -/
theorem Lists.of_dirs (h : files.Lists dir name listing)
    (hsame : files'.dirs dir = files.dirs dir) : files'.Lists dir name listing := by
  refine ⟨h.hasDir.trans ?_, fun file => (h.mem file).trans ?_⟩
  · rw [Files.hasDir, Files.hasDir, hsame]
  · rw [get, get, hsame]

omit [DecidableEq ν] in
theorem Lists.createDir (h : files.Lists dir name listing) :
    (files.createDir dir).Lists dir name (some (listing.getD [])) := by
  refine ⟨by simp, fun file => ?_⟩
  rw [get_createDir]
  exact h.mem file

omit [DecidableEq ν] in
theorem Lists.removeDir : (files.removeDir dir).Lists dir name none := by
  refine ⟨by simp, fun file => ?_⟩
  rw [get_of_not_hasDir _ (files.hasDir_removeDir_self)]
  simp

theorem Lists.overwrite (h : files.Lists dir name listing) (hname : Function.Injective name)
    {file : φ} (hfile : file ∈ listing.getD []) (content : γ) :
    (files.put dir (name file) (some content)).Lists dir name listing := by
  refine ⟨by rw [hasDir_put, h.hasDir], fun other => ?_⟩
  by_cases heq : other = file
  · rw [heq, get_put_self _ (files.hasDir_of_get_isSome ((h.mem file).mp hfile))]
    exact iff_of_true hfile rfl
  · rw [get_put_of_ne _ fun hsame => heq (hname hsame.2)]
    exact h.mem other

/-- One file is written or removed, and the list changes likewise. -/
theorem Lists.put [DecidableEq φ] (h : files.Lists dir name listing)
    (hname : Function.Injective name) (file : φ) (content : Option γ) (change : List φ → List φ)
    (hchange : ∀ inside other, other ∈ change inside ↔
      if other = file then content.isSome = true else other ∈ inside) :
    (files.put dir (name file) content).Lists dir name (listing.map change) := by
  refine ⟨by rw [isSome_map, hasDir_put, h.hasDir], fun other => ?_⟩
  cases listing with
  | none =>
    have hdir : (files.put dir (name file) content).hasDir dir = false := by
      rw [hasDir_put, ← h.hasDir]
      rfl
    simp [get_of_not_hasDir _ hdir]
  | some inside =>
    rw [map_some, getD_some, hchange]
    split
    · rename_i heq
      rw [heq, get_put_self _ h.hasDir.symm]
    · rename_i hne
      rw [get_put_of_ne _ fun hsame => hne (hname hsame.2)]
      exact h.mem other

end Listing

end Files

end Cirrocumulus.Lib
