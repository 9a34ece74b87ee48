/-
# The files every guest gets

Before the flattened tree is written, guest-init and two files of `etc` take their places
in it, three mount points are added where nothing is listed, and then every directory
that some path lies in. Nothing is ever removed and nothing listed is looked at, so an
image can stand in the way: with something below one of the three files, or with
something that is no directory where a directory has to be. These are all the ways in
which the tree that is written can fail to be a filesystem tree.
-/

import Cirrocumulus.Image.WellFormed
import Cirrocumulus.Image.Tar

namespace Cirrocumulus.Image

open List Option
open Std (ExtTreeMap)

/-! ## Paths above a path -/

/-- The path lies in `dir`, which is not the root. -/
def Above (dir path : Str) : Prop := dir ++ ['/'] <+: path

instance (dir path : Str) : Decidable (Above dir path) :=
  inferInstanceAs (Decidable (_ <+: _))

theorem Above.below {dir path} (h : Above dir path) : Below dir path := .inr h

theorem Above.trans {a b c} (hab : Above a b) (hbc : Above b c) : Above a c :=
  List.IsPrefix.trans hab ((prefix_append b ['/']).trans hbc)

/-- The paths that end right before a slash are the paths above. -/
theorem mem_parentsOf {dir path} : dir ∈ parentsOf path ↔ Above dir path := by
  unfold Above
  induction path generalizing dir with
  | nil => simp [parentsOf]
  | cons c rest ih =>
    cases dir with
    | nil =>
      by_cases hslash : c = '/'
      · simp [parentsOf, hslash]
      · simp [parentsOf, hslash, Ne.symm hslash]
    | cons d dir =>
      rw [cons_append, cons_prefix_cons, ← ih]
      by_cases hslash : c = '/'
      · simp [parentsOf, hslash, and_comm, eq_comm]
      · simp [parentsOf, hslash, and_comm, eq_comm]

/-! ## What is in the tree to write -/

/-- A directory stands at the path. -/
def isDirAt (tree : EntryTree) (path : Str) : Bool := tree[path]?.any Entry.isDir

/-- The directories every guest mounts something on. -/
def mountPoints : List Str := ["proc", "sys", "dev"]

/-- The mount points are at the top. -/
theorem not_above_mountPoint {dir mount} (hmount : mount ∈ mountPoints) : ¬ Above dir mount := by
  have hparents : ∀ mount ∈ mountPoints, parentsOf mount = [] := by decide
  rw [← mem_parentsOf, hparents mount hmount]
  exact not_mem_nil

/-- The only directory above the files every guest gets. -/
theorem eq_etc_of_above {file dir} (hfile : file ∈ guestPaths) (h : Above dir file) :
    dir = "etc" := by
  have hparents : ∀ file ∈ guestPaths, ∀ dir ∈ parentsOf file, dir = "etc" := by decide
  exact hparents file hfile dir (mem_parentsOf.mpr h)

/-- Where a directory has to be, no file every guest gets is. -/
theorem not_guestPath {dir : Str} (h : dir ∈ "etc".toList :: mountPoints) : dir ∉ guestPaths := by
  have hdirs : ∀ dir ∈ "etc".toList :: mountPoints, dir ∉ guestPaths := by decide
  exact hdirs dir h

section

variable {flat : Flattened} {init : List UInt8} {tree : EntryTree} {dir path : Str}

theorem mem_orInsertDirs {paths} : path ∈ orInsertDirs tree paths ↔ path ∈ tree ∨ path ∈ paths := by
  rw [ExtTreeMap.mem_iff_isSome_getElem?, getElem?_orInsertDirs]
  by_cases hpath : path ∈ paths
  · simp [hpath]
  · simp [hpath]

theorem mem_guestFiles : path ∈ guestFiles flat init ↔ path ∈ guestPaths ∨ path ∈ flat.tree := by
  simp only [guestFiles, ExtTreeMap.mem_insert, Std.LawfulEqCmp.compare_eq_iff_eq,
    ExtTreeMap.mem_map, guestPaths, mem_cons, not_mem_nil, or_false]
  constructor
  · rintro (rfl | rfl | rfl | hmem)
    · exact .inl (.inr (.inr rfl))
    · exact .inl (.inr (.inl rfl))
    · exact .inl (.inl rfl)
    · exact .inr hmem
  · rintro ((rfl | rfl | rfl) | hmem)
    · exact .inr (.inr (.inl rfl))
    · exact .inr (.inl rfl)
    · exact .inl rfl
    · exact .inr (.inr (.inr hmem))

/-- A path of the tree to write is listed, a file every guest gets, a mount point, or
above one of the first two. -/
theorem mem_withGuestFiles : path ∈ withGuestFiles flat init ↔
    path ∈ mountPoints ∨
      ∃ listed, (listed ∈ guestPaths ∨ listed ∈ flat.tree) ∧
        (path = listed ∨ Above path listed) := by
  rw [withGuestFiles, mem_orInsertDirs, mem_orInsertDirs, mem_guestFiles, mem_flatMap]
  simp only [ExtTreeMap.mem_keys, mem_orInsertDirs, mem_guestFiles, mem_parentsOf]
  constructor
  · rintro ((hlisted | hmem) | ⟨listed, hlisted | hmem, habove⟩)
    · exact .inr ⟨path, hlisted, .inl rfl⟩
    · exact .inl hmem
    · exact .inr ⟨listed, hlisted, .inr habove⟩
    · exact absurd habove (not_above_mountPoint hmem)
  · rintro (hmem | ⟨listed, hlisted, rfl | habove⟩)
    · exact .inl (.inr hmem)
    · exact .inl (.inl hlisted)
    · exact .inr ⟨listed, .inl hlisted, habove⟩

/-- A path above a path of the tree to write is above a listed one, or above a file every
guest gets. -/
theorem exists_listed_of_above (hmem : path ∈ withGuestFiles flat init) (h : Above dir path) :
    ∃ listed, (listed ∈ guestPaths ∨ listed ∈ flat.tree) ∧ Above dir listed := by
  rcases mem_withGuestFiles.mp hmem with hmount | ⟨listed, hlisted, rfl | habove⟩
  · exact absurd h (not_above_mountPoint hmount)
  · exact ⟨path, hlisted, h⟩
  · exact ⟨listed, hlisted, h.trans habove⟩

/-- What the guest's own files put at their paths stays there. -/
theorem withGuestFiles_of_guestFiles {entry} (h : (guestFiles flat init)[path]? = some entry) :
    (withGuestFiles flat init)[path]? = some entry := by
  rw [withGuestFiles, getElem?_orInsertDirs, getElem?_orInsertDirs, h]
  rfl

/-- The three files every guest gets. -/
theorem withGuestFiles_guest (flat : Flattened) (init : List UInt8) :
    (withGuestFiles flat init)["init".toList]? = some (.guest init 0o755) ∧
      (withGuestFiles flat init)["etc/resolv.conf".toList]? = some (.guest resolvConf 0o644) ∧
      (withGuestFiles flat init)["etc/hosts".toList]? = some (.guest hosts 0o644) := by
  refine ⟨withGuestFiles_of_guestFiles ?_, withGuestFiles_of_guestFiles ?_,
    withGuestFiles_of_guestFiles ?_⟩ <;>
  · rw [guestFiles]
    simp only [ExtTreeMap.getElem?_insert, Std.LawfulEqCmp.compare_eq_iff_eq]
    rfl

/-- No directory is at the path of a file every guest gets. -/
theorem isDirAt_guestPath (hguest : path ∈ guestPaths) :
    isDirAt (withGuestFiles flat init) path = false := by
  obtain ⟨hinit, hresolv, hhosts⟩ := withGuestFiles_guest flat init
  simp only [guestPaths, mem_cons, not_mem_nil, or_false] at hguest
  rcases hguest with rfl | rfl | rfl
  · rw [isDirAt, hinit]
    rfl
  · rw [isDirAt, hresolv]
    rfl
  · rw [isDirAt, hhosts]
    rfl

/-- What is neither listed nor a file every guest gets is a directory. -/
theorem isDirAt_of_unlisted (hmem : path ∈ withGuestFiles flat init) (hguest : path ∉ guestPaths)
    (hnone : flat.tree[path]? = none) : isDirAt (withGuestFiles flat init) path := by
  rw [isDirAt]
  rcases withGuestFiles_of_unlisted hguest hnone with habsent | hdir
  · rw [ExtTreeMap.mem_iff_isSome_getElem?, habsent] at hmem
    cases hmem
  · rw [hdir]
    rfl

/-- Outside the files every guest gets, what is listed is a directory as in the image. -/
theorem isDirAt_of_listed {source} (hguest : path ∉ guestPaths)
    (hlisted : flat.tree[path]? = some source) :
    isDirAt (withGuestFiles flat init) path = source.isDir := by
  rw [isDirAt, withGuestFiles_of_listed hguest hlisted]
  rfl

end

/-! ## When the tree is a filesystem tree -/

/-- Nothing of the image stands in the way of what every guest gets. -/
structure LeavesRoom (tree : Tree) : Prop where
  /-- Where a directory has to be, the image lists nothing else. -/
  dirs : ∀ dir ∈ "etc".toList :: mountPoints, ∀ source, tree[dir]? = some source →
    source.isDir
  /-- Where a file has to be, the image lists nothing below. -/
  files : ∀ file ∈ guestPaths, ∀ path ∈ tree, ¬ Above file path

/-- Every path above a path of the tree is there, as a directory. -/
def DirsAbove (tree : EntryTree) : Prop :=
  ∀ path ∈ tree, ∀ dir, Above dir path → isDirAt tree dir = true

section

variable {flat : Flattened} {init : List UInt8}

theorem LeavesRoom.mountPoints (h : LeavesRoom flat.tree) :
    ∀ dir ∈ mountPoints, isDirAt (withGuestFiles flat init) dir := by
  intro dir hdir
  have hguest : dir ∉ guestPaths := not_guestPath (mem_cons_of_mem _ hdir)
  cases hlisted : flat.tree[dir]? with
  | none => exact isDirAt_of_unlisted (mem_withGuestFiles.mpr (.inl hdir)) hguest hlisted
  | some source =>
    rw [isDirAt_of_listed hguest hlisted]
    exact h.dirs dir (mem_cons_of_mem _ hdir) source hlisted

theorem LeavesRoom.dirsAbove (h : LeavesRoom flat.tree) (hwf : WellFormed flat.tree) :
    DirsAbove (withGuestFiles flat init) := by
  intro path hpath dir habove
  obtain ⟨listed, hlisted, habove⟩ := exists_listed_of_above hpath habove
  have hmem : dir ∈ withGuestFiles flat init :=
    mem_withGuestFiles.mpr (.inr ⟨listed, hlisted, .inr habove⟩)
  have hguest : dir ∉ guestPaths := by
    intro hfile
    rcases hlisted with hlisted | hlisted
    · rw [eq_etc_of_above hlisted habove] at hfile
      exact not_guestPath mem_cons_self hfile
    · exact h.files dir hfile listed hlisted habove
  cases hsource : flat.tree[dir]? with
  | none => exact isDirAt_of_unlisted hmem hguest hsource
  | some source =>
    rw [isDirAt_of_listed hguest hsource]
    rcases hlisted with hlisted | hlisted
    · refine h.dirs dir ?_ source hsource
      rw [eq_etc_of_above hlisted habove]
      exact mem_cons_self
    · exact hwf listed hlisted dir source hsource habove.below

/-- What stands in the way of the guest's files shows in the tree that is written. -/
theorem leavesRoom_of_dirs
    (hmounts : ∀ dir ∈ mountPoints, isDirAt (withGuestFiles flat init) dir)
    (habove : DirsAbove (withGuestFiles flat init)) : LeavesRoom flat.tree := by
  constructor
  · intro dir hdir source hlisted
    have hguest : dir ∉ guestPaths := not_guestPath hdir
    have hkept : isDirAt (withGuestFiles flat init) dir = source.isDir :=
      isDirAt_of_listed hguest hlisted
    rw [← hkept]
    rcases mem_cons.mp hdir with rfl | hdir
    · refine habove "etc/hosts".toList (mem_withGuestFiles.mpr (.inr ?_)) _ (by decide)
      exact ⟨_, .inl (by decide), .inl rfl⟩
    · exact hmounts dir hdir
  · intro file hfile path hpath hbelow
    have hmem : path ∈ withGuestFiles flat init :=
      mem_withGuestFiles.mpr (.inr ⟨path, .inr hpath, .inl rfl⟩)
    have hdir := habove path hmem file hbelow
    rw [isDirAt_guestPath hfile] at hdir
    cases hdir

end

/-- The tree to write has the three files every guest gets, and whatever else the image
lists is in it unchanged. From an image that is a filesystem tree, it has its mount points
and a directory above every path exactly when the image leaves room for them. -/
theorem withGuestFiles_wellFormed_iff (flat : Flattened) (init : List UInt8)
    (hwf : WellFormed flat.tree) :
    (withGuestFiles flat init)["init".toList]? = some (.guest init 0o755) ∧
      (withGuestFiles flat init)["etc/resolv.conf".toList]? = some (.guest resolvConf 0o644) ∧
      (withGuestFiles flat init)["etc/hosts".toList]? = some (.guest hosts 0o644) ∧
      (∀ (path : Str) (source : Source), path ∉ guestPaths → flat.tree[path]? = some source →
        (withGuestFiles flat init)[path]? = some (.layer source)) ∧
      (((∀ dir ∈ mountPoints, isDirAt (withGuestFiles flat init) dir = true) ∧
        DirsAbove (withGuestFiles flat init)) ↔ LeavesRoom flat.tree) := by
  obtain ⟨hinit, hresolv, hhosts⟩ := withGuestFiles_guest flat init
  refine ⟨hinit, hresolv, hhosts, fun path source hguest hlisted => ?_, ?_⟩
  · exact withGuestFiles_of_listed hguest hlisted
  · constructor
    · rintro ⟨hmounts, habove⟩
      exact leavesRoom_of_dirs hmounts habove
    · intro hroom
      exact ⟨hroom.mountPoints, hroom.dirsAbove hwf⟩

/-! ## Deciding it -/

theorem wellFormed_iff_toList {tree} :
    WellFormed tree ↔ ∀ item ∈ tree.toList, ∀ above ∈ tree.toList, Below above.1 item.1 →
      above.2.isDir := by
  constructor
  · intro h item hitem above habove
    have hmem := isSome_of_eq_some (Lib.mem_items.mp hitem)
    exact h item.1 (ExtTreeMap.mem_iff_isSome_getElem?.mpr hmem) above.1 above.2
      (Lib.mem_items.mp habove)
  · intro h path hmem dir source hsource
    obtain ⟨found, hfound⟩ := isSome_iff_exists.mp
      (ExtTreeMap.mem_iff_isSome_getElem?.mp hmem)
    exact h (path, found) (Lib.mem_items.mpr hfound) (dir, source)
      (Lib.mem_items.mpr hsource)

instance (tree : Tree) : Decidable (WellFormed tree) :=
  decidable_of_iff _ wellFormed_iff_toList.symm

theorem leavesRoom_iff_toList {tree} :
    LeavesRoom tree ↔ (∀ dir ∈ "etc".toList :: mountPoints, tree[dir]?.all Source.isDir) ∧
      ∀ file ∈ guestPaths, ∀ path ∈ tree.keys, ¬ Above file path := by
  constructor
  · rintro ⟨hdirs, hfiles⟩
    refine ⟨fun dir hdir => ?_, fun file hfile path hpath => ?_⟩
    · exact Option.all_eq_true _ _ |>.mpr fun source hsource => hdirs dir hdir source hsource
    · exact hfiles file hfile path (ExtTreeMap.mem_keys.mp hpath)
  · rintro ⟨hdirs, hfiles⟩
    refine ⟨fun dir hdir source hsource => ?_, fun file hfile path hpath => ?_⟩
    · exact Option.all_eq_true _ _ |>.mp (hdirs dir hdir) source hsource
    · exact hfiles file hfile path (ExtTreeMap.mem_keys.mpr hpath)

instance (tree : Tree) : Decidable (LeavesRoom tree) :=
  decidable_of_iff _ leavesRoom_iff_toList.symm

/-- An image with a directory `etc` and a file in it leaves room. -/
theorem withGuestFiles_wellFormed_of_etc :
    ∃ flat, openLayers [⟨[], [listed "etc" .directory, listed "etc/passwd" .regular]⟩] = .ok flat ∧
      WellFormed flat.tree ∧
      (∀ dir ∈ mountPoints, isDirAt (withGuestFiles flat []) dir = true) ∧
      DirsAbove (withGuestFiles flat []) := by
  obtain ⟨flat, hopen⟩ : ∃ flat,
      openLayers [⟨[], [listed "etc" .directory, listed "etc/passwd" .regular]⟩] = .ok flat :=
    ⟨_, rfl⟩
  have hwf : WellFormed flat.tree := by
    cases hopen
    decide +kernel
  have hroom : LeavesRoom flat.tree := by
    cases hopen
    decide +kernel
  obtain ⟨-, -, -, -, hiff⟩ := withGuestFiles_wellFormed_iff flat [] hwf
  exact ⟨flat, hopen, hwf, hiff.mpr hroom⟩

/-- An image with a symbolic link `etc`: the files of `etc` are written below it. -/
theorem withGuestFiles_below_symlink :
    ∃ flat, openLayers [⟨[], [listed "etc" .symlink]⟩] = .ok flat ∧ WellFormed flat.tree ∧
      "etc/hosts".toList ∈ withGuestFiles flat [] ∧ Above "etc" "etc/hosts" ∧
      isDirAt (withGuestFiles flat []) "etc" = false :=
  ⟨_, rfl, by decide +kernel, by decide +kernel, by decide, by decide +kernel⟩

end Cirrocumulus.Image
