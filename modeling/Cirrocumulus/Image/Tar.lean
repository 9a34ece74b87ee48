/-
# Writing the rootfs tar

`build_ext4` writes the flattened tree as one tar: the image's own entries, the
files every guest gets, and a directory for every parent the layers did not list.
The members are in path order, except that the hard links come last. A hard link
is kept as the path of its target and resolved against the tree that is written.

What a tar means is given by extracting it: a hard link gets the content that its
target has when the link is extracted.
-/

import Cirrocumulus.Image.Flatten
import Mathlib.Algebra.Ring.Nat
import Mathlib.Data.List.ReduceOption

namespace Cirrocumulus.Image

open Std (ExtTreeMap)
open Lib List Option

variable {path target : Str} {flat : Flattened} {source : Source} {init : List UInt8}

/-- The bytes of an ASCII text. -/
def asciiBytes (text : String) : List UInt8 := text.toList.map fun c => c.toNat.toUInt8

def resolvConf : List UInt8 := asciiBytes "nameserver 1.1.1.1\nnameserver 8.8.8.8\n"

def hosts : List UInt8 := asciiBytes "127.0.0.1\tlocalhost\n::1\tlocalhost\n"

/-- What stands at one path of the tree to write. -/
inductive Entry
  | layer (source : Source)
  /-- A file every guest gets, owned by root, with this mode. -/
  | guest (contents : List UInt8) (mode : Nat)
  /-- A directory the image doesn't list: root-owned, `0755`. -/
  | dir
  deriving DecidableEq

abbrev EntryTree := ExtTreeMap Str Entry compare

/-- What precedes each slash of a path. -/
def parentsOf : Str → List Str
  | [] => []
  | c :: rest =>
    let deeper := (parentsOf rest).map (c :: ·)
    if c = '/' then [] :: deeper else deeper

/-- `tree.entry(path).or_insert(Entry::Dir)` for each path. -/
def orInsertDirs (tree : EntryTree) (paths : List Str) : EntryTree :=
  paths.foldl (fun tree path => tree.insertIfNew path .dir) tree

/-- The image's own entries with the files every guest gets in their places. -/
def guestFiles (flat : Flattened) (init : List UInt8) : EntryTree :=
  (((flat.tree.map fun _ source => Entry.layer source).insert "init"
    (.guest init 0o755)).insert "etc/resolv.conf" (.guest resolvConf 0o644)).insert
      "etc/hosts" (.guest hosts 0o644)

/-- `Flattened::with_guest_files`. -/
def withGuestFiles (flat : Flattened) (init : List UInt8) : EntryTree :=
  let tree := orInsertDirs (guestFiles flat init) ["proc", "sys", "dev"]
  orInsertDirs tree (tree.keys.flatMap parentsOf)

/-- One member of a written tar. -/
structure Member where
  path : Str
  header : Header
  linkName : Option OsStr
  data : List UInt8
  deriving DecidableEq

inductive WriteError
  /-- A number in an entry's header can't be read. -/
  | header
  /-- The tar library refuses a path or a link name. -/
  | builder
  | other (message : Str)
  deriving DecidableEq

/-- What the tar library's `Builder` makes of paths and link names. -/
structure Builder where
  /-- A member can have this path. -/
  takes : Str → Bool
  /-- The link name that `append_link` writes, if it takes it. -/
  linkName : OsStr → Option OsStr
  linkName_eq : ∀ {target written}, linkName (.ofStr target) = some written →
    Normalised target → written = .ofStr target

/-- `Builder::append_data`. -/
def Builder.append (builder : Builder) (member : Member) : Except WriteError Member :=
  if builder.takes member.path then .ok member else .error .builder

/-- `Builder::append_link`. -/
def Builder.appendLink (builder : Builder) (path : Str) (header : Header) (target : OsStr) :
    Except WriteError Member :=
  match builder.linkName target with
  | some written => builder.append ⟨path, header, some written, []⟩
  | none => .error .builder

/-- A number of a header, or the error of the tar library for it. -/
def field (value : Option Nat) : Except WriteError Nat :=
  match value with
  | some value => .ok value
  | none => .error .header

/-- `Flattened::data`. -/
def Flattened.data (flat : Flattened) (source : Source) : Except WriteError (List UInt8) :=
  (field source.header.entrySize).map fun size =>
    (((flat.layers[source.layer]?).getD []).drop source.data).take size

/-- `Header::new_gnu` with a type, a mode and a size. -/
def newGnu (kind : EntryType) (mode size : Nat) : Header :=
  ⟨kind, some mode, some 0, some 0, some 0, some size⟩

/-- A regular file's entry, which has data of its own. -/
def Source.isFile (source : Source) : Bool :=
  source.header.entryType == .regular || source.header.entryType == .continuous

def Source.isHardLink (source : Source) : Bool := source.header.entryType == .link

/-- What `write_tar` puts off to its second loop. -/
def Entry.isHardLink : Entry → Bool
  | .layer source => source.isHardLink
  | .guest _ _ | .dir => false

/-- What is written as a directory. -/
def Entry.isDir : Entry → Bool
  | .layer source => source.isDir
  | .guest _ _ => false
  | .dir => true

def Member.isLink (member : Member) : Bool := member.header.entryType == .link

def Member.isDir (member : Member) : Bool := member.header.entryType == .directory

/-- `write_tar`'s first loop at one path; a hard link is put off. -/
def fileMember (builder : Builder) (flat : Flattened) (item : Str × Entry) :
    Except WriteError (Option Member) :=
  match item.2 with
  | .dir => (builder.append ⟨item.1, newGnu .directory 0o755 0, none, []⟩).map some
  | .guest contents mode =>
    (builder.append ⟨item.1, newGnu .regular mode contents.length, none, contents⟩).map some
  | .layer source =>
    if source.isHardLink then .ok none
    else if source.header.entryType = .symlink then
      (builder.appendLink item.1 source.header (source.linkName.getD [])).map some
    else if source.isFile then do
      let data ← flat.data source
      (builder.append ⟨item.1, source.header, none, data⟩).map some
    else (builder.append ⟨item.1, { source.header with entrySize := some 0 }, none, []⟩).map some

/-- The header of a hard link: `mke2fs` gives the shared inode the link entry's
metadata, so it must match the target's. -/
def linkHeader (path target : Str) (header : Header) :
    Option Entry → Except WriteError Header
  | some (.layer t) => do
      let mode ← field t.header.mode
      let uid ← field t.header.uid
      let gid ← field t.header.gid
      let mtime ← field t.header.mtime
      return { header with mode := some mode, uid := some uid, gid := some gid,
                           mtime := some mtime }
  | some (.guest _ mode) =>
    .ok { header with mode := some mode, uid := some 0, gid := some 0 }
  | some .dir | none =>
    .error (.other (path ++ " is a hard link to " ++ target ++
      ", which isn't a file in the image"))

/-- `write_tar`'s second loop at one hard link. -/
def linkMember (builder : Builder) (tree : EntryTree) (item : Str × Source) :
    Except WriteError Member := do
  let target ← (normalise (item.2.linkName.getD [])).mapError WriteError.other
  let header ← linkHeader item.1 target item.2.header tree[target]?
  builder.appendLink item.1 header (.ofStr target)

/-- The hard links that the first loop puts off, in path order. -/
def hardLinks (tree : EntryTree) : List (Str × Source) :=
  tree.toList.filterMap fun item => match item.2 with
    | .layer source => if source.isHardLink then some (item.1, source) else none
    | _ => none

/-- The space one entry needs, roughly. Every inode costs at least a block. -/
def spaceOf : Entry → Nat
  | .dir => 4096
  | .guest contents _ => 4096 + contents.length
  | .layer source => 4096 + if source.isFile then source.header.entrySize.getD 0 else 0

/-- `Flattened::write_tar`: the members and the space the files need. -/
def writeTar (builder : Builder) (flat : Flattened) (tree : EntryTree) :
    Except WriteError (List Member × Nat) := do
  let files ← tree.toList.mapM (fileMember builder flat)
  let links ← (hardLinks tree).mapM (linkMember builder tree)
  return (files.reduceOption ++ links, (tree.values.map spaceOf).sum)

/-! ## What a tar means -/

/-- The contents of the regular files extracted so far. -/
abbrev Contents := ExtTreeMap Str (List UInt8) compare

variable {builder : Builder} {tree : EntryTree} {member : Member} {contents : Contents}
  {members : List Member}

def extract (contents : Contents) (member : Member) : Contents :=
  match member.header.entryType with
  | .regular | .continuous => contents.insert member.path member.data
  | .link =>
    match ((member.linkName.getD []).toStr).bind (contents[·]?) with
    | some data => contents.insert member.path data
    | none => contents.erase member.path
  | _ => contents.erase member.path

/-- The content that a tar gives the file at `path`. -/
def contentAt (members : List Member) (path : Str) : Option (List UInt8) :=
  (members.foldl extract ∅)[path]?

theorem writeTar_eq_ok {space} (h : writeTar builder flat tree = .ok (members, space)) :
    ∃ files links, tree.toList.mapM (fileMember builder flat) = .ok files ∧
      (hardLinks tree).mapM (linkMember builder tree) = .ok links ∧
      members = files.reduceOption ++ links := by
  obtain ⟨files, hfiles, h⟩ := except_bind_eq_ok.mp h
  obtain ⟨links, hlinks, h⟩ := except_bind_eq_ok.mp h
  cases h
  exact ⟨files, links, hfiles, hlinks, rfl⟩

theorem Source.isFile_iff : source.isFile ↔
    source.header.entryType = .regular ∨ source.header.entryType = .continuous := by
  simp [Source.isFile]

theorem Source.isHardLink_of_isFile (h : source.isFile) : source.isHardLink = false := by
  rcases Source.isFile_iff.mp h with hkind | hkind <;> simp [Source.isHardLink, hkind]

theorem extract_other (hne : path ≠ member.path) :
    (extract contents member)[path]? = contents[path]? := by
  unfold extract
  split
  · exact (lookup_insert ..).trans (if_neg hne)
  · exact (lookup_insert ..).trans (if_neg hne)
  · split
    · exact (lookup_insert ..).trans (if_neg hne)
    · exact (lookup_erase ..).trans (if_neg hne)
  · exact (lookup_erase ..).trans (if_neg hne)

theorem foldl_extract_other (hne : ∀ member ∈ members, path ≠ member.path) :
    (members.foldl extract contents)[path]? = contents[path]? := by
  induction members generalizing contents with
  | nil => rfl
  | cons member members ih =>
    rw [foldl_cons, ih fun other hother => hne other (mem_cons_of_mem _ hother),
      extract_other (hne member mem_cons_self)]

theorem Builder.append_eq_ok {result} :
    builder.append member = .ok result ↔ builder.takes member.path ∧ result = member := by
  rw [Builder.append]
  split <;> rename_i htakes <;> simp [htakes, eq_comm]

theorem Builder.appendLink_eq_ok {header target result} :
    builder.appendLink path header target = .ok result ↔ builder.takes path ∧
      ∃ written, builder.linkName target = some written ∧
        result = ⟨path, header, some written, []⟩ := by
  unfold Builder.appendLink
  split <;> simp_all [append_eq_ok]

/-- The first loop puts off the hard links and nothing else. What it writes is no hard
link, and it writes a directory for a directory. -/
theorem fileMember_eq_ok {item result} (h : fileMember builder flat item = .ok result) :
    result = none ∧ item.2.isHardLink ∨
      ∃ member, result = some member ∧ item.2.isHardLink = false ∧ member.path = item.1 ∧
        member.isLink = false ∧ member.isDir = item.2.isDir := by
  obtain ⟨path, entry⟩ := item
  cases entry with
  | dir | guest =>
    obtain ⟨member, hmember, rfl⟩ := except_map_eq_ok.mp h
    cases (Builder.append_eq_ok.mp hmember).2
    exact .inr ⟨_, rfl, rfl, rfl, rfl, rfl⟩
  | layer source =>
    simp only [fileMember] at h
    split at h
    · rename_i hlink
      cases h
      exact .inl ⟨rfl, hlink⟩
    · rename_i hlink
      have hnot : source.isHardLink = false := by simpa using hlink
      split at h
      · obtain ⟨member, hmember, rfl⟩ := except_map_eq_ok.mp h
        obtain ⟨-, written, -, rfl⟩ := Builder.appendLink_eq_ok.mp hmember
        exact .inr ⟨_, rfl, hnot, rfl, hnot, rfl⟩
      · split at h
        · obtain ⟨data, -, h⟩ := except_bind_eq_ok.mp h
          obtain ⟨member, hmember, rfl⟩ := except_map_eq_ok.mp h
          cases (Builder.append_eq_ok.mp hmember).2
          exact .inr ⟨_, rfl, hnot, rfl, hnot, rfl⟩
        · obtain ⟨member, hmember, rfl⟩ := except_map_eq_ok.mp h
          cases (Builder.append_eq_ok.mp hmember).2
          exact .inr ⟨_, rfl, hnot, rfl, hnot, rfl⟩

theorem of_fileMember {item} (h : fileMember builder flat item = .ok (some member)) :
    item.2.isHardLink = false ∧ member.path = item.1 ∧ member.isLink = false ∧
      member.isDir = item.2.isDir := by
  rcases fileMember_eq_ok h with ⟨hnone, -⟩ | ⟨found, hfound, hwritten⟩
  · cases hnone
  · cases hfound
    exact hwritten

/-- A file of a layer is written with its own data. -/
theorem fileMember_of_isFile {result} (hfile : source.isFile)
    (h : fileMember builder flat (path, .layer source) = .ok result) :
    ∃ data, flat.data source = .ok data ∧ result = some ⟨path, source.header, none, data⟩ := by
  have hsymlink : ¬ source.header.entryType = .symlink := by
    rcases Source.isFile_iff.mp hfile with hkind | hkind <;> simp [hkind]
  simp only [fileMember, Source.isHardLink_of_isFile hfile, hsymlink, hfile, if_true, if_false] at h
  obtain ⟨data, hdata, h⟩ := except_bind_eq_ok.mp h
  obtain ⟨member, hmember, rfl⟩ := except_map_eq_ok.mp h
  cases (Builder.append_eq_ok.mp hmember).2
  exact ⟨data, hdata, rfl⟩

/-- The first loop gives every listed file the content of its entry. -/
theorem content_of_files {items : List (Str × Entry)} {files}
    (h : items.mapM (fileMember builder flat) = .ok files)
    (hdistinct : items.Pairwise fun a b => a.1 ≠ b.1)
    (hmem : (target, Entry.layer source) ∈ items) (hfile : source.isFile)
    (contents : Contents) :
    ∃ data, flat.data source = .ok data ∧
      (files.reduceOption.foldl extract contents)[target]? = some data := by
  rw [mapM_eq_ok_iff] at h
  induction h generalizing contents with
  | nil => simp at hmem
  | @cons item first items rest hfirst hrest ih =>
    obtain ⟨hne, hdistinct⟩ := pairwise_cons.mp hdistinct
    rcases mem_cons.mp hmem with rfl | hmem
    · obtain ⟨data, hdata, rfl⟩ := fileMember_of_isFile hfile hfirst
      refine ⟨data, hdata, ?_⟩
      rw [reduceOption_cons_of_some, foldl_cons, foldl_extract_other]
      · rcases Source.isFile_iff.mp hfile with hkind | hkind <;> simp [extract, hkind]
      · -- The other members stand at other paths.
        intro member hmember
        obtain ⟨other, hother, heq⟩ := exists_mem_of_forall₂ hrest.flip _
          (reduceOption_mem_iff.mp hmember)
        rw [(of_fileMember heq).2.1]
        exact hne other hother
    · cases first with
      | none =>
        rw [reduceOption_cons_of_none]
        exact ih hdistinct hmem contents
      | some member =>
        rw [reduceOption_cons_of_some, foldl_cons]
        exact ih hdistinct hmem _

theorem entryType_of_linkHeader {header result found}
    (h : linkHeader path target header found = .ok result) :
    result.entryType = header.entryType := by
  unfold linkHeader at h
  split at h
  · obtain ⟨mode, -, h⟩ := except_bind_eq_ok.mp h
    obtain ⟨uid, -, h⟩ := except_bind_eq_ok.mp h
    obtain ⟨gid, -, h⟩ := except_bind_eq_ok.mp h
    obtain ⟨mtime, -, h⟩ := except_bind_eq_ok.mp h
    cases h
    rfl
  · cases h
    rfl
  · cases h
  · cases h

theorem linkMember_eq_ok {item} (h : linkMember builder tree item = .ok member) :
    ∃ target header, normalise (item.2.linkName.getD []) = .ok target ∧
      linkHeader item.1 target item.2.header tree[target]? = .ok header ∧
      member = ⟨item.1, header, some (OsStr.ofStr target), []⟩ := by
  obtain ⟨target, htarget, h⟩ := except_bind_eq_ok.mp h
  obtain ⟨header, hheader, h⟩ := except_bind_eq_ok.mp h
  obtain ⟨-, written, hwritten, rfl⟩ := Builder.appendLink_eq_ok.mp h
  have htarget := except_mapError_eq_ok.mp htarget
  cases builder.linkName_eq hwritten (normalised_of_normalise htarget)
  exact ⟨target, header, htarget, hheader, rfl⟩

theorem path_of_linkMember {item}
    (h : linkMember builder tree item = .ok member) : member.path = item.1 := by
  obtain ⟨target, header, -, -, rfl⟩ := linkMember_eq_ok h
  rfl

/-- The second loop gives a hard link the content of its target, when the target
itself is no hard link. -/
theorem content_of_links {links : List (Str × Source)}
    (h : links.mapM (linkMember builder tree) = .ok members)
    (hdistinct : links.Pairwise fun a b => a.1 ≠ b.1)
    (hlinks : ∀ item ∈ links, item.2.isHardLink) (hmem : (path, source) ∈ links)
    (htarget : normalise (source.linkName.getD []) = .ok target)
    (hnot : ∀ item ∈ links, target ≠ item.1) {data} (hdata : contents[target]? = some data) :
    (members.foldl extract contents)[path]? = some data := by
  rw [mapM_eq_ok_iff] at h
  induction h generalizing contents with
  | nil => simp at hmem
  | @cons item first links rest hfirst hrest ih =>
    obtain ⟨hne, hdistinct⟩ := pairwise_cons.mp hdistinct
    rw [foldl_cons]
    rcases mem_cons.mp hmem with rfl | hmem
    · obtain ⟨found, header, hfound, hheader, rfl⟩ := linkMember_eq_ok hfirst
      cases htarget.symm.trans hfound
      have hlink : header.entryType = .link := (entryType_of_linkHeader hheader).trans (by
        simpa [Source.isHardLink] using hlinks _ mem_cons_self)
      rw [foldl_extract_other]
      · have hstr : (OsStr.ofStr target).toStr = some target := OsStr.toStr_eq_some.mpr rfl
        simp [extract, hlink, hstr, hdata]
      · intro member hmember
        obtain ⟨other, hother, heq⟩ := exists_mem_of_forall₂ hrest.flip member hmember
        rw [path_of_linkMember heq]
        exact hne other hother
    · refine ih hdistinct (fun other hother => hlinks other (mem_cons_of_mem _ hother))
        hmem (fun other hother => hnot other (mem_cons_of_mem _ hother)) ?_
      rw [extract_other]
      · exact hdata
      · rw [path_of_linkMember hfirst]
        exact hnot item mem_cons_self

theorem mem_hardLinks :
    (path, source) ∈ hardLinks tree ↔
      tree[path]? = some (.layer source) ∧ source.isHardLink := by
  unfold hardLinks
  rw [mem_filterMap]
  constructor
  · rintro ⟨⟨found, entry⟩, hmem, hentry⟩
    cases entry with
    | layer t =>
      dsimp only at hentry
      split at hentry
      · rename_i hlink
        cases hentry
        exact ⟨mem_items.mp hmem, hlink⟩
      · cases hentry
    | guest | dir => cases hentry
  · rintro ⟨hget, hlink⟩
    refine ⟨(path, .layer source), mem_items.mpr hget, ?_⟩
    simp [hlink]

theorem toList_distinct (tree : EntryTree) : tree.toList.Pairwise fun a b => a.1 ≠ b.1 := by
  refine ExtTreeMap.ordered_keys_toList.imp ?_
  rintro a b hlt heq
  simp [heq] at hlt

/-- The hard links are put off in path order. -/
theorem hardLinks_ordered (tree : EntryTree) :
    (hardLinks tree).Pairwise fun a b => compare a.1 b.1 = .lt := by
  refine ExtTreeMap.ordered_keys_toList.filterMap _ ?_
  intro a b hlt a' ha' b' hb'
  have hfst : ∀ {item : Str × Entry} {link : Str × Source},
      (match item.2 with
        | .layer source => if source.isHardLink then some (item.1, source) else none
        | _ => none) = some link → link.1 = item.1 := by
    intro item link hlink
    split at hlink
    · split at hlink
      · cases hlink
        rfl
      · cases hlink
    · cases hlink
  rw [hfst ha', hfst hb']
  exact hlt

theorem hardLinks_distinct (tree : EntryTree) : (hardLinks tree).Pairwise fun a b => a.1 ≠ b.1 := by
  refine (hardLinks_ordered tree).imp ?_
  rintro a b hlt heq
  simp [heq] at hlt

/-! ## The tree to write -/

/-- The paths of the files every guest gets. -/
def guestPaths : List Str := ["init", "etc/resolv.conf", "etc/hosts"]

theorem getElem?_orInsertDirs (tree : EntryTree) (paths : List Str) (path : Str) :
    (orInsertDirs tree paths)[path]? =
      tree[path]?.or (if path ∈ paths then some .dir else none) := by
  unfold orInsertDirs
  induction paths generalizing tree with
  | nil => simp
  | cons first rest ih =>
    rw [foldl_cons, ih, ExtTreeMap.getElem?_insertIfNew]
    by_cases heq : first = path
    · subst heq
      cases hfound : tree[first]? <;> simp [ExtTreeMap.mem_iff_isSome_getElem?, hfound]
    · simp [heq, Ne.symm heq]

theorem getElem?_guestFiles (hguest : path ∉ guestPaths) :
    (guestFiles flat init)[path]? = flat.tree[path]?.map .layer := by
  simp only [guestPaths, mem_cons, not_mem_nil, or_false, not_or] at hguest
  obtain ⟨hinit, hresolv, hhosts⟩ := hguest
  simp only [guestFiles, ExtTreeMap.getElem?_insert, Std.LawfulEqCmp.compare_eq_iff_eq,
    ExtTreeMap.getElem?_map]
  rw [if_neg (Ne.symm hhosts), if_neg (Ne.symm hresolv), if_neg (Ne.symm hinit)]

/-- Outside the files every guest gets, a listed entry is written as it is. -/
theorem withGuestFiles_of_listed (hguest : path ∉ guestPaths) (h : flat.tree[path]? = some source) :
    (withGuestFiles flat init)[path]? = some (.layer source) := by
  rw [withGuestFiles, getElem?_orInsertDirs, getElem?_orInsertDirs, getElem?_guestFiles hguest, h]
  rfl

/-- Outside the files every guest gets, an unlisted path is a directory at most. -/
theorem withGuestFiles_of_unlisted (hguest : path ∉ guestPaths) (h : flat.tree[path]? = none) :
    (withGuestFiles flat init)[path]? = none ∨ (withGuestFiles flat init)[path]? = some .dir := by
  rw [withGuestFiles, getElem?_orInsertDirs, getElem?_orInsertDirs, getElem?_guestFiles hguest, h]
  split <;> split <;> simp

/-! ## Hard links -/

/-- What a hard link may point at in the tree to write. -/
def IsLinkTarget : Option Entry → Prop
  | some (.layer t) =>
    t.header.mode.isSome ∧ t.header.uid.isSome ∧ t.header.gid.isSome ∧ t.header.mtime.isSome
  | some (.guest _ _) => True
  | some .dir | none => False

theorem field_isOk_iff {value} : (∃ n, field value = .ok n) ↔ value.isSome := by
  cases value <;> simp [field]

theorem linkHeader_isOk_iff {header found} :
    (∃ result, linkHeader path target header found = .ok result) ↔ IsLinkTarget found := by
  rcases found with _ | (t | ⟨contents, mode⟩ | _)
  · simp [linkHeader, IsLinkTarget]
  · simp only [linkHeader, IsLinkTarget, except_bind_eq_ok, ← field_isOk_iff]
    constructor
    · rintro ⟨-, mode, hmode, uid, huid, gid, hgid, mtime, hmtime, -⟩
      exact ⟨⟨mode, hmode⟩, ⟨uid, huid⟩, ⟨gid, hgid⟩, ⟨mtime, hmtime⟩⟩
    · rintro ⟨⟨mode, hmode⟩, ⟨uid, huid⟩, ⟨gid, hgid⟩, ⟨mtime, hmtime⟩⟩
      exact ⟨_, mode, hmode, uid, huid, gid, hgid, mtime, hmtime, rfl⟩
  · simp [linkHeader, IsLinkTarget]
  · simp [linkHeader, IsLinkTarget]

/-- What `write_tar` asks of one entry of the tree it writes. -/
def Writable (builder : Builder) (tree : EntryTree) (path : Str) : Entry → Prop
  | .dir | .guest _ _ => builder.takes path = true
  | .layer source =>
    builder.takes path = true ∧
      (source.isFile = true → source.header.entrySize.isSome) ∧
      (source.header.entryType = .symlink →
        (builder.linkName (source.linkName.getD [])).isSome) ∧
      (source.isHardLink = true → ∃ target, normalise (source.linkName.getD []) = .ok target ∧
        IsLinkTarget tree[target]? ∧ (builder.linkName (.ofStr target)).isSome)

theorem Builder.appendLink_isOk_iff {header target} :
    (∃ result, builder.appendLink path header target = .ok result) ↔
      builder.takes path ∧ (builder.linkName target).isSome := by
  simp [appendLink_eq_ok, isSome_iff_exists]

theorem linkMember_isOk_iff :
    (∃ member, linkMember builder tree (path, source) = .ok member) ↔
      builder.takes path ∧ ∃ target, normalise (source.linkName.getD []) = .ok target ∧
        IsLinkTarget tree[target]? ∧ (builder.linkName (.ofStr target)).isSome := by
  simp only [linkMember, except_bind_eq_ok, except_mapError_eq_ok]
  constructor
  · rintro ⟨member, target, htarget, header, hheader, hmember⟩
    obtain ⟨htakes, hname⟩ := Builder.appendLink_isOk_iff.mp ⟨member, hmember⟩
    exact ⟨htakes, target, htarget, linkHeader_isOk_iff.mp ⟨header, hheader⟩, hname⟩
  · rintro ⟨htakes, target, htarget, hfound, hname⟩
    obtain ⟨header, hheader⟩ := linkHeader_isOk_iff.mpr hfound
    obtain ⟨member, hmember⟩ := Builder.appendLink_isOk_iff.mpr ⟨htakes, hname⟩
    exact ⟨member, target, htarget, header, hheader, hmember⟩

/-- What the first loop asks of an entry of a layer. -/
theorem fileMember_isOk_iff :
    (∃ result, fileMember builder flat (path, .layer source) = .ok result) ↔
      source.isHardLink ∨ builder.takes path ∧
        (source.isFile → source.header.entrySize.isSome) ∧
        (source.header.entryType = .symlink →
          (builder.linkName (source.linkName.getD [])).isSome) := by
  by_cases hlink : source.isHardLink
  · simp [fileMember, hlink]
  by_cases hsymlink : source.header.entryType = .symlink
  · have hfile : source.isFile = false := by simp [Source.isFile, hsymlink]
    simp [fileMember, hlink, hsymlink, hfile, Builder.appendLink_eq_ok, except_map_eq_ok,
      isSome_iff_exists]
  by_cases hfile : source.isFile
  · simp [fileMember, hlink, hsymlink, hfile, except_bind_eq_ok, Builder.append_eq_ok,
      except_map_eq_ok, Flattened.data, ← field_isOk_iff, and_comm]
  · simp [fileMember, hlink, hsymlink, hfile, Builder.append_eq_ok, except_map_eq_ok]

/-- The two loops refuse what is not writable. -/
theorem writable_iff (flat : Flattened) {entry} : Writable builder tree path entry ↔
    (∃ result, fileMember builder flat (path, entry) = .ok result) ∧
      ∀ source, entry = .layer source → source.isHardLink →
        ∃ member, linkMember builder tree (path, source) = .ok member := by
  cases entry with
  | dir | guest => simp [Writable, fileMember, Builder.append_eq_ok, except_map_eq_ok]
  | layer source =>
    simp only [Writable, fileMember_isOk_iff, Entry.layer.injEq, forall_eq', linkMember_isOk_iff]
    constructor
    · rintro ⟨htakes, hsize, hsymlink, hlink⟩
      exact ⟨.inr ⟨htakes, hsize, hsymlink⟩, fun hkind => ⟨htakes, hlink hkind⟩⟩
    · rintro ⟨hkind | ⟨htakes, hsize, hsymlink⟩, hlink⟩
      · refine ⟨(hlink hkind).1, fun hfile => ?_, fun hsymlink => ?_, fun _ => (hlink hkind).2⟩
        · cases (Source.isHardLink_of_isFile hfile).symm.trans hkind
        · simp [Source.isHardLink, hsymlink] at hkind
      · exact ⟨htakes, hsize, hsymlink, fun hkind => (hlink hkind).2⟩

/-- A tree can be written exactly when every entry of it can be. -/
theorem writeTar_isOk_iff :
    (∃ result, writeTar builder flat tree = .ok result) ↔
      ∀ path entry, tree[path]? = some entry → Writable builder tree path entry := by
  have hloops : (∃ result, writeTar builder flat tree = .ok result) ↔
      (∃ files, tree.toList.mapM (fileMember builder flat) = .ok files) ∧
        ∃ links, (hardLinks tree).mapM (linkMember builder tree) = .ok links := by
    simp only [writeTar, except_bind_eq_ok]
    constructor
    · rintro ⟨-, files, hfiles, links, hlinks, -⟩
      exact ⟨⟨files, hfiles⟩, links, hlinks⟩
    · rintro ⟨⟨files, hfiles⟩, links, hlinks⟩
      exact ⟨_, files, hfiles, links, hlinks, rfl⟩
  rw [hloops, mapM_isOk_iff, mapM_isOk_iff]
  constructor
  · rintro ⟨hfiles, hlinks⟩ path entry hget
    refine (writable_iff flat).mpr ⟨hfiles (path, entry) (mem_items.mpr hget), ?_⟩
    rintro source rfl hkind
    exact hlinks (path, source) (mem_hardLinks.mpr ⟨hget, hkind⟩)
  · refine fun h => ⟨fun item hitem => ?_, fun item hitem => ?_⟩
    · have hget := mem_items.mp hitem
      exact ((writable_iff flat).mp (h item.1 item.2 hget)).1
    · obtain ⟨hget, hkind⟩ := mem_hardLinks.mp hitem
      exact ((writable_iff flat).mp (h item.1 _ hget)).2 _ rfl hkind

/-- A tar gives a hard link the data of the file its target is in the tree written. -/
theorem contentAt_of_writeTar {space} (h : writeTar builder flat tree = .ok (members, space)) {t}
    (hlink : tree[path]? = some (.layer source)) (hkind : source.isHardLink)
    (htarget : normalise (source.linkName.getD []) = .ok target)
    (hlisted : tree[target]? = some (.layer t)) (hfile : t.isFile) :
    ∃ data, flat.data t = .ok data ∧ contentAt members path = some data := by
  obtain ⟨files, links, hfiles, hlinks, rfl⟩ := writeTar_eq_ok h
  obtain ⟨data, hdata, hcontent⟩ := content_of_files hfiles (toList_distinct tree)
    (mem_items.mpr hlisted) hfile ∅
  refine ⟨data, hdata, ?_⟩
  rw [contentAt, foldl_append]
  refine content_of_links hlinks (hardLinks_distinct tree)
    (fun item hitem => (mem_hardLinks.mp hitem).2) (mem_hardLinks.mpr ⟨hlink, hkind⟩) htarget
    (fun item hitem heq => ?_) hcontent
  -- The target is a file, so it is none of the links.
  obtain ⟨hget, hother⟩ := mem_hardLinks.mp hitem
  rw [← heq, hlisted] at hget
  cases hget
  cases (Source.isHardLink_of_isFile hfile).symm.trans hother

/-- The data of an entry does not change with the layers above it. -/
theorem data_eq_of_append {lower upper below}
    (hbelow : openLayers lower = .ok below) (hflat : openLayers (lower ++ upper) = .ok flat)
    (hsource : below.tree[path]? = some source) : flat.data source = below.data source := by
  have hlt := layer_lt_of_openLayers hbelow hsource
  unfold Flattened.data
  rw [layers_of_openLayers hbelow, layers_of_openLayers hflat, map_append,
    getElem?_append_left (by simpa using hlt)]

/-- Hard links through later layers, outside the files every guest gets. A link whose
target was a file when its layer was applied gets the content that file had then,
as long as the final tree lists the same entry at the target. When the final tree
lists nothing there, the tar is refused. A tar is written exactly when every file's
size can be read, the tar library takes every path and link name, and every hard link
has a target it may point at. -/
theorem writeTar_hardLink (builder : Builder) {lower upper : List Layer} {layer : Layer}
    {flat below : Flattened}
    (hopen : openLayers (lower ++ [layer] ++ upper) = .ok flat)
    (hbelow : openLayers (lower ++ [layer]) = .ok below) (init : List UInt8) {path target : Str}
    {source t : Source} (hlink : flat.tree[path]? = some source) (hkind : source.isHardLink = true)
    (hpath : path ∉ guestPaths) (htarget : normalise (source.linkName.getD []) = .ok target)
    (hguest : target ∉ guestPaths) (ht : below.tree[target]? = some t) (hfile : t.isFile = true) :
    (flat.tree[target]? = some t →
      ∀ members space, writeTar builder flat (withGuestFiles flat init) = .ok (members, space) →
        ∃ data, below.data t = .ok data ∧ contentAt members path = some data) ∧
    (flat.tree[target]? = none →
      ∀ result, writeTar builder flat (withGuestFiles flat init) ≠ .ok result) ∧
    ((∃ result, writeTar builder flat (withGuestFiles flat init) = .ok result) ↔
      ∀ (other : Str) (entry : Entry), (withGuestFiles flat init)[other]? = some entry →
        Writable builder (withGuestFiles flat init) other entry) := by
  have hwritten : (withGuestFiles flat init)[path]? = some (.layer source) :=
    withGuestFiles_of_listed hpath hlink
  refine ⟨fun hsame members space hwrite => ?_, fun hgone result hwrite => ?_, writeTar_isOk_iff⟩
  · rw [← data_eq_of_append hbelow hopen ht]
    exact contentAt_of_writeTar hwrite hwritten hkind htarget
      (withGuestFiles_of_listed hguest hsame) hfile
  · obtain ⟨-, -, -, hpoints⟩ := writeTar_isOk_iff.mp ⟨result, hwrite⟩ path _ hwritten
    obtain ⟨found, hfound, hok, -⟩ := hpoints hkind
    rw [htarget] at hfound
    cases hfound
    have hunlisted : (withGuestFiles flat init)[target]? = none ∨
        (withGuestFiles flat init)[target]? = some .dir :=
      withGuestFiles_of_unlisted hguest hgone
    rcases hunlisted with hnone | hdir
    · rw [hnone] at hok
      exact hok
    · rw [hdir] at hok
      exact hok

/-- A tar library that takes every path and refuses no link name but the empty one. -/
def Builder.sample : Builder where
  takes _ := true
  linkName target := if target.isEmpty then none else some target
  linkName_eq h _ := by
    split at h
    · cases h
    · exact (Option.some.inj h).symm

/-- The entry of a file `a` that says `hi`. -/
def fileSource : Source := ⟨0, ⟨.regular, some 0o644, some 0, some 0, some 0, some 2⟩, 0, none⟩

/-- The entry of a hard link to `a`. -/
def linkSource : Source :=
  ⟨0, ⟨.link, some 0o755, some 0, some 0, some 0, some 0⟩, 512, some (OsStr.ofStr "a")⟩

/-- A layer with these two entries. -/
def linkedLayer : Layer where
  bytes := asciiBytes "hi"
  entries :=
    [⟨OsStr.ofStr "a", fileSource.header, none, 0⟩,
      ⟨OsStr.ofStr "l", linkSource.header, linkSource.linkName, 512⟩]

/-- A whiteout of a hard link's target by a later layer makes the tar fail. -/
theorem writeTar_refuses_whited_out_target :
    ∃ below flat, openLayers [linkedLayer] = .ok below ∧
      openLayers [linkedLayer, ⟨[], [listed ".wh.a" .regular]⟩] = .ok flat ∧
      below.tree["a".toList]? = some fileSource ∧ fileSource.isFile = true ∧
      flat.tree["l".toList]? = some linkSource ∧ linkSource.isHardLink = true ∧
      normalise (linkSource.linkName.getD []) = .ok "a" ∧
      writeTar .sample flat (withGuestFiles flat []) =
        .error (.other "l is a hard link to a, which isn't a file in the image") :=
  ⟨_, _, rfl, rfl, by decide +kernel, by decide, by decide +kernel, by decide, rfl, rfl⟩

theorem writeTar_hardLink_of_kept_target :
    ∃ below flat members space, openLayers ([] ++ [linkedLayer]) = .ok below ∧
      openLayers ([] ++ [linkedLayer] ++ [⟨[], [listed "b" .regular]⟩]) = .ok flat ∧
      flat.tree["l".toList]? = some linkSource ∧
      writeTar .sample flat (withGuestFiles flat []) = .ok (members, space) ∧
      contentAt members "l" = some (asciiBytes "hi") := by
  obtain ⟨below, hbelow⟩ : ∃ below, openLayers ([] ++ [linkedLayer]) = .ok below := ⟨_, rfl⟩
  obtain ⟨flat, hflat⟩ : ∃ flat,
      openLayers ([] ++ [linkedLayer] ++ [⟨[], [listed "b" .regular]⟩]) = .ok flat := ⟨_, rfl⟩
  obtain ⟨members, space, hwrite⟩ : ∃ members space,
      writeTar .sample flat (withGuestFiles flat []) = .ok (members, space) := by
    cases hflat
    exact ⟨_, _, rfl⟩
  have hlink : flat.tree["l".toList]? = some linkSource := by
    cases hflat
    decide +kernel
  have hfile : below.tree["a".toList]? = some fileSource := by
    cases hbelow
    decide +kernel
  have hsame : flat.tree["a".toList]? = some fileSource := by
    cases hflat
    decide +kernel
  have hdata : below.data fileSource = .ok (asciiBytes "hi") := by
    cases hbelow
    rfl
  refine ⟨below, flat, members, space, hbelow, hflat, hlink, hwrite, ?_⟩
  obtain ⟨data, hread, hcontent⟩ := (writeTar_hardLink .sample hflat hbelow [] hlink (by decide)
    (by decide +kernel) rfl (by decide +kernel) hfile (by decide)).1 hsame members space hwrite
  cases hdata.symm.trans hread
  exact hcontent

end Cirrocumulus.Image
