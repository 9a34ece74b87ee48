/-
# The cache of pulled images

The cache is a directory with two files for each manifest digest: the rootfs, and a
record of the references last pulled as that image. A pull reads all records and
rewrites those that its reference enters or leaves. Nothing but the names of the files
says which image they belong to, and an image is listed only if both of them are there.

A record is written under a name of its own and then renamed, so that here it is
replaced at once or not at all. What a pull unpacks in its scratch directory before it
writes the record is seen by nobody else and is left out, as are the half-written
records, which no listing takes for a record.
-/

import Cirrocumulus.Lib.Maps
import Cirrocumulus.Lib.Text
import Mathlib.Data.List.Sort

namespace Cirrocumulus.ImageCache

open Std (ExtTreeMap)
open Lib List Option

variable {other name : Str}

/-! ## Files -/

/-- What an image runs, and how. -/
structure RunConfig where
  entrypoint : List Str := []
  cmd : List Str := []
  env : List Str := []
  workdir : Option Str := none
  user : Option (Nat × Nat) := none
  deriving DecidableEq

/-- What the cache knows of an image besides its rootfs. -/
structure Record where
  references : List Str
  config : RunConfig
  deriving DecidableEq

inductive File
  | record (record : Record)
  | rootfs
  deriving DecidableEq

/-- The files of the cache by name. -/
abbrev Dir := ExtTreeMap Str File compare

/-- `ImageCache::path`, within the directory. -/
def path (digest extension : Str) : Str :=
  (digest.map fun c => if c = ':' then '-' else c) ++ '.' :: extension

/-- The name of the record of an image. -/
def recordName (digest : Str) : Str :=
  path digest "json"

/-- The name of its rootfs. -/
def rootfsName (digest : Str) : Str :=
  path digest "ext4"

/-- The digest that a listing reads off the name of a record. -/
def digestOf (name : Str) : Option Str :=
  (stripSuffix ".json" name).bind fun stem =>
    (splitOnce '-' stem).map fun parts => parts.1 ++ ':' :: parts.2

/-- A pulled image. -/
structure CachedImage where
  digest : Str
  config : RunConfig
  references : List Str
  deriving DecidableEq

variable {image : CachedImage}

/-- The name of an image's rootfs. -/
def CachedImage.rootfs (image : CachedImage) : Str :=
  rootfsName image.digest

def CachedImage.record (image : CachedImage) : Record where
  references := image.references
  config := image.config

variable (dir : Dir)

/-- `ImageCache::cached`. -/
def cached (digest : Str) : Option CachedImage :=
  match dir[recordName digest]? with
  | some (.record record) =>
    if rootfsName digest ∈ dir then
      some { digest, config := record.config, references := record.references }
    else none
  | _ => none

/-- The order of two strings, and of two lists of them. -/
def sortsBefore (a b : CachedImage) : Bool :=
  ((compare a.references b.references).then (compare a.digest b.digest)).isLE

/-- `ImageCache::list`. A directory that is not there has no files. -/
def list : List CachedImage :=
  (dir.keys.filterMap fun name => (digestOf name).bind (cached dir)).insertionSort
    (sortsBefore · ·)

/-- `ImageCache::write_record`, when it succeeds. -/
def writeRecord (image : CachedImage) : Dir :=
  dir.insert (recordName image.digest) (.record image.record)

/-- A rootfs is moved in. -/
def moveIn (digest : Str) : Dir :=
  dir.insert (rootfsName digest) .rootfs

/-! ## Pulling -/

/-- Where fetching stops with an error: before it writes a file that others see,
writing the record, or moving the rootfs in. -/
inductive FetchStop
  | registry
  | record
  | rename
  deriving DecidableEq

/-- `ImageCache::fetch` of a reference that resolves to `digest`: the files it leaves, and
whether it succeeded. -/
def fetch (digest : Str) (config : RunConfig) (stop : Option FetchStop) : Dir × Bool :=
  if stop = some .registry then (dir, false)
  else if (cached dir digest).isSome then (dir, true)
  else if stop = some .record then (dir, false)
  else
    let dir := writeRecord dir { digest, config, references := [] }
    if stop = some .rename then (dir, false)
    else (moveIn dir digest, true)

/-- An image once `reference` names the image `digest` and no other. -/
def retarget (reference digest : Str) (image : CachedImage) : CachedImage :=
  let kept := image.references.filter (· ≠ reference)
  { image with
    references :=
      if image.digest = digest then
        (kept ++ [reference]).insertionSort fun a b => (compare a b).isLE
      else kept }

/-- The image to write, if its record changes. The image that was pulled is always written. -/
def changed (reference digest : Str) (image : CachedImage) : Option CachedImage :=
  let after := retarget reference digest image
  if after.references.length ≠ image.references.length ∨ image.digest = digest then some after
  else none

/-- `ImageCache::remember`, when every record is written: the files it leaves, and the image
it answers with. -/
def remember (reference digest : Str) : Dir × Option CachedImage :=
  let dir := ((list dir).filterMap (changed reference digest)).foldl writeRecord dir
  (dir, cached dir digest)

/-! ## Removing -/

/-- `char::is_ascii_hexdigit`. -/
def isHexDigit (c : Char) : Bool :=
  c.isDigit || ('a' ≤ c && c ≤ 'f') || ('A' ≤ c && c ≤ 'F')

/-- The test by which `remove` picks images. `parse` reads a reference and spells it out
whole. -/
def names (parse : Str → Option Str) (argument : Str) (image : CachedImage) : Bool :=
  let byReference := (parse argument).any (image.references.contains ·)
  let hex := (stripPrefix "sha256:" argument).getD argument
  let byDigest := decide (4 ≤ hex.length) && hex.all isHexDigit &&
    (stripPrefix "sha256:" image.digest).any (hex.isPrefixOf ·)
  byReference || byDigest

inductive RemoveError
  | noImage (argument : Str)
  | severalImages (argument : Str) (digests : List Str)
  | file (name : Str)
  deriving DecidableEq

/-- The one image that the argument names. -/
def theImage (parse : Str → Option Str) (dir : Dir) (argument : Str) :
    Except RemoveError CachedImage :=
  match (list dir).filter (names parse argument) with
  | [] => .error (.noImage argument)
  | [found] => .ok found
  | several => .error (.severalImages argument (several.map (·.digest)))

/-- Where removing an image stops with an error. -/
inductive RemoveStop
  | rootfs
  | record
  deriving DecidableEq

/-- The files that removing an image leaves, and the file it failed on. -/
def removeFiles (image : CachedImage) : Option RemoveStop → Dir × Option Str
  | some .rootfs => (dir, some image.rootfs)
  | some .record => (dir.erase image.rootfs, some (recordName image.digest))
  | none => ((dir.erase image.rootfs).erase (recordName image.digest), none)

/-- `ImageCache::remove`. -/
def remove (parse : Str → Option Str) (dir : Dir) (argument : Str) (stop : Option RemoveStop) :
    Dir × Except RemoveError CachedImage :=
  match theImage parse dir argument with
  | .error error => (dir, .error error)
  | .ok found =>
    let left := removeFiles dir found stop
    (left.1, left.2.elim (.ok found) fun name => .error (.file name))

/-! ## The names of the files -/

/-- The digest of a manifest is an algorithm and what it computed. -/
def isDigest (digest : Str) : Bool :=
  (splitOnce ':' digest).any fun parts => !parts.1.contains '-' && !parts.2.contains ':'

variable {dir dir' : Dir} {digest digest' reference : Str}

theorem exists_of_isDigest (h : isDigest digest) :
    ∃ algorithm hex, '-' ∉ algorithm ∧ ':' ∉ algorithm ∧ ':' ∉ hex ∧
      digest = algorithm ++ ':' :: hex := by
  obtain ⟨⟨algorithm, hex⟩, hsplit, hparts⟩ := Option.any_eq_true _ _ |>.mp h
  simp only [Bool.and_eq_true, Bool.not_eq_true', contains_eq_mem,
    decide_eq_false_iff_not] at hparts
  obtain ⟨hdigest, halgorithm⟩ := splitOnce_eq_some.mp hsplit
  exact ⟨algorithm, hex, hparts.1, halgorithm, hparts.2, hdigest⟩

/-- The colon of a digest is the only char that its file names do not keep. -/
theorem path_digest {algorithm hex : Str} (halgorithm : ':' ∉ algorithm) (hhex : ':' ∉ hex)
    (extension : Str) :
    path (algorithm ++ ':' :: hex) extension = algorithm ++ '-' :: hex ++ '.' :: extension := by
  have hkeeps (s : Str) (h : ':' ∉ s) : s.map (fun c => if c = ':' then '-' else c) = s := by
    conv_rhs => rw [← List.map_id s]
    apply map_congr_left
    intro c hc
    rw [if_neg, id]
    intro heq
    exact h (heq ▸ hc)
  simp [path, hkeeps algorithm halgorithm, hkeeps hex hhex]

theorem digestOf_recordName (h : isDigest digest) : digestOf (recordName digest) = some digest := by
  obtain ⟨algorithm, hex, hdash, halgorithm, hhex, rfl⟩ := exists_of_isDigest h
  have hname : recordName (algorithm ++ ':' :: hex) =
      (algorithm ++ '-' :: hex) ++ ".json" := path_digest halgorithm hhex _
  rw [digestOf, hname, stripSuffix_append, bind_some, splitOnce_append hdash]
  rfl

theorem recordName_ne_rootfsName (digest digest' : Str) :
    recordName digest ≠ rootfsName digest' := by
  intro h
  have hlast := congrArg List.getLast? h
  simp [recordName, rootfsName, path] at hlast

/-- The rootfs of an image is not taken for a record. -/
theorem digestOf_rootfsName (digest : Str) : digestOf (rootfsName digest) = none := by
  have hnot : ¬ ".json" <:+ rootfsName digest := by
    rintro ⟨stem, h⟩
    have hlast := congrArg List.getLast? h
    simp [rootfsName, path] at hlast
  rw [digestOf, stripSuffix, if_neg, bind_none]
  rwa [isSuffixOf_iff_suffix]

/-- Two images share no record. -/
theorem recordName_inj (h : isDigest digest) (h' : isDigest digest')
    (heq : recordName digest = recordName digest') : digest = digest' := by
  have hboth := congrArg digestOf heq
  rw [digestOf_recordName h, digestOf_recordName h'] at hboth
  exact Option.some.inj hboth

theorem rootfsName_inj (h : isDigest digest) (h' : isDigest digest')
    (heq : rootfsName digest = rootfsName digest') : digest = digest' := by
  apply recordName_inj h h'
  have hstem := append_cancel_right heq
  rw [recordName, path, hstem]
  rfl

/-- The directory holds files of images only. -/
def Tidy (dir : Dir) : Prop :=
  ∀ name ∈ dir, ∃ digest, isDigest digest = true ∧
    (name = recordName digest ∨ name = rootfsName digest)

theorem tidy_empty : Tidy ∅ := by
  intro name hname
  simp at hname

theorem Tidy.insert (hdir : Tidy dir) (h : isDigest digest)
    (hname : name = recordName digest ∨ name = rootfsName digest) (file : File) :
    Tidy (dir.insert name file) := by
  intro other hother
  rcases ExtTreeMap.mem_insert.mp hother with heq | hother
  · rw [← Std.LawfulEqCmp.eq_of_compare heq]
    exact ⟨digest, h, hname⟩
  · exact hdir other hother

theorem Tidy.erase (hdir : Tidy dir) (name : Str) : Tidy (dir.erase name) := by
  intro other hother
  exact hdir other (ExtTreeMap.mem_of_mem_erase hother)

theorem Tidy.writeRecord (hdir : Tidy dir)
    (h : isDigest image.digest) : Tidy (writeRecord dir image) :=
  hdir.insert h (Or.inl rfl) _

/-! ## What is listed -/

theorem digest_of_cached (h : cached dir digest = some image) : image.digest = digest := by
  unfold cached at h
  split at h
  · split at h
    · cases h
      rfl
    · cases h
  · cases h

/-- An image is cached when its record and its rootfs are there. -/
theorem cached_eq_some : cached dir image.digest = some image ↔
      dir[recordName image.digest]? = some (.record image.record) ∧ image.rootfs ∈ dir := by
  unfold cached
  constructor
  · intro h
    split at h
    · rename_i record hrecord
      split at h
      · rename_i hrootfs
        obtain ⟨digest, config, references⟩ := image
        obtain ⟨-, hconfig, hreferences⟩ := CachedImage.mk.inj (Option.some.inj h)
        refine ⟨hrecord.trans ?_, hrootfs⟩
        rw [CachedImage.record, ← hconfig, ← hreferences]
      · cases h
    · cases h
  · rintro ⟨hrecord, hrootfs⟩
    rw [CachedImage.rootfs] at hrootfs
    rw [hrecord]
    simp [hrootfs, CachedImage.record]

/-- The record of a cached image is one of the names that a listing reads. -/
theorem mem_of_cached (h : cached dir digest = some image) : recordName digest ∈ dir := by
  cases digest_of_cached h
  rw [ExtTreeMap.mem_iff_isSome_getElem?, (cached_eq_some.mp h).1]
  rfl

/-- A name that gives a digest in a tidy directory is the name of its record. -/
theorem Tidy.of_digestOf (hdir : Tidy dir) (hname : name ∈ dir)
    (h : digestOf name = some digest) : isDigest digest ∧ name = recordName digest := by
  obtain ⟨digest', hdigest', hname' | hname'⟩ := hdir name hname
  · rw [hname', digestOf_recordName hdigest'] at h
    cases h
    exact ⟨hdigest', hname'⟩
  · rw [hname', digestOf_rootfsName] at h
    cases h

/-- A listing has exactly the cached images. -/
theorem Tidy.mem_list (hdir : Tidy dir) : image ∈ list dir ↔
      isDigest image.digest ∧ cached dir image.digest = some image := by
  rw [list, mem_insertionSort, mem_filterMap]
  constructor
  · rintro ⟨name, hname, h⟩
    obtain ⟨digest, hdigest, hcached⟩ := bind_eq_some_iff.mp h
    cases digest_of_cached hcached
    exact ⟨(hdir.of_digestOf (ExtTreeMap.mem_keys.mp hname) hdigest).1, hcached⟩
  · rintro ⟨hdigest, hcached⟩
    refine ⟨_, ExtTreeMap.mem_keys.mpr (mem_of_cached hcached), ?_⟩
    rw [digestOf_recordName hdigest]
    exact hcached

/-- No digest is listed twice. -/
theorem Tidy.nodup_list (hdir : Tidy dir) : ((list dir).map (·.digest)).Nodup := by
  rw [list, ((perm_insertionSort _ _).map _).nodup_iff, nodup_iff_pairwise_ne,
    pairwise_map, pairwise_filterMap]
  refine ExtTreeMap.nodup_keys.imp_of_mem ?_
  intro name name' hname hname' hne image h image' h' heq
  obtain ⟨digest, hdigest, hcached⟩ := bind_eq_some_iff.mp h
  obtain ⟨digest', hdigest', hcached'⟩ := bind_eq_some_iff.mp h'
  rw [digest_of_cached hcached, digest_of_cached hcached'] at heq
  subst heq
  apply hne
  rw [(hdir.of_digestOf (ExtTreeMap.mem_keys.mp hname) hdigest).2,
    (hdir.of_digestOf (ExtTreeMap.mem_keys.mp hname') hdigest').2]

/-! ## Changing a file -/

theorem cached_congr (hrecord : dir'[recordName digest]? = dir[recordName digest]?)
    (hrootfs : rootfsName digest ∈ dir' ↔ rootfsName digest ∈ dir) :
    cached dir' digest = cached dir digest := by
  simp only [cached, hrecord, hrootfs]

theorem mem_writeRecord_rootfs :
    rootfsName digest ∈ writeRecord dir image ↔ rootfsName digest ∈ dir := by
  rw [ExtTreeMap.mem_iff_isSome_getElem?, ExtTreeMap.mem_iff_isSome_getElem?, writeRecord,
    lookup_insert_of_ne _ (recordName_ne_rootfsName _ _).symm]

theorem cached_writeRecord_of_ne (himage : isDigest image.digest) (hdigest : isDigest digest)
    (hne : digest ≠ image.digest) : cached (writeRecord dir image) digest = cached dir digest := by
  have hpath : recordName digest ≠ recordName image.digest := by
    intro heq
    exact hne (recordName_inj hdigest himage heq)
  exact cached_congr (lookup_insert_of_ne _ hpath) mem_writeRecord_rootfs

theorem cached_writeRecord (hrootfs : image.rootfs ∈ dir) :
    cached (writeRecord dir image) image.digest = some image := by
  apply cached_eq_some.mpr
  constructor
  · rw [writeRecord, lookup_insert, if_pos rfl]
  · exact mem_writeRecord_rootfs.mpr hrootfs

theorem lookup_moveIn_record (dir : Dir) (digest other : Str) :
    (moveIn dir digest)[recordName other]? = dir[recordName other]? :=
  lookup_insert_of_ne _ (recordName_ne_rootfsName other digest)

theorem mem_moveIn : name ∈ moveIn dir digest ↔ name = rootfsName digest ∨ name ∈ dir := by
  rw [moveIn, ExtTreeMap.mem_insert, Std.LawfulEqCmp.compare_eq_iff_eq, eq_comm]

theorem cached_moveIn_of_ne (h : isDigest digest) (hother : isDigest other) (hne : other ≠ digest) :
    cached (moveIn dir digest) other = cached dir other := by
  apply cached_congr (lookup_moveIn_record dir digest other)
  rw [mem_moveIn]
  apply or_iff_right
  intro heq
  exact hne (rootfsName_inj hother h heq)

/-- A rootfs that replaces one changes nothing. -/
theorem cached_moveIn_of_mem (h : rootfsName digest ∈ dir) :
    cached (moveIn dir digest) digest = cached dir digest := by
  apply cached_congr (lookup_moveIn_record dir digest digest)
  rw [mem_moveIn]
  exact or_iff_right_of_imp fun _ => h

/-- A rootfs that is moved in makes the image of its record a cached one. -/
theorem cached_moveIn (h : dir[recordName image.digest]? = some (.record image.record)) :
    cached (moveIn dir image.digest) image.digest = some image := by
  apply cached_eq_some.mpr
  constructor
  · rw [lookup_moveIn_record, h]
  · exact mem_moveIn.mpr (Or.inl rfl)

theorem Tidy.moveIn (hdir : Tidy dir) (h : isDigest digest) : Tidy (moveIn dir digest) :=
  hdir.insert h (Or.inr rfl) _

/-- Without its rootfs an image is gone, whether its record is left or not. -/
theorem cached_removeFiles (h : isDigest image.digest)
    {stop} (hstop : stop ≠ some .rootfs) (hother : isDigest other) :
    cached (removeFiles dir image stop).1 other =
      if other = image.digest then none else cached dir other := by
  have hrootfs : rootfsName image.digest ∉ (removeFiles dir image stop).1 := by
    cases stop with
    | none => simp [removeFiles, CachedImage.rootfs]
    | some stop =>
      cases stop with
      | rootfs => exact absurd rfl hstop
      | record => simp [removeFiles, CachedImage.rootfs]
  have hkeeps {name} (hne : name ≠ rootfsName image.digest)
      (hne' : name ≠ recordName image.digest) :
      (removeFiles dir image stop).1[name]? = dir[name]? := by
    cases stop with
    | none => simp only [removeFiles, lookup_erase, if_neg hne', CachedImage.rootfs, if_neg hne]
    | some stop =>
      cases stop with
      | rootfs => rfl
      | record => simp only [removeFiles, lookup_erase, CachedImage.rootfs, if_neg hne]
  split
  · rename_i heq
    rw [heq, cached]
    split
    · rw [if_neg hrootfs]
    · rfl
  · rename_i hne
    have hrecord := hkeeps (recordName_ne_rootfsName other image.digest) fun heq =>
      hne (recordName_inj hother h heq)
    have hother := hkeeps (fun heq => hne (rootfsName_inj hother h heq))
      (recordName_ne_rootfsName image.digest other).symm
    apply cached_congr hrecord
    rw [ExtTreeMap.mem_iff_isSome_getElem?, ExtTreeMap.mem_iff_isSome_getElem?, hother]

theorem Tidy.removeFiles (hdir : Tidy dir) (image : CachedImage)
    (stop : Option RemoveStop) : Tidy (removeFiles dir image stop).1 := by
  cases stop with
  | none => exact (hdir.erase _).erase _
  | some stop =>
    cases stop with
    | rootfs => exact hdir
    | record => exact hdir.erase _

/-! ## Moving a reference -/

@[simp]
theorem digest_retarget (reference digest : Str) (image : CachedImage) :
    (retarget reference digest image).digest = image.digest := rfl

theorem mem_retarget : other ∈ (retarget reference digest image).references ↔
      (if other = reference then image.digest = digest else other ∈ image.references) := by
  by_cases hdigest : image.digest = digest
  · by_cases heq : other = reference
    · simp [retarget, hdigest, heq]
    · simp [retarget, hdigest, heq]
  · by_cases heq : other = reference
    · simp [retarget, hdigest, heq]
    · simp [retarget, hdigest, heq]

/-- A record that is not written is as it should be. -/
theorem retarget_of_changed_eq_none (h : changed reference digest image = none) :
    retarget reference digest image = image := by
  simp only [changed] at h
  split at h
  · cases h
  · rename_i hsame
    rw [not_or, not_not] at hsame
    have hkept : image.references.filter (· ≠ reference) = image.references := by
      apply filter_sublist.eq_of_length
      have hlength := hsame.1
      simp only [retarget, if_neg hsame.2] at hlength
      exact hlength
    obtain ⟨_, _, references⟩ := image
    simp only [retarget, if_neg hsame.2, hkept]

theorem changed_eq_some {after} (h : changed reference digest image = some after) :
    after = retarget reference digest image := by
  simp only [changed] at h
  split at h
  · cases h
    rfl
  · cases h

/-- Where an image does not have the reference and is not to get it, nothing changes. -/
theorem retarget_of_not_mem (hne : image.digest ≠ digest)
    (h : reference ∉ image.references) : retarget reference digest image = image := by
  have hkept : image.references.filter (· ≠ reference) = image.references := by
    rw [filter_eq_self]
    intro other hother
    exact decide_eq_true fun heq => h (heq ▸ hother)
  obtain ⟨_, _, references⟩ := image
  simp only [retarget, if_neg hne, hkept]

section Rewrite

variable {found : List CachedImage}

/-- Rewriting the records of images that were read as they are moves the reference in each
of them, and leaves every other image alone. -/
theorem cached_rewrite (hfound : ∀ image ∈ found, isDigest image.digest ∧
      cached dir image.digest = some image)
    (hdistinct : (found.map (·.digest)).Nodup) (hother : isDigest other) :
    cached ((found.filterMap (changed reference digest)).foldl writeRecord dir) other =
      if other ∈ found.map (·.digest) then (cached dir other).map (retarget reference digest)
      else cached dir other := by
  induction found generalizing dir with
  | nil => simp
  | cons image rest ih =>
    rw [map_cons, nodup_cons] at hdistinct
    obtain ⟨himage, hcached⟩ := hfound image mem_cons_self
    have hrest := fun next hnext => hfound next (mem_cons_of_mem image hnext)
    cases hchanged : changed reference digest image with
    | none =>
      rw [filterMap_cons_none hchanged, ih hrest hdistinct.2]
      by_cases heq : other = image.digest
      · rw [heq, if_neg hdistinct.1, if_pos (by simp), hcached, map_some,
          retarget_of_changed_eq_none hchanged]
      · simp [heq]
    | some after =>
      cases changed_eq_some hchanged
      have hkeeps {next} (hnext : isDigest next) (hne : next ≠ image.digest) :
          cached (writeRecord dir (retarget reference digest image)) next =
            cached dir next := cached_writeRecord_of_ne himage hnext hne
      rw [filterMap_cons_some hchanged, foldl_cons, ih _ hdistinct.2]
      · by_cases heq : other = image.digest
        · rw [heq, if_neg hdistinct.1, if_pos (by simp), hcached, map_some,
            ← digest_retarget reference digest image]
          exact cached_writeRecord (cached_eq_some.mp hcached).2
        · rw [hkeeps hother heq]
          simp [heq]
      · intro next hnext
        refine ⟨(hrest next hnext).1, ?_⟩
        rw [hkeeps (hrest next hnext).1]
        · exact (hrest next hnext).2
        · intro heq
          exact hdistinct.1 (List.mem_map.mpr ⟨next, hnext, heq⟩)

/-- It is enough to have read the images that the reference enters or leaves. -/
theorem cached_rewrite_all (hfound : ∀ image ∈ found, isDigest image.digest ∧
      cached dir image.digest = some image)
    (hdistinct : (found.map (·.digest)).Nodup)
    (hall : ∀ image, isDigest image.digest → cached dir image.digest = some image →
      image ∈ found ∨ image.digest ≠ digest ∧ reference ∉ image.references)
    (hother : isDigest other) :
    cached ((found.filterMap (changed reference digest)).foldl writeRecord dir) other =
      (cached dir other).map (retarget reference digest) := by
  rw [cached_rewrite hfound hdistinct hother]
  split
  · rfl
  · rename_i hmissed
    cases hcached : cached dir other with
    | none => rfl
    | some image =>
      cases digest_of_cached hcached
      rcases hall image hother hcached with himage | ⟨hne, hreference⟩
      · exact absurd (List.mem_map.mpr ⟨image, himage, rfl⟩) hmissed
      · rw [map_some, retarget_of_not_mem hne hreference]

theorem tidy_rewrite (hdir : Tidy dir) {todo : List CachedImage}
    (h : ∀ image ∈ todo, isDigest image.digest) : Tidy (todo.foldl writeRecord dir) := by
  induction todo generalizing dir with
  | nil => exact hdir
  | cons image rest ih =>
    rw [forall_mem_cons] at h
    exact ih (hdir.writeRecord h.1) h.2

end Rewrite

/-! ## What the records say -/

/-- The record of a cached image has the reference. -/
def Says (dir : Dir) (digest reference : Str) : Prop :=
  isDigest digest = true ∧ ∃ image, cached dir digest = some image ∧ reference ∈ image.references

theorem says_congr (h : isDigest digest → cached dir' digest = cached dir digest) :
    Says dir' digest reference ↔ Says dir digest reference := by
  apply and_congr_right
  intro hdigest
  rw [h hdigest]

/-- An empty record over an empty one, or over one that does not count, changes nothing. -/
theorem says_writeRecord {fresh} (hfresh : fresh.references = []) (hdigest : isDigest fresh.digest)
    (hempty : ∀ image, cached dir fresh.digest = some image → image.references = []) :
    Says (writeRecord dir fresh) digest reference ↔ Says dir digest reference := by
  by_cases heq : digest = fresh.digest
  · subst heq
    have hnone : ¬ Says dir fresh.digest reference := by
      rintro ⟨-, image, hcached, hreference⟩
      rw [hempty image hcached] at hreference
      cases hreference
    refine iff_of_false ?_ hnone
    rintro ⟨-, image, hcached, hreference⟩
    have heq := digest_of_cached hcached
    rw [← heq] at hcached
    have hrecord := (cached_eq_some.mp hcached).1
    rw [writeRecord, heq, lookup_insert, if_pos rfl] at hrecord
    have href := congrArg Record.references (File.record.inj (Option.some.inj hrecord))
    have hnil : image.references = [] := href.symm.trans hfresh
    rw [hnil] at hreference
    cases hreference
  · exact says_congr fun hother => cached_writeRecord_of_ne hdigest hother heq

/-- So does a rootfs that replaces one, or that is moved in beside an empty record. -/
theorem says_moveIn {moved} (hmoved : isDigest moved) (hempty : rootfsName moved ∈ dir ∨
      ∃ config, dir[recordName moved]? = some (.record ⟨[], config⟩)) :
    Says (moveIn dir moved) digest reference ↔ Says dir digest reference := by
  by_cases heq : digest = moved
  · subst heq
    by_cases hmem : rootfsName digest ∈ dir
    · exact says_congr fun _ => cached_moveIn_of_mem hmem
    · obtain ⟨config, hrecord⟩ := hempty.resolve_left hmem
      let fresh : CachedImage := { digest, config, references := [] }
      have hafter : cached (moveIn dir fresh.digest) fresh.digest = some fresh :=
        cached_moveIn hrecord
      have hbefore : cached dir digest = none := by
        rw [cached, hrecord]
        exact if_neg hmem
      simp only [Says, hbefore]
      rw [show cached (moveIn dir digest) digest = some fresh from hafter]
      simp [fresh]
  · exact says_congr fun hother => cached_moveIn_of_ne hmoved hother heq

end Cirrocumulus.ImageCache
