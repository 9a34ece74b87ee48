/-
# Pulls that share a cache

Several processes may pull into one cache directory at a time, with no lock between
them. A pull looks for its image, writes an empty record and moves the rootfs in if it
was not there, reads all records one by one and writes those that change. Every one of
these is a step of its own here, and the steps of any number of pulls interleave.

A pull decides what to write by what it has read. The references are all kept as long as
no other pull writes a record between the two. Two pulls that read before either has
written lose one of their references.
-/

import Cirrocumulus.Image.CacheRuns
import Cirrocumulus.Lib.Runs

namespace Cirrocumulus.ImageCache

open Std (ExtTreeMap)
open Lib List Option

variable {found : List CachedImage} {id : Nat}

/-! ## Steps -/

/-- Where a pull is. It has resolved its reference before it looks for the image. -/
inductive PullPc
  | look
  | write
  | rename
  | readDir
  | listing (todo : List Str) (found : List CachedImage)
  | rewrite (todo : List CachedImage)
  | done
  | vanished
  deriving DecidableEq

structure Pull where
  reference : Str
  digest : {digest : Str // isDigest digest}
  config : RunConfig
  pc : PullPc := .look
  deriving DecidableEq

variable {pc : PullPc} {pull : Pull}

/-- The record of an image that was just built. -/
def Pull.fresh (pull : Pull) : CachedImage where
  digest := pull.digest
  config := pull.config
  references := []

/-- The next file operation of a pull. -/
def Pull.next (pull : Pull) (dir : Dir) : Option (Dir × PullPc) :=
  match pull.pc with
  | .look => some (dir, if (cached dir pull.digest).isSome then .readDir else .write)
  | .write => some (writeRecord dir pull.fresh, .rename)
  | .rename => some (moveIn dir pull.digest, .readDir)
  | .readDir => some (dir, .listing dir.keys [])
  | .listing (name :: todo) found =>
    some (dir, .listing todo (found ++ ((digestOf name).bind (cached dir)).toList))
  | .listing [] found =>
    some (dir, .rewrite ((found.insertionSort (sortsBefore · ·)).filterMap
      (changed pull.reference pull.digest)))
  | .rewrite (image :: todo) => some (writeRecord dir image, .rewrite todo)
  | .rewrite [] => some (dir, if (cached dir pull.digest).isSome then .done else .vanished)
  | .done => none
  | .vanished => none

/-- Whether a pull is between reading records and the last write that depends on them. -/
def PullPc.reading : PullPc → Bool
  | .write => true
  | .listing _ _ => true
  | .rewrite (_ :: _) => true
  | _ => false

/-- Whether the next step of a pull writes a record. -/
def PullPc.writes : PullPc → Bool
  | .write => true
  | .rewrite (_ :: _) => true
  | _ => false

/-- Whether it is the last record that the pull writes. -/
def PullPc.finishes : PullPc → Bool
  | .rewrite [_] => true
  | _ => false

/-- A cache directory and the pulls into it. `written` has the references and digests of
those that have written their records, the last one first. -/
structure Pulls where
  dir : Dir
  pulls : ExtTreeMap Nat Pull compare := ∅
  written : List (Str × Str) := []

inductive PullEvent
  | start (id : Nat) (reference : Str) (digest : {digest : Str // isDigest digest})
      (config : RunConfig)
  | step (id : Nat)

def Pulls.step (state : Pulls) : PullEvent → Option Pulls
  | .start id reference digest config =>
    if id ∈ state.pulls then none
    else some { state with
      pulls := state.pulls.insert id { reference, digest, config } }
  | .step id =>
    state.pulls[id]?.bind fun pull =>
      (pull.next state.dir).map fun after =>
        { dir := after.1
          pulls := state.pulls.insert id { pull with pc := after.2 }
          written :=
            if pull.pc.finishes then (pull.reference, pull.digest.1) :: state.written
            else state.written }

/-- No other pull is between reading and writing when a pull writes a record. -/
def Pulls.undisturbed (state : Pulls) : PullEvent → Bool
  | .start _ _ _ _ => true
  | .step id =>
    state.pulls[id]?.all fun pull =>
      !pull.pc.writes ||
        state.pulls.toList.all fun item => item.1 == id || !item.2.pc.reading

/-- Every pull has succeeded. -/
def Pulls.allDone (state : Pulls) : Bool :=
  state.pulls.toList.all fun item => item.2.pc = .done

theorem Pulls.done_of_allDone {state : Pulls} (h : state.allDone)
    (hpull : state.pulls[id]? = some pull) : pull.pc = .done := by
  simpa using List.all_eq_true.mp h (id, pull) (mem_items.mpr hpull)

/-! ## A pull that is not interleaved -/

/-- Steps of a pull with no other in between. -/
def Gets (reference : Str) (digest : {digest : Str // isDigest digest = true})
    (config : RunConfig) : Dir × PullPc → Dir × PullPc → Prop :=
  Relation.ReflTransGen fun a b =>
    Pull.next { reference, digest, config, pc := a.2 } a.1 = some b

section

variable {reference : Str} {digest : {digest : Str // isDigest digest = true}}
  {config : RunConfig} {dir : Dir}

theorem Gets.head {first second last}
    (hnext : Pull.next { reference, digest, config, pc := first.2 } first.1 = some second)
    (h : Gets reference digest config second last) : Gets reference digest config first last :=
  Relation.ReflTransGen.head hnext h

theorem gets_listing (todo : List Str) (found : List CachedImage) :
    Gets reference digest config (dir, .listing todo found) (dir, .listing []
      (found ++ todo.filterMap fun name => (digestOf name).bind (cached dir))) := by
  induction todo generalizing found with
  | nil =>
    rw [filterMap_nil, append_nil]
    exact Relation.ReflTransGen.refl
  | cons name todo ih =>
    apply Gets.head rfl
    have hrest := ih (found ++ ((digestOf name).bind (cached dir)).toList)
    rw [append_assoc] at hrest
    have hcons : (name :: todo).filterMap (fun name => (digestOf name).bind (cached dir)) =
        ((digestOf name).bind (cached dir)).toList ++
          todo.filterMap fun name => (digestOf name).bind (cached dir) := by
      rw [filterMap_cons]
      cases (digestOf name).bind (cached dir) with
      | none => rfl
      | some image => rfl
    rw [hcons]
    exact hrest

theorem gets_rewrite (todo : List CachedImage) :
    Gets reference digest config (dir, .rewrite todo)
      (todo.foldl writeRecord dir, .rewrite []) := by
  induction todo generalizing dir with
  | nil => exact Relation.ReflTransGen.refl
  | cons image todo ih => exact Gets.head rfl ih

/-- The records are read and written as `remember` has it. -/
theorem gets_remember :
    Gets reference digest config (dir, .readDir)
      ((remember dir reference digest).1, .rewrite []) := by
  apply Gets.head rfl
  apply (gets_listing dir.keys []).trans
  exact Gets.head rfl (gets_rewrite _)

/-- The steps of a pull that nothing stops and nobody interferes with leave the files that
`fetch` and `remember` leave. -/
theorem pull_alone :
    (fetch dir digest config none).2 = true ∧
      Gets reference digest config (dir, .look)
        ((remember (fetch dir digest config none).1 reference digest).1, .rewrite []) := by
  by_cases hcached : (cached dir digest).isSome
  · have hfetch : fetch dir digest config none = (dir, true) := by simp [fetch, hcached]
    rw [hfetch]
    have hlook : Pull.next { reference, digest, config } dir = some (dir, .readDir) := by
      simp [Pull.next, hcached]
    exact ⟨rfl, .head hlook gets_remember⟩
  · have hfetch : fetch dir digest config none =
        (moveIn (writeRecord dir ⟨digest, config, []⟩) digest, true) := by
      simp [fetch, hcached]
    rw [hfetch]
    have hlook : Pull.next { reference, digest, config } dir = some (dir, .write) := by
      simp [Pull.next, hcached]
    exact ⟨rfl, .head hlook (.head rfl (.head rfl gets_remember))⟩

end

/-! ## What a step does to the files -/

/-- A rootfs can be moved in without bringing old references back. -/
def Ready (dir : Dir) (digest : Str) : Prop :=
  ∃ record, dir[recordName digest]? = some (.record record) ∧
    (rootfsName digest ∈ dir ∨ record.references = [])

/-- What the file operations of pulls do to the directory. -/
inductive Change (dir : Dir) : Dir → Prop
  | same : Change dir dir
  | record {image} (hdigest : isDigest image.digest)
      (hkeeps : image.references = [] ∨ image.rootfs ∈ dir) : Change dir (writeRecord dir image)
  | rootfs {digest} (hdigest : isDigest digest) (hready : Ready dir digest) :
      Change dir (moveIn dir digest)

section

variable {dir dir' : Dir} {digest : Str}

theorem mem_of_cached_isSome (h : (cached dir digest).isSome) : rootfsName digest ∈ dir := by
  obtain ⟨image, himage⟩ := isSome_iff_exists.mp h
  cases digest_of_cached himage
  exact (cached_eq_some.mp himage).2

variable (h : Change dir dir')
include h

theorem Change.mem {name} (hname : name ∈ dir) : name ∈ dir' := by
  cases h with
  | same => exact hname
  | record _ _ => exact ExtTreeMap.mem_insert.mpr (.inr hname)
  | rootfs _ _ => exact mem_moveIn.mpr (.inr hname)

theorem Change.tidy (hdir : Tidy dir) : Tidy dir' := by
  cases h with
  | same => exact hdir
  | record hdigest _ => exact hdir.writeRecord hdigest
  | rootfs hdigest _ => exact hdir.moveIn hdigest

/-- A cached image stays cached. -/
theorem Change.cached (hdigest : isDigest digest) (hcached : (cached dir digest).isSome) :
    (ImageCache.cached dir' digest).isSome := by
  have hrootfs := mem_of_cached_isSome hcached
  cases h with
  | same => exact hcached
  | @record image himage hkeeps =>
    by_cases heq : digest = image.digest
    · subst heq
      rw [cached_writeRecord hrootfs]
      rfl
    · rwa [cached_writeRecord_of_ne himage hdigest heq]
  | @rootfs moved hmoved hready =>
    by_cases heq : digest = moved
    · subst heq
      rwa [cached_moveIn_of_mem hrootfs]
    · rwa [cached_moveIn_of_ne hmoved hdigest heq]

theorem Change.ready (hdigest : isDigest digest)
    (hready : Ready dir digest) : Ready dir' digest := by
  obtain ⟨record, hrecord, hempty⟩ := hready
  cases h with
  | same => exact ⟨record, hrecord, hempty⟩
  | @record image himage hkeeps =>
    by_cases heq : digest = image.digest
    · subst heq
      refine ⟨image.record, ?_, ?_⟩
      · rw [writeRecord, lookup_insert, if_pos rfl]
      · rw [mem_writeRecord_rootfs]
        exact hkeeps.symm
    · refine ⟨record, ?_, hempty.imp_left mem_writeRecord_rootfs.mpr⟩
      rw [writeRecord, lookup_insert_of_ne, hrecord]
      intro hname
      exact heq (recordName_inj hdigest himage hname)
  | rootfs hmoved _ =>
    refine ⟨record, ?_, hempty.imp_left fun hmem => mem_moveIn.mpr (.inr hmem)⟩
    rw [lookup_moveIn_record, hrecord]

end

variable {dir dir' : Dir} {digest : Str}

theorem Ready.empty (h : Ready dir digest) : rootfsName digest ∈ dir ∨
      ∃ config, dir[recordName digest]? = some (.record ⟨[], config⟩) := by
  obtain ⟨⟨references, config⟩, hrecord, hmem | hempty⟩ := h
  · exact .inl hmem
  · have hnil : references = [] := hempty
    rw [hnil] at hrecord
    exact .inr ⟨config, hrecord⟩

/-! ## Where a pull is -/

/-- A pull that reads the records comes to that of its image. -/
structure Lists (dir : Dir) (digest : Str) (todo : List Str) (found : List CachedImage) : Prop where
  cached : (cached dir digest).isSome
  names : ∀ name ∈ todo, name ∈ dir
  images : ∀ image ∈ found, isDigest image.digest ∧ image.rootfs ∈ dir
  own : recordName digest ∈ todo ∨ ∃ image ∈ found, image.digest = digest

/-- What holds of a pull whatever the others do. Its image is there once it was found or
moved in, and every record it is about to write is that of an image with a rootfs. -/
inductive Placed (dir : Dir) (digest : Str) : PullPc → Prop
  | look : Placed dir digest .look
  | write : Placed dir digest .write
  | rename (hready : Ready dir digest) : Placed dir digest .rename
  | readDir (hcached : (cached dir digest).isSome) : Placed dir digest .readDir
  | listing {todo found} (h : Lists dir digest todo found) :
      Placed dir digest (.listing todo found)
  | rewrite {todo} (hcached : (cached dir digest).isSome)
      (htodo : ∀ image ∈ todo, isDigest image.digest ∧ image.rootfs ∈ dir) :
      Placed dir digest (.rewrite todo)
  | done (hcached : (cached dir digest).isSome) : Placed dir digest .done

theorem Placed.keep (h : Placed dir digest pc)
    (hdigest : isDigest digest) (hchange : Change dir dir') : Placed dir' digest pc := by
  cases h with
  | look => exact .look
  | write => exact .write
  | rename hready => exact .rename (hchange.ready hdigest hready)
  | readDir hcached => exact .readDir (hchange.cached hdigest hcached)
  | listing h =>
    exact .listing ⟨hchange.cached hdigest h.cached,
      fun name hname => hchange.mem (h.names name hname),
      fun image himage => (h.images image himage).imp_right hchange.mem, h.own⟩
  | rewrite hcached htodo =>
    apply Placed.rewrite (hchange.cached hdigest hcached)
    intro image himage
    exact (htodo image himage).imp_right hchange.mem
  | done hcached => exact .done (hchange.cached hdigest hcached)

/-- The steps of a pull from where it can be. -/
inductive Moves (dir : Dir) (pull : Pull) : PullPc → Dir → PullPc → Prop
  | found (hcached : (cached dir pull.digest).isSome) : Moves dir pull .look dir .readDir
  | missing (hcached : ¬ (cached dir pull.digest).isSome) : Moves dir pull .look dir .write
  | write : Moves dir pull .write (writeRecord dir pull.fresh) .rename
  | rename (hready : Ready dir pull.digest) :
      Moves dir pull .rename (moveIn dir pull.digest) .readDir
  | readDir (hcached : (cached dir pull.digest).isSome) :
      Moves dir pull .readDir dir (.listing dir.keys [])
  | read {name todo found} (hlists : Lists dir pull.digest (name :: todo) found) :
      Moves dir pull (.listing (name :: todo) found) dir
        (.listing todo (found ++ ((digestOf name).bind (cached dir)).toList))
  /-- The record of the image that was pulled is always written. -/
  | sort {found first rest} (hlists : Lists dir pull.digest [] found)
      (hchanged : (found.insertionSort (sortsBefore · ·)).filterMap
        (changed pull.reference pull.digest) = first :: rest) :
      Moves dir pull (.listing [] found) dir (.rewrite (first :: rest))
  | rewrite {image todo} (hcached : (cached dir pull.digest).isSome)
      (htodo : ∀ other ∈ image :: todo, isDigest other.digest ∧ other.rootfs ∈ dir) :
      Moves dir pull (.rewrite (image :: todo)) (writeRecord dir image) (.rewrite todo)
  | done (hcached : (cached dir pull.digest).isSome) : Moves dir pull (.rewrite []) dir .done

theorem Placed.moves (h : Placed dir pull.digest pull.pc)
    (hnext : pull.next dir = some (dir', pc)) : Moves dir pull pull.pc dir' pc := by
  unfold Pull.next at hnext
  generalize pull.pc = start at h hnext ⊢
  cases h with
  | look =>
    cases hnext
    split
    case isTrue hcached => exact .found hcached
    case isFalse hcached => exact .missing hcached
  | write =>
    cases hnext
    exact .write
  | rename hready =>
    cases hnext
    exact .rename hready
  | readDir hcached =>
    cases hnext
    exact .readDir hcached
  | @listing todo found h =>
    cases todo with
    | cons name todo =>
      cases hnext
      exact .read h
    | nil =>
      cases hnext
      obtain ⟨image, himage, heq⟩ := h.own.resolve_left not_mem_nil
      have hchanged : changed pull.reference pull.digest image =
          some (retarget pull.reference pull.digest image) := by
        simp [changed, heq]
      have hmem := mem_filterMap.mpr
        ⟨image, (mem_insertionSort (sortsBefore · ·)).mpr himage, hchanged⟩
      obtain ⟨first, rest, hcons⟩ := exists_cons_of_ne_nil (ne_nil_of_mem hmem)
      rw [hcons]
      exact .sort h hcons
  | @rewrite todo hcached htodo =>
    cases todo with
    | cons image todo =>
      cases hnext
      exact .rewrite hcached htodo
    | nil =>
      cases hnext
      rw [if_pos hcached]
      exact .done hcached
  | done hcached => cases hnext

/-- Every step of a pull is a change of one file at most, and leads where it should. -/
theorem Moves.placed {start} (h : Moves dir pull start dir' pc) (hdir : Tidy dir) :
    Change dir dir' ∧ Placed dir' pull.digest pc := by
  have hdigest := pull.digest.2
  cases h with
  | found hcached => exact ⟨.same, .readDir hcached⟩
  | missing => exact ⟨.same, .write⟩
  | write =>
    refine ⟨.record hdigest (.inl rfl), .rename ⟨pull.fresh.record, ?_, .inr rfl⟩⟩
    rw [writeRecord, lookup_insert]
    exact if_pos rfl
  | rename hready =>
    refine ⟨.rootfs hdigest hready, .readDir ?_⟩
    obtain ⟨record, hrecord, -⟩ := hready
    let image : CachedImage := ⟨pull.digest, record.config, record.references⟩
    have hmoved : cached (moveIn dir image.digest) image.digest = some image :=
      cached_moveIn hrecord
    exact isSome_iff_exists.mpr ⟨image, hmoved⟩
  | readDir hcached =>
    obtain ⟨image, himage⟩ := isSome_iff_exists.mp hcached
    refine ⟨.same, .listing ⟨hcached, fun name => ExtTreeMap.mem_keys.mp, forall_mem_nil _,
      .inl ?_⟩⟩
    exact ExtTreeMap.mem_keys.mpr (mem_of_cached himage)
  | sort hlists hchanged =>
    refine ⟨.same, .rewrite hlists.cached fun image himage => ?_⟩
    rw [← hchanged] at himage
    obtain ⟨before, hbefore, hchanged⟩ := mem_filterMap.mp himage
    rw [changed_eq_some hchanged]
    exact hlists.images before (mem_insertionSort _ |>.mp hbefore)
  | read hlists =>
    obtain ⟨hcached, htodo, hfound, hown⟩ := hlists
    rw [forall_mem_cons] at htodo
    refine ⟨.same, .listing ⟨hcached, htodo.2, fun image himage => ?_, ?_⟩⟩
    · rcases mem_append.mp himage with himage | himage
      · exact hfound image himage
      · obtain ⟨other, hother, hread⟩ := bind_eq_some_iff.mp (mem_toList.mp himage)
        cases digest_of_cached hread
        exact ⟨(hdir.of_digestOf htodo.1 hother).1, (cached_eq_some.mp hread).2⟩
    · rcases hown with hown | ⟨image, himage, heq⟩
      · rcases mem_cons.mp hown with rfl | hown
        · obtain ⟨image, himage⟩ := isSome_iff_exists.mp hcached
          refine .inr ⟨image, mem_append_right _ ?_, digest_of_cached himage⟩
          rw [digestOf_recordName hdigest, bind_some, himage]
          exact mem_singleton_self image
        · exact .inl hown
      · exact .inr ⟨image, mem_append_left _ himage, heq⟩
  | rewrite hcached htodo =>
    rw [forall_mem_cons] at htodo
    have hchange := Change.record htodo.1.1 (.inr htodo.1.2)
    refine ⟨hchange, .rewrite (hchange.cached hdigest hcached) fun other hother => ?_⟩
    exact (htodo.2 other hother).imp_right hchange.mem
  | done hcached => exact ⟨.same, .done hcached⟩

/-- A pull does not leave off between reading and writing without a write. -/
theorem Moves.writes_of_reading {start} (h : Moves dir pull start dir' pc)
    (hreading : start.reading) (hnot : pc.reading = false) : start.writes := by
  cases h with
  | write | rewrite => rfl
  | read | sort => cases hnot
  | _ => cases hreading

/-- A pull that is not reading moves a rootfs at most. -/
theorem Moves.of_not_reading {start} (h : Moves dir pull start dir' pc)
    (hreading : start.reading = false) : start.finishes = false ∧
      (dir' = dir ∨ dir' = moveIn dir pull.digest ∧ Ready dir pull.digest) := by
  cases h with
  | found | missing | readDir | done => exact ⟨rfl, .inl rfl⟩
  | rename hready => exact ⟨rfl, .inr ⟨rfl, hready⟩⟩
  | _ => cases hreading

/-! ## What the others may not disturb -/

/-- What a pull has read so far is as it was, but for images without references that were
moved in since. -/
structure Read (dir : Dir) (digest : Str) (todo : List Str) (found : List CachedImage) : Prop where
  same : ∀ image ∈ found, cached dir image.digest = some image
  once : (found.map (fun image => recordName image.digest) ++ todo).Nodup
  all : ∀ image, isDigest image.digest → cached dir image.digest = some image →
    image ∈ found ∨ recordName image.digest ∈ todo ∨
      image.references = [] ∧ image.digest ≠ digest

/-- What holds at each point of a pull when no other is between reading and writing. The
records track the history, and while some are still to be written they will. -/
def Holds (dir : Dir) (history : List Done) (reference digest : Str) : PullPc → Prop
  | .write => Tracks dir history ∧ ∀ image, cached dir digest = some image → image.references = []
  | .listing todo found => Tracks dir history ∧ Read dir digest todo found
  | .rewrite (image :: todo) =>
    Tracks ((image :: todo).foldl writeRecord dir) (.pulled reference digest :: history)
  | _ => Tracks dir history

theorem holds_of_not_reading {history reference} (h : pc.reading = false) :
    Holds dir history reference digest pc ↔ Tracks dir history := by
  cases pc with
  | look | rename | readDir | done | vanished => rfl
  | write => cases h
  | listing _ _ => cases h
  | rewrite todo =>
    cases todo with
    | nil => rfl
    | cons _ _ => cases h

section

variable {dir : Dir} {digest : Str}

theorem Read.start : Read dir digest dir.keys [] where
  same := forall_mem_nil _
  once := ExtTreeMap.nodup_keys
  all _ _ hcached := .inr (.inl (ExtTreeMap.mem_keys.mpr (mem_of_cached hcached)))

theorem Read.next {name todo} (hdir : Tidy dir)
    (hname : name ∈ dir) (h : Read dir digest (name :: todo) found) :
    Read dir digest todo (found ++ ((digestOf name).bind (cached dir)).toList) := by
  cases hread : (digestOf name).bind (cached dir) with
  | none =>
    rw [toList_none, append_nil]
    refine ⟨h.same, h.once.sublist ?_, fun image himage hcached => ?_⟩
    · exact (sublist_cons_self name todo).append_left _
    · rcases h.all image himage hcached with hfound | hmem | hempty
      · exact .inl hfound
      · rcases mem_cons.mp hmem with rfl | hmem
        · rw [digestOf_recordName himage, bind_some, hcached] at hread
          cases hread
        · exact .inr (.inl hmem)
      · exact .inr (.inr hempty)
  | some read =>
    obtain ⟨other, hother, hcached⟩ := bind_eq_some_iff.mp hread
    cases digest_of_cached hcached
    have heq := (hdir.of_digestOf hname hother).2
    refine ⟨?_, ?_, fun image himage hcached' => ?_⟩
    · intro image himage
      rcases mem_append.mp himage with himage | himage
      · exact h.same image himage
      · cases mem_singleton.mp himage
        exact hcached
    · have honce := h.once
      rw [heq] at honce
      simpa using honce
    · rcases h.all image himage hcached' with hfound | hmem | hempty
      · exact .inl (mem_append_left _ hfound)
      · rcases mem_cons.mp hmem with hnow | hmem
        · have hsame := recordName_inj himage (hdir.of_digestOf hname hother).1
            (hnow.trans heq)
          rw [hsame, hcached] at hcached'
          cases hcached'
          exact .inl (mem_append_right _ (mem_singleton_self _))
        · exact .inr (.inl hmem)
      · exact .inr (.inr hempty)

/-- Once all records are read, writing those that change moves the reference. -/
theorem Read.rewrite (h : Read dir digest [] found) (reference : Str)
    (hfound : ∀ image ∈ found, isDigest image.digest) {other}
    (hother : isDigest other) :
    cached (((found.insertionSort (sortsBefore · ·)).filterMap
      (changed reference digest)).foldl writeRecord dir) other =
        (cached dir other).map (retarget reference digest) := by
  have hperm := perm_insertionSort (sortsBefore · ·) found
  apply cached_rewrite_all _ _ _ hother
  · intro image himage
    have hmem := hperm.mem_iff.mp himage
    exact ⟨hfound image hmem, h.same image hmem⟩
  · rw [(hperm.map _).nodup_iff]
    have honce := h.once
    rw [append_nil] at honce
    have hnames : (found.map (·.digest)).map recordName =
        found.map fun image => recordName image.digest := List.map_map
    rw [← hnames] at honce
    exact honce.of_map
  · intro image himage hcached
    rcases h.all image himage hcached with hmem | hmem | ⟨hempty, hne⟩
    · exact .inl (hperm.mem_iff.mpr hmem)
    · cases hmem
    · refine .inr ⟨hne, ?_⟩
      rw [hempty]
      exact not_mem_nil

end

/-- The steps of a pull that no other disturbs. -/
theorem Holds.moves {start history} (hdir : Tidy dir) (hmove : Moves dir pull start dir' pc)
    (h : Holds dir history pull.reference pull.digest start) :
    Holds dir' (if start.finishes then .pulled pull.reference pull.digest :: history else history)
      pull.reference pull.digest pc := by
  have hdigest := pull.digest.2
  cases hmove with
  | found | done => exact h
  | missing hcached =>
    refine ⟨h, fun image himage => ?_⟩
    exact absurd (isSome_iff_exists.mpr ⟨image, himage⟩) hcached
  | write =>
    apply h.1.congr
    intro other reference
    exact says_writeRecord rfl hdigest h.2
  | rename hready =>
    have htracks : Tracks dir history := h
    apply htracks.congr
    intro other reference
    exact says_moveIn hdigest hready.empty
  | readDir => exact ⟨h, .start⟩
  | sort hlists hchanged =>
    have htracks := h.1.pulled hdigest hlists.cached fun other hother =>
      h.2.rewrite pull.reference (fun image himage => (hlists.images image himage).1) hother
    rwa [hchanged] at htracks
  | read hlists => exact ⟨h.1, h.2.next hdir (hlists.names _ mem_cons_self)⟩
  | @rewrite image todo =>
    cases todo with
    | nil | cons => exact h

section

variable {dir : Dir} {moved : Str}

/-- An image that a rootfs makes a cached one has no references. -/
theorem Ready.cached_moveIn (hready : Ready dir moved) (hmoved : isDigest moved)
    {image} (hdigest : isDigest image.digest)
    (h : cached (moveIn dir moved) image.digest = some image) :
    cached dir image.digest = some image ∨
      image.digest = moved ∧ rootfsName moved ∉ dir ∧ image.references = [] := by
  by_cases heq : image.digest = moved
  · by_cases hmem : rootfsName moved ∈ dir
    · rw [heq, cached_moveIn_of_mem hmem, ← heq] at h
      exact .inl h
    · obtain ⟨record, hrecord, hempty⟩ := hready
      have hsame := (cached_eq_some.mp h).1
      rw [lookup_moveIn_record, heq, hrecord, Option.some.injEq, File.record.injEq] at hsame
      have hreferences : record.references = image.references := congrArg Record.references hsame
      exact .inr ⟨heq, hmem, hreferences.symm.trans (hempty.resolve_left hmem)⟩
  · rw [cached_moveIn_of_ne hmoved hdigest heq] at h
    exact .inl h

/-- A cached image is as it was. -/
theorem cached_moveIn_of_cached {digest} (hmoved : isDigest moved)
    (hdigest : isDigest digest) (h : (cached dir digest).isSome) :
    cached (moveIn dir moved) digest = cached dir digest := by
  by_cases heq : digest = moved
  · subst heq
    exact cached_moveIn_of_mem (mem_of_cached_isSome h)
  · exact cached_moveIn_of_ne hmoved hdigest heq

theorem Read.moveIn {digest todo} (h : Read dir digest todo found)
    (hfound : ∀ image ∈ found, isDigest image.digest)
    (hcached : (cached dir digest).isSome) (hmoved : isDigest moved)
    (hready : Ready dir moved) : Read (moveIn dir moved) digest todo found := by
  refine ⟨fun image himage => ?_, h.once, fun image himage hafter => ?_⟩
  · have hsame := h.same image himage
    rw [cached_moveIn_of_cached hmoved (hfound image himage), hsame]
    exact isSome_iff_exists.mpr ⟨image, hsame⟩
  · rcases hready.cached_moveIn hmoved himage hafter with hbefore | ⟨heq, hmem, hempty⟩
    · exact h.all image himage hbefore
    · refine .inr (.inr ⟨hempty, fun hown => hmem ?_⟩)
      rw [← heq, hown]
      exact mem_of_cached_isSome hcached

theorem writeRecord_moveIn (image : CachedImage) :
    writeRecord (moveIn dir moved) image = moveIn (writeRecord dir image) moved := by
  apply ExtTreeMap.ext_getElem?
  intro name
  simp only [writeRecord, moveIn, lookup_insert]
  by_cases hrecord : name = recordName image.digest
  · subst hrecord
    simp [recordName_ne_rootfsName image.digest moved]
  · simp [hrecord]

/-- The records still to be written do not depend on a rootfs that is moved in meanwhile. -/
theorem tracks_rewrite_moveIn {history} {todo : List CachedImage}
    (htodo : ∀ image ∈ todo, isDigest image.digest ∧ image.rootfs ∈ dir)
    (h : Tracks (todo.foldl writeRecord dir) history) (hmoved : isDigest moved)
    (hready : Ready dir moved) : Tracks (todo.foldl writeRecord (moveIn dir moved)) history := by
  induction todo generalizing dir with
  | nil =>
    apply h.congr
    intro other reference
    exact says_moveIn hmoved hready.empty
  | cons image todo ih =>
    rw [forall_mem_cons] at htodo
    have hchange : Change dir (writeRecord dir image) := .record htodo.1.1 (.inr htodo.1.2)
    rw [foldl_cons, writeRecord_moveIn]
    apply ih _ h (hchange.ready hmoved hready)
    intro other hother
    exact (htodo.2 other hother).imp_right hchange.mem

/-- A rootfs that another pull moves in disturbs nobody. -/
theorem Holds.moveIn {history} {reference digest : Str}
    (h : Holds dir history reference digest pc) (hplaced : Placed dir digest pc)
    (hdigest : isDigest digest) (hmoved : isDigest moved)
    (hready : Ready dir moved) : Holds (moveIn dir moved) history reference digest pc := by
  have hframe (htracks : Tracks dir history) : Tracks (ImageCache.moveIn dir moved) history :=
    tracks_rewrite_moveIn (forall_mem_nil _) htracks hmoved hready
  cases hplaced with
  | look | rename | readDir | done => exact hframe h
  | write =>
    refine ⟨hframe h.1, fun image himage => ?_⟩
    cases digest_of_cached himage
    rcases hready.cached_moveIn hmoved hdigest himage with hbefore | ⟨-, -, hempty⟩
    · exact h.2 image hbefore
    · exact hempty
  | listing hlists =>
    refine ⟨hframe h.1, h.2.moveIn ?_ hlists.cached hmoved hready⟩
    intro image himage
    exact (hlists.images image himage).1
  | @rewrite todo hcached htodo =>
    cases todo with
    | nil => exact hframe h
    | cons image todo => exact tracks_rewrite_moveIn htodo h hmoved hready

end

/-! ## Runs -/

/-- What holds of all pulls whatever their order. -/
structure Pulls.Orderly (state : Pulls) : Prop where
  tidy : Tidy state.dir
  placed : ∀ {id : Nat} {pull}, state.pulls[id]? = some pull →
    Placed state.dir pull.digest pull.pc
  recorded : ∀ {id : Nat} {pull}, state.pulls[id]? = some pull →
    pull.pc = .rewrite [] ∨ pull.pc = .done → (pull.reference, pull.digest.1) ∈ state.written

/-- No pull but this one is between reading and writing. -/
def Pulls.Undisturbed (state : Pulls) (id : Nat) : Prop :=
  ∀ (other : Nat) (pull : Pull), other ≠ id → state.pulls[other]? = some pull →
    pull.pc.reading = false

/-- The history of the cache that the pulls found, and of those that have written. -/
def Pulls.history (state : Pulls) (before : List Done) : List Done :=
  state.written.map (fun pair => .pulled pair.1 pair.2) ++ before

/-- A pull holds on to what it has read unless another is reading too. -/
def Pulls.Kept (before : List Done) (state : Pulls) : Prop :=
  ∀ id, state.Undisturbed id →
    (∀ pull, state.pulls[id]? = some pull →
      Holds state.dir (state.history before) pull.reference pull.digest pull.pc) ∧
    (state.pulls[id]? = none → Tracks state.dir (state.history before))

section

variable {state next : Pulls} {before : List Done} {event : PullEvent}

theorem Pulls.step_eq_some (h : state.step (.step id) = some next) :
    ∃ pull dir pc, state.pulls[id]? = some pull ∧ pull.next state.dir = some (dir, pc) ∧
      next.dir = dir ∧ next.pulls = state.pulls.insert id { pull with pc } ∧
      next.written =
        if pull.pc.finishes then (pull.reference, pull.digest.1) :: state.written
        else state.written := by
  obtain ⟨pull, hpull, hafter⟩ := bind_eq_some_iff.mp h
  obtain ⟨⟨dir, pc⟩, hnext, rfl⟩ := map_eq_some_iff.mp hafter
  exact ⟨pull, dir, pc, hpull, hnext, rfl, rfl, rfl⟩

/-- A pull that has nothing left to write has just written, or had before. -/
theorem Moves.recorded {start dir dir'} (h : Moves dir pull start dir' pc)
    (hpc : pc = .rewrite [] ∨ pc = .done) : start.finishes ∨ start = .rewrite [] := by
  cases h with
  | done => exact .inr rfl
  | rewrite =>
    simp only [PullPc.rewrite.injEq, reduceCtorEq, or_false] at hpc
    rw [hpc]
    exact .inl rfl
  | _ => simp at hpc

theorem Pulls.Orderly.step (h : state.Orderly) (hstep : state.step event = some next) :
    next.Orderly := by
  cases event with
  | start id reference digest config =>
    obtain ⟨-, hnext⟩ := ite_none_left_eq_some.mp hstep
    cases hnext
    refine ⟨h.tidy, fun hpull => ?_, fun hpull => ?_⟩
    · exact forall_insert (motive := fun _ (pull : Pull) =>
        Placed state.dir pull.digest pull.pc) .look h.placed hpull
    · refine forall_insert (motive := fun _ (pull : Pull) =>
        pull.pc = .rewrite [] ∨ pull.pc = .done →
          (pull.reference, pull.digest.1) ∈ state.written) ?_ h.recorded hpull
      simp
  | step id =>
    obtain ⟨pull, dir, pc, hpull, hpc, hdir, hpulls, hwritten⟩ := step_eq_some hstep
    have hmove := (h.placed hpull).moves hpc
    obtain ⟨hchange, hplaced⟩ := hmove.placed h.tidy
    have hkept {entry : Str × Str} (hentry : entry ∈ state.written) : entry ∈ next.written := by
      rw [hwritten]
      split
      · exact mem_cons_of_mem _ hentry
      · exact hentry
    subst hdir
    refine ⟨hchange.tidy h.tidy, fun hfound => ?_, fun hfound => ?_⟩
    · rw [hpulls] at hfound
      refine forall_insert (motive := fun _ (pull : Pull) =>
        Placed next.dir pull.digest pull.pc) hplaced ?_ hfound
      intro other found hfound
      exact (h.placed hfound).keep found.digest.2 hchange
    · rw [hpulls] at hfound
      refine forall_insert (motive := fun _ (pull : Pull) =>
        pull.pc = .rewrite [] ∨ pull.pc = .done →
          (pull.reference, pull.digest.1) ∈ next.written) ?_ ?_ hfound
      · intro hdone
        rcases hmove.recorded hdone with hfinishes | hwrote
        · rw [hwritten, if_pos hfinishes]
          exact mem_cons_self
        · have hrecorded := h.recorded hpull (.inl hwrote)
          exact hkept hrecorded
      · intro other found hfound hdone
        exact hkept (h.recorded hfound hdone)

theorem Pulls.undisturbed_of_writes (hok : state.undisturbed (.step id))
    (hpull : state.pulls[id]? = some pull)
    (hwrites : pull.pc.writes) : state.Undisturbed id := by
  intro other found hne hfound
  simp only [undisturbed, hpull, all_some, hwrites, Bool.not_true, Bool.false_or,
    List.all_eq_true] at hok
  have hitem := hok (other, found) (mem_items.mpr hfound)
  simpa [hne] using hitem

/-- What a pull's own step and the others' do to what it holds on to. -/
theorem Pulls.Kept.step (h : state.Kept before) (horderly : state.Orderly)
    (hok : state.undisturbed event) (hstep : state.step event = some next) :
    next.Kept before := by
  cases event with
  | start id reference digest config =>
    obtain ⟨hfree, hnext⟩ := ite_none_left_eq_some.mp hstep
    cases hnext
    have hnone : state.pulls[id]? = none := ExtTreeMap.getElem?_eq_none hfree
    intro id' halone
    have halone' : state.Undisturbed id' := by
      intro other pull hne hother
      apply halone other pull hne
      rw [lookup_insert_of_ne, hother]
      rintro rfl
      cases hnone.symm.trans hother
    obtain ⟨hsome, htracks⟩ := h id' halone'
    refine ⟨fun pull hpull => ?_, fun hnone' => ?_⟩
    · obtain ⟨heq, rfl⟩ | ⟨-, hpull⟩ := of_lookup_insert hpull
      · exact htracks (heq ▸ hnone)
      · exact hsome pull hpull
    · rw [lookup_insert] at hnone'
      split at hnone'
      · cases hnone'
      · exact htracks hnone'
  | step id =>
    obtain ⟨pull, dir, pc, hpull, hpc, hdir, hpulls, hwritten⟩ := step_eq_some hstep
    subst hdir
    have hmove := (horderly.placed hpull).moves hpc
    have hhistory : next.history before =
        if pull.pc.finishes then .pulled pull.reference pull.digest :: state.history before
        else state.history before := by
      rw [history, hwritten]
      split
      · rfl
      · rfl
    -- The pull that moves, when no other is reading.
    have hown (halone : state.Undisturbed id) :
        Holds next.dir (next.history before) pull.reference pull.digest pc := by
      rw [hhistory]
      exact ((h id halone).1 pull hpull).moves horderly.tidy hmove
    have hlookup {other : Nat} (hne : other ≠ id) : next.pulls[other]? = state.pulls[other]? := by
      rw [hpulls, lookup_insert_of_ne _ hne]
    intro id' halone
    by_cases heq : id' = id
    · subst heq
      have halone' : state.Undisturbed id' := by
        intro other found hne hfound
        exact halone other found hne ((hlookup hne).trans hfound)
      rw [hpulls, lookup_insert, if_pos rfl]
      refine ⟨fun found hfound => ?_, fun hnone => ?_⟩
      · cases hfound
        exact hown halone'
      · cases hnone
    · have hmover : next.pulls[id]? = some { pull with pc } := by
        rw [hpulls, lookup_insert, if_pos rfl]
      have hquiet : pc.reading = false := halone id _ (Ne.symm heq) hmover
      rw [hlookup heq]
      cases hreading : pull.pc.reading with
      | true =>
        -- It has just written, so nobody else was reading.
        have hwrites := hmove.writes_of_reading hreading hquiet
        have hother := undisturbed_of_writes hok hpull hwrites
        have htracks := (holds_of_not_reading hquiet).mp (hown hother)
        refine ⟨fun found hfound => ?_, fun _ => htracks⟩
        exact (holds_of_not_reading (hother id' found heq hfound)).mpr htracks
      | false =>
        have halone' : state.Undisturbed id' := by
          intro other found hne hfound
          by_cases hsame : other = id
          · subst hsame
            cases hpull.symm.trans hfound
            exact hreading
          · exact halone other found hne ((hlookup hsame).trans hfound)
        obtain ⟨hholds, htracks⟩ := h id' halone'
        obtain ⟨hfinishes, hsame | ⟨hmoved, hready⟩⟩ := hmove.of_not_reading hreading
        · rw [hhistory, if_neg (by simp [hfinishes]), hsame]
          exact ⟨hholds, htracks⟩
        · rw [hhistory, if_neg (by simp [hfinishes]), hmoved]
          refine ⟨fun found hfound => ?_, fun hnone => ?_⟩
          · exact (hholds found hfound).moveIn (horderly.placed hfound) found.digest.2
              pull.digest.2 hready
          · exact tracks_rewrite_moveIn (forall_mem_nil _) (htracks hnone)
              pull.digest.2 hready

end

/-- The history has a reference where the last of its pulls put it. -/
theorem pointsTo_history (written : List (Str × Str)) (before : List Done) (reference : Str) :
    pointsTo (written.map (fun pair => .pulled pair.1 pair.2) ++ before) reference =
      (written.lookup reference).or (pointsTo before reference) := by
  induction written with
  | nil => rfl
  | cons pair written ih =>
    rw [map_cons, cons_append, pointsTo, ih, lookup_cons]
    by_cases heq : reference = pair.1
    · simp [heq]
    · simp [heq, beq_eq_false_iff_ne.mpr heq]

theorem exists_lookup {reference} {written : List (Str × Str)}
    (h : (reference, digest) ∈ written) : ∃ last, written.lookup reference = some last := by
  induction written with
  | nil => cases h
  | cons pair written ih =>
    rw [lookup_cons]
    by_cases heq : reference = pair.1
    · exact ⟨pair.2, by simp [heq]⟩
    · rw [beq_eq_false_iff_ne.mpr heq]
      rcases mem_cons.mp h with rfl | h
      · exact absurd rfl heq
      · exact ih h

/-- Pulls into a cache, none of which writes a record while another is between reading records
and writing those that change, keep every reference. When all of them are done, the reference
of each is listed under the digest of the last pull of it, and under no other. -/
theorem concurrent_pulls_keep_references {cache : Cache} (hcache : cache.Sound)
    {schedule : List PullEvent} {state : Pulls}
    (hrun : run Pulls.step { dir := cache.dir } schedule = some state)
    (hok : Along Pulls.step (fun state event => state.undisturbed event)
      { dir := cache.dir } schedule) (hdone : state.allDone) {id : Nat} {pull : Pull}
    (hpull : state.pulls[id]? = some pull) :
    (pull.reference, pull.digest.1) ∈ state.written ∧
    ∃ last, state.written.lookup pull.reference = some last ∧
      ∃ image ∈ list state.dir, image.digest = last ∧ pull.reference ∈ image.references ∧
        ∀ other ∈ list state.dir, pull.reference ∈ other.references → other = image := by
  have hinv : state.Orderly ∧ state.Kept cache.history := by
    let inv (state : Pulls) : Prop := state.Orderly ∧ state.Kept cache.history
    have hstart : inv { dir := cache.dir } := by
      refine ⟨⟨hcache.tidy, ?_, ?_⟩, fun id _ => ⟨?_, fun _ => hcache.tracks⟩⟩
      · simp
      · simp
      · simp
    have hend : inv state := by
      apply run_preserves _ hstart hok hrun
      intro state event next hok hinv hstep
      exact ⟨hinv.1.step hstep, hinv.2.step hinv.1 hok hstep⟩
    exact hend
  obtain ⟨horderly, hkept⟩ := hinv
  have htracks : Tracks state.dir (state.history cache.history) := by
    have halone : state.Undisturbed id := by
      intro other found _ hfound
      rw [Pulls.done_of_allDone hdone hfound]
      rfl
    have hholds := (hkept id halone).1 pull hpull
    rw [Pulls.done_of_allDone hdone hpull] at hholds
    exact hholds
  have hsound : Cache.Sound ⟨state.dir, state.history cache.history⟩ := ⟨horderly.tidy, htracks⟩
  have hwritten := horderly.recorded hpull (.inr (Pulls.done_of_allDone hdone hpull))
  obtain ⟨last, hlast⟩ := exists_lookup hwritten
  have hpoints : pointsTo (state.history cache.history) pull.reference = some last := by
    rw [Pulls.history, pointsTo_history, hlast, some_or]
  obtain ⟨image, himage, hdigest, hreference⟩ := hsound.listed_iff.mpr hpoints
  refine ⟨hwritten, last, hlast, image, himage, hdigest, hreference, fun other hother hmem => ?_⟩
  exact hsound.image_unique hother himage hmem hreference

/-! ## A reference that is lost -/

/-- Two pulls of references to one image, one of them done with the rootfs before the other
looks. -/
def bothFound : List PullEvent :=
  [.start 1 "app:v1" ⟨"sha256:11", by decide⟩ {}, .step 1, .step 1, .step 1,
    .start 2 "app:stable" ⟨"sha256:11", by decide⟩ {}, .step 2]

/-- The second pull reads the records when the first has written its own. -/
def oneAfterTheOther : List PullEvent :=
  bothFound ++ List.replicate 6 (.step 1) ++ List.replicate 6 (.step 2)

/-- The second pull reads them before. -/
def bothRead : List PullEvent :=
  bothFound ++ List.replicate 4 (.step 1) ++ List.replicate 4 (.step 2) ++
    List.replicate 2 (.step 1) ++ List.replicate 2 (.step 2)

theorem pulls_one_after_the_other_keep_references :
    ∃ state image, run Pulls.step { dir := ∅ } oneAfterTheOther = some state ∧
      image ∈ list state.dir ∧ image.digest = "sha256:11".toList ∧
      "app:v1".toList ∈ image.references := by
  obtain ⟨state, hrun, hdone, hlast, pull, hpull, hreference⟩ : ∃ state : Pulls,
      run Pulls.step { dir := ∅ } oneAfterTheOther = some state ∧ state.allDone ∧
      state.written.lookup "app:v1".toList = some "sha256:11".toList ∧
      ∃ pull, state.pulls[1]? = some pull ∧ pull.reference = "app:v1".toList := by
    decide +kernel
  have hempty : Cache.Sound {} := ⟨tidy_empty, tracks_empty⟩
  obtain ⟨-, last, hlast', image, himage, hdigest, hmem, -⟩ :=
    concurrent_pulls_keep_references hempty hrun (by decide +kernel) hdone hpull
  rw [hreference] at hlast' hmem
  cases hlast.symm.trans hlast'
  exact ⟨state, image, hrun, himage, hdigest, hmem⟩

/-- Both pulls succeed, and the first one's reference is nowhere. -/
theorem pulls_that_both_read_lose_reference :
    ∃ state, run Pulls.step { dir := ∅ } bothRead = some state ∧ state.allDone ∧
      ("app:v1".toList, "sha256:11".toList) ∈ state.written ∧
      ∀ image ∈ list state.dir, "app:v1".toList ∉ image.references := by
  decide +kernel

end Cirrocumulus.ImageCache
