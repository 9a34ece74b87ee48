/-
# What the image cache remembers

Pulls and removals that run one after another keep the records in step with what was
pulled. The history of a cache is the list of its completed pulls and of the images
whose rootfs was removed, newest first. An image counts as removed as soon as its rootfs
is gone, also when its record then could not be deleted: such an image is listed no more
and the next pull of it writes a record with no references.

A digest is an algorithm and what it computed, with one colon between them. The files of
a digest have a dash in its place.
-/

import Cirrocumulus.Image.Cache

namespace Cirrocumulus.ImageCache

open List Option

variable {dir dir' : Dir} {digest argument reference : Str} {parse : Str → Option Str}

/-! ## Histories -/

inductive Done
  | pulled (reference digest : Str)
  | removed (digest : Str)
  deriving DecidableEq

/-- The digest that the last completed pull of a reference resolved to, unless that image
was removed since. -/
def pointsTo : List Done → Str → Option Str
  | [], _ => none
  | .pulled reference digest :: older, wanted =>
    if wanted = reference then some digest else pointsTo older wanted
  | .removed digest :: older, wanted => (pointsTo older wanted).filter (· ≠ digest)

/-- The records say of every reference where the history has it. -/
def Tracks (dir : Dir) (history : List Done) : Prop :=
  ∀ digest reference, Says dir digest reference ↔ pointsTo history reference = some digest

theorem Tracks.congr (h : Tracks dir history)
    (hsame : ∀ digest reference, Says dir' digest reference ↔ Says dir digest reference) :
    Tracks dir' history := by
  intro digest reference
  rw [hsame, h]

theorem tracks_empty : Tracks ∅ [] := by
  intro digest reference
  apply iff_of_false
  · rintro ⟨-, image, hcached, -⟩
    have hmem := mem_of_cached hcached
    simp at hmem
  · rintro ⟨⟩

/-- A reference that moves in all records is where its pull has put it. -/
theorem Tracks.pulled (h : Tracks dir history) (hdigest : isDigest digest)
    (hcached : (cached dir digest).isSome) (hmoved : ∀ other, isDigest other →
      cached dir' other = (cached dir other).map (retarget reference digest)) :
    Tracks dir' (.pulled reference digest :: history) := by
  have hsay (other wanted : Str) : Says dir' other wanted ↔
      if wanted = reference then other = digest else Says dir other wanted := by
    constructor
    · rintro ⟨hother, image, himage, hmem⟩
      rw [hmoved other hother] at himage
      obtain ⟨before, hbefore, rfl⟩ := map_eq_some_iff.mp himage
      rw [mem_retarget, digest_of_cached hbefore] at hmem
      split at hmem
      · rename_i heq
        rwa [if_pos heq]
      · rename_i hne
        rw [if_neg hne]
        exact ⟨hother, before, hbefore, hmem⟩
    · intro hsay
      split at hsay
      · rename_i heq
        rw [hsay]
        obtain ⟨image, himage⟩ := isSome_iff_exists.mp hcached
        refine ⟨hdigest, retarget reference digest image, ?_, ?_⟩
        · rw [hmoved digest hdigest, himage, map_some]
        · rw [mem_retarget, if_pos heq, digest_of_cached himage]
      · rename_i hne
        obtain ⟨hother, image, himage, hmem⟩ := hsay
        refine ⟨hother, retarget reference digest image, ?_, ?_⟩
        · rw [hmoved other hother, himage, map_some]
        · rwa [mem_retarget, if_neg hne]
  intro other wanted
  rw [hsay, pointsTo]
  split
  · rw [Option.some.injEq, eq_comm]
  · exact h other wanted

/-- A removed image takes its references with it. -/
theorem Tracks.removed (h : Tracks dir history) (hgone : ∀ other, isDigest other →
      cached dir' other = if other = digest then none else cached dir other) :
    Tracks dir' (.removed digest :: history) := by
  intro other wanted
  rw [pointsTo, filter_eq_some_iff, ← h, decide_eq_true_iff]
  by_cases heq : other = digest
  · apply iff_of_false
    · rintro ⟨hother, image, himage, -⟩
      rw [hgone other hother, if_pos heq] at himage
      cases himage
    · intro hboth
      exact hboth.2 heq
  · rw [and_iff_left heq]
    apply says_congr
    intro hother
    rw [hgone other hother, if_neg heq]

/-! ## Fetching and remembering -/

/-- Fetching changes what no record says, and leaves an image that is cached if it
succeeds. -/
theorem fetch_spec (hdir : Tidy dir) (hdigest : isDigest digest)
    (config : RunConfig) (stop : Option FetchStop) :
    Tidy (fetch dir digest config stop).1 ∧
      (∀ other reference, Says (fetch dir digest config stop).1 other reference ↔
        Says dir other reference) ∧
      ((fetch dir digest config stop).2 →
        (cached (fetch dir digest config stop).1 digest).isSome) := by
  let fresh : CachedImage := { digest, config, references := [] }
  have hrecord : (writeRecord dir fresh)[recordName digest]? = some (.record fresh.record) := by
    rw [writeRecord, Lib.lookup_insert, if_pos rfl]
  unfold fetch
  split
  · refine ⟨hdir, fun _ _ => Iff.rfl, fun h => ?_⟩
    cases h
  split
  · rename_i hcached
    exact ⟨hdir, fun _ _ => Iff.rfl, fun _ => hcached⟩
  rename_i hcached
  split
  · refine ⟨hdir, fun _ _ => Iff.rfl, fun h => ?_⟩
    cases h
  -- Whatever record there was belongs to an image that is not cached.
  have hsay (other reference : Str) :
      Says (writeRecord dir fresh) other reference ↔ Says dir other reference := by
    apply says_writeRecord rfl hdigest
    intro image himage
    exact absurd (isSome_iff_exists.mpr ⟨image, himage⟩) hcached
  split
  · refine ⟨hdir.writeRecord hdigest, hsay, fun h => ?_⟩
    cases h
  · refine ⟨(hdir.writeRecord hdigest).moveIn hdigest, fun other reference => ?_, fun _ => ?_⟩
    · exact (says_moveIn hdigest (.inr ⟨config, hrecord⟩)).trans (hsay other reference)
    · have hmoved : cached (moveIn (writeRecord dir fresh) fresh.digest) fresh.digest =
          some fresh := cached_moveIn hrecord
      exact isSome_iff_exists.mpr ⟨fresh, hmoved⟩

/-- After a successful fetch the reference is moved, and the pull answers with the image. -/
theorem remember_spec (hdir : Tidy dir) (reference digest : Str) :
    Tidy (remember dir reference digest).1 ∧
      (∀ other, isDigest other → cached (remember dir reference digest).1 other =
        (cached dir other).map (retarget reference digest)) ∧
      (remember dir reference digest).2 = cached (remember dir reference digest).1 digest := by
  refine ⟨?_, fun other hother => ?_, rfl⟩
  · apply tidy_rewrite hdir
    intro image himage
    obtain ⟨before, hbefore, hchanged⟩ := mem_filterMap.mp himage
    rw [changed_eq_some hchanged, digest_retarget]
    exact (hdir.mem_list.mp hbefore).1
  · apply cached_rewrite_all _ hdir.nodup_list _ hother
    · intro image himage
      exact hdir.mem_list.mp himage
    · intro image himage hcached
      exact .inl (hdir.mem_list.mpr ⟨himage, hcached⟩)

/-! ## Removing -/

/-- Exactly one listed image is the one that the argument names. -/
theorem theImage_eq_ok (hdir : Tidy dir) {found} :
    theImage parse dir argument = .ok found ↔
      ∀ image, image ∈ list dir ∧ names parse argument image ↔ image = found := by
  have hmatches : theImage parse dir argument = .ok found ↔
      (list dir).filter (names parse argument) = [found] := by
    unfold theImage
    split
    · rename_i hnone
      simp [hnone]
    · rename_i image hone
      simp [hone]
    · rename_i several hnone hone
      apply iff_of_false
      · rintro ⟨⟩
      · exact hone found
  have hnodup : ((list dir).filter (names parse argument)).Nodup := hdir.nodup_list.of_map.filter _
  rw [hmatches, ← perm_singleton,
    perm_ext_iff_of_nodup hnodup (nodup_singleton found)]
  simp only [mem_filter, mem_singleton]

/-- An argument that names no listed image, or several, changes nothing. -/
theorem remove_of_not_one (hdir : Tidy dir)
    (h : ¬ ∃! image, image ∈ list dir ∧ names parse argument image)
    (stop : Option RemoveStop) :
    (remove parse dir argument stop).1 = dir ∧
      ∃ error, (remove parse dir argument stop).2 = .error error := by
  cases himage : theImage parse dir argument with
  | error error =>
    rw [remove, himage]
    exact ⟨rfl, error, rfl⟩
  | ok found =>
    have hone := (theImage_eq_ok hdir).mp himage
    exact absurd ⟨found, (hone found).mpr rfl, fun image => (hone image).mp⟩ h

/-- The image whose rootfs a removal deletes. -/
def removed (parse : Str → Option Str) (dir : Dir) (argument : Str) (stop : Option RemoveStop) :
    Option CachedImage :=
  if stop = some .rootfs then none else (theImage parse dir argument).toOption

theorem remove_spec (parse : Str → Option Str) (hdir : Tidy dir) (argument : Str)
    (stop : Option RemoveStop) :
    Tidy (remove parse dir argument stop).1 ∧
      ∀ other, isDigest other → cached (remove parse dir argument stop).1 other =
        if some other = (removed parse dir argument stop).map (·.digest) then none
        else cached dir other := by
  cases himage : theImage parse dir argument with
  | error error => simpa [remove, removed, himage, Except.toOption] using hdir
  | ok found =>
    simp only [remove, himage]
    refine ⟨hdir.removeFiles found stop, fun other hother => ?_⟩
    have hfound := ((theImage_eq_ok hdir).mp himage found).mpr rfl
    have hdigest := (hdir.mem_list.mp hfound.1).1
    by_cases hstop : stop = some .rootfs
    · simp [removed, removeFiles, hstop]
    · rw [cached_removeFiles hdigest hstop hother]
      simp [removed, hstop, himage, Except.toOption]

/-- The one image that the argument names is listed no more, unless its rootfs could not be
deleted. Every other image stays. -/
theorem mem_list_remove (hdir : Tidy dir)
    {found} (hone : ∀ image, image ∈ list dir ∧ names parse argument image ↔ image = found)
    (stop : Option RemoveStop) {image} :
    image ∈ list (remove parse dir argument stop).1 ↔
      image ∈ list dir ∧ (stop = some .rootfs ∨ image ≠ found) := by
  have hfound := (hdir.mem_list.mp ((hone found).mpr rfl).1).2
  have himage : theImage parse dir argument = .ok found := (theImage_eq_ok hdir).mpr hone
  obtain ⟨htidy, hgone⟩ := remove_spec parse hdir argument stop
  rw [htidy.mem_list, hdir.mem_list, and_assoc]
  apply and_congr_right
  intro hdigest
  rw [hgone image.digest hdigest]
  by_cases hstop : stop = some .rootfs
  · simp [removed, hstop]
  · simp only [removed, hstop, if_false, himage, Except.toOption, map_some,
      Option.some.injEq, false_or]
    by_cases heq : image.digest = found.digest
    · rw [if_pos heq, heq, hfound]
      simp [eq_comm]
    · have hne : image ≠ found := fun h => heq (congrArg CachedImage.digest h)
      rw [if_neg heq, and_iff_left hne]

/-! ## One request after another -/

/-- A pull of a reference that resolves to the digest, or a removal, with where it stops. -/
inductive Request
  | pull (reference : Str) (digest : {digest : Str // isDigest digest})
      (config : RunConfig) (stop : Option FetchStop)
  | remove (argument : Str) (stop : Option RemoveStop)

/-- A cache and its history. -/
structure Cache where
  dir : Dir := ∅
  history : List Done := []

variable {cache : Cache} {history : List Done}

/-- `ImageCache::pull` or `ImageCache::remove`. -/
def Cache.serve (parse : Str → Option Str) (cache : Cache) : Request → Cache
  | .pull reference digest config stop =>
    let fetched := fetch cache.dir digest config stop
    if fetched.2 then
      let remembered := remember fetched.1 reference digest
      { dir := remembered.1
        history :=
          if remembered.2.isSome then .pulled reference digest :: cache.history
          else cache.history }
    else { cache with dir := fetched.1 }
  | .remove argument stop =>
    { dir := (ImageCache.remove parse cache.dir argument stop).1
      history :=
        match removed parse cache.dir argument stop with
        | some image => .removed image.digest :: cache.history
        | none => cache.history }

/-- The cache after some requests, from an empty directory. -/
def Cache.after (parse : Str → Option Str) (requests : List Request) : Cache :=
  requests.foldl (Cache.serve parse) {}

structure Cache.Sound (cache : Cache) : Prop where
  tidy : Tidy cache.dir
  tracks : Tracks cache.dir cache.history

theorem Cache.Sound.serve (h : cache.Sound)
    (request : Request) : (cache.serve parse request).Sound := by
  cases request with
  | pull reference digest config stop =>
    obtain ⟨htidy, hsay, hcached⟩ := fetch_spec h.tidy digest.2 config stop
    have htracks := h.tracks.congr hsay
    simp only [Cache.serve]
    split
    · rename_i hok
      obtain ⟨htidy', hmoved, hanswer⟩ := remember_spec htidy reference digest.1
      have hsome : (remember (fetch cache.dir digest config stop).1 reference digest).2.isSome =
          true := by
        rw [hanswer, hmoved _ digest.2, isSome_map]
        exact hcached hok
      rw [if_pos hsome]
      exact ⟨htidy', htracks.pulled digest.2 (hcached hok) hmoved⟩
    · exact ⟨htidy, htracks⟩
  | remove argument stop =>
    obtain ⟨htidy, hgone⟩ := remove_spec parse h.tidy argument stop
    simp only [Cache.serve]
    refine ⟨htidy, ?_⟩
    cases hremoved : removed parse cache.dir argument stop with
    | none =>
      apply h.tracks.congr
      intro digest reference
      apply says_congr
      intro hdigest
      rw [hgone digest hdigest, hremoved]
      exact if_neg (by rintro ⟨⟩)
    | some image =>
      apply h.tracks.removed
      intro other hother
      rw [hgone other hother, hremoved]
      simp only [map_some, Option.some.injEq]

theorem Cache.sound_after (parse : Str → Option Str) (requests : List Request) :
    (Cache.after parse requests).Sound := by
  have hrun (cache : Cache) (h : cache.Sound) :
      (requests.foldl (Cache.serve parse) cache).Sound := by
    induction requests generalizing cache with
    | nil => exact h
    | cons request rest ih => exact ih _ (h.serve request)
  exact hrun {} ⟨tidy_empty, tracks_empty⟩

/-- The listed records and the history agree. -/
theorem Cache.Sound.listed_iff (h : cache.Sound) :
    (∃ image ∈ list cache.dir, image.digest = digest ∧ reference ∈ image.references) ↔
      pointsTo cache.history reference = some digest := by
  rw [← h.tracks]
  constructor
  · rintro ⟨image, himage, rfl, hreference⟩
    obtain ⟨hdigest, hcached⟩ := h.tidy.mem_list.mp himage
    exact ⟨hdigest, image, hcached, hreference⟩
  · rintro ⟨hdigest, image, hcached, hreference⟩
    cases digest_of_cached hcached
    exact ⟨image, h.tidy.mem_list.mpr ⟨hdigest, hcached⟩, rfl, hreference⟩

theorem Cache.Sound.image_unique (h : cache.Sound) {image other} (himage : image ∈ list cache.dir)
    (hother : other ∈ list cache.dir)
    (hmem : reference ∈ image.references) (hmem' : reference ∈ other.references) :
    image = other := by
  have hpoints := h.listed_iff.mp ⟨image, himage, rfl, hmem⟩
  have hpoints' := h.listed_iff.mp ⟨other, hother, rfl, hmem'⟩
  have heq : image.digest = other.digest := Option.some.inj (hpoints.symm.trans hpoints')
  have hcached := (h.tidy.mem_list.mp himage).2
  rw [heq] at hcached
  exact Option.some.inj (hcached.symm.trans (h.tidy.mem_list.mp hother).2)

/-- After any pulls and removals, wherever they stopped, the listed records say of each
reference the digest that its last completed pull resolved to, if that image was not removed
since, and no two of them have the same reference. A removal deletes the one listed image that
its argument names. If it names none or several, nothing changes. -/
theorem cache_tracks_references (parse : Str → Option Str) (requests : List Request) :
    let cache := Cache.after parse requests
    (∀ reference digest,
      (∃ image ∈ list cache.dir, image.digest = digest ∧ reference ∈ image.references) ↔
        pointsTo cache.history reference = some digest) ∧
    (∀ image ∈ list cache.dir, ∀ other ∈ list cache.dir, ∀ reference,
      reference ∈ image.references → reference ∈ other.references → image = other) ∧
    (∀ argument stop,
      (¬ (∃! image, image ∈ list cache.dir ∧ names parse argument image) →
        (remove parse cache.dir argument stop).1 = cache.dir ∧
          ∃ error, (remove parse cache.dir argument stop).2 = .error error) ∧
      (∀ found, (∀ image, image ∈ list cache.dir ∧ names parse argument image ↔
          image = found) →
        ∀ image, image ∈ list (remove parse cache.dir argument stop).1 ↔
          image ∈ list cache.dir ∧ (stop = some .rootfs ∨ image ≠ found))) := by
  intro cache
  have h : cache.Sound := Cache.sound_after parse requests
  refine ⟨fun reference digest => h.listed_iff, ?_, fun argument stop => ⟨?_, ?_⟩⟩
  · intro image himage other hother reference hmem hmem'
    exact h.image_unique himage hother hmem hmem'
  · intro hone
    exact remove_of_not_one h.tidy hone stop
  · intro found hone image
    exact mem_list_remove h.tidy hone stop

end Cirrocumulus.ImageCache
