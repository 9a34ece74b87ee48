/-
# Paths stay inside the image

Layers are untrusted, and their tars may name any path. What keeps them inside the image is
`normalise`: it refuses `..` and what isn't UTF-8, and drops whatever else makes two
spellings of a path differ. The keys of the flattened tree and the targets of the hard links
in the rootfs tar are its results.
-/

import Cirrocumulus.Image.Tar

namespace Cirrocumulus.Image

open List Option
open Std (ExtTreeMap)

variable {flat : Flattened} {member : Member}

/-- A path inside the image: relative, not empty, and without `.` and `..`. -/
def IsImagePath (path : Str) : Prop := path ≠ [] ∧ ∀ part ∈ path.splitOn '/', IsPart part

theorem Normalised.isImagePath {path} (h : Normalised path) (hne : path ≠ []) :
    IsImagePath path := ⟨hne, h.resolve_left hne⟩

/-! ## What `normalise` refuses -/

/-- A path that has a `..` or isn't UTF-8. -/
def Strays (path : OsStr) : Prop :=
  [.char '.', .char '.'] ∈ path.splitOn (.char '/') ∨ path.toStr = none

/-- A path is UTF-8 if its parts are. -/
theorem toStr_eq_none_iff (path : OsStr) :
    path.toStr = none ↔ ∃ part ∈ path.splitOn (.char '/'), OsStr.toStr part = none := by
  induction path with
  | nil => simp [OsStr.toStr]
  | cons c path ih =>
    obtain ⟨head, tail, hsplit⟩ := exists_cons_of_ne_nil
      (splitOn_ne_nil (OsChar.char '/') path)
    rw [splitOn_cons_eq_if_modifyHead]
    split
    case isTrue hslash =>
      obtain rfl : c = .char '/' := by simpa using hslash
      simp [OsStr.toStr, ih]
    case isFalse =>
      rw [hsplit] at ih ⊢
      cases c with
      | char c => simpa [OsStr.toStr] using ih
      | invalid bytes => simp [OsStr.toStr]

theorem normaliseParts_isOk_iff (path : OsStr) (parts : List OsStr) :
    (∃ result, normaliseParts path (parts.filterMap componentOf) = .ok result) ↔
      ∀ part ∈ parts, part ≠ [.char '.', .char '.'] ∧ part.toStr ≠ none := by
  induction parts with
  | nil => simp [normaliseParts]
  | cons part parts ih =>
    rw [forall_mem_cons, ← ih]
    by_cases hskip : part = [] ∨ part = [.char '.']
    · rw [filterMap_cons_none (by simp [componentOf, hskip])]
      have hpart : part ≠ [.char '.', .char '.'] ∧ part.toStr ≠ none := by
        rcases hskip with rfl | rfl <;> simp [OsStr.toStr]
      simp [hpart]
    · by_cases hup : part = [.char '.', .char '.']
      · have hcomp : componentOf part = some .parentDir := by simp [componentOf, hup]
        rw [filterMap_cons_some hcomp]
        simp [normaliseParts, hup]
      · have hcomp : componentOf part = some (.normal part) := by
          simp [componentOf, hskip, hup]
        rw [filterMap_cons_some hcomp]
        cases hstr : part.toStr with
        | none => simp [normaliseParts, hstr]
        | some s => simp [normaliseParts, hstr, hup, except_map_eq_ok]

/-- `normalise` refuses just the paths that stray. -/
theorem normalise_isOk_iff (path : OsStr) :
    (∃ result, normalise path = .ok result) ↔ ¬ Strays path := by
  have hparts : (∃ result, normalise path = .ok result) ↔
      ∃ result, normaliseParts path ((path.splitOn (.char '/')).filterMap componentOf) =
        .ok result := by
    simp only [normalise, normaliseParts_components, except_map_eq_ok]
    constructor
    · rintro ⟨-, parts, hparts, -⟩
      exact ⟨parts, hparts⟩
    · rintro ⟨parts, hparts⟩
      exact ⟨_, parts, hparts, rfl⟩
  rw [hparts, normaliseParts_isOk_iff, Strays, toStr_eq_none_iff, not_or, not_exists]
  constructor
  · intro h
    exact ⟨fun hup => (h _ hup).1 rfl, fun part hpart => (h part hpart.1).2 hpart.2⟩
  · rintro ⟨hup, hutf⟩ part hpart
    exact ⟨fun heq => hup (heq ▸ hpart), fun hnone => hutf part ⟨hpart, hnone⟩⟩

/-! ## Spellings of a path -/

/-- Two spellings of one path: with a slash or `./` before it, a slash behind it, a slash
repeated, or a `.` inside. -/
inductive Respelled : OsStr → OsStr → Prop
  | refl (path : OsStr) : Respelled path path
  | symm {path other} : Respelled path other → Respelled other path
  | trans {path other third} : Respelled path other → Respelled other third → Respelled path third
  | root (path : OsStr) : Respelled path (.char '/' :: path)
  | here (path : OsStr) : Respelled path (.char '.' :: .char '/' :: path)
  | trailing (path : OsStr) : Respelled path (path ++ [.char '/'])
  | repeated (before after : OsStr) :
      Respelled (before ++ .char '/' :: after) (before ++ .char '/' :: .char '/' :: after)
  | inner (before after : OsStr) :
      Respelled (before ++ .char '/' :: after)
        (before ++ .char '/' :: .char '.' :: .char '/' :: after)

/-- What `normalise` sees of a path. -/
def partsOf (path : OsStr) : List Component := (path.splitOn (.char '/')).filterMap componentOf

theorem partsOf_append (before after : OsStr) :
    partsOf (before ++ .char '/' :: after) = partsOf before ++ partsOf after := by
  rw [partsOf, splitOn_append_cons_self, filterMap_append]
  rfl

theorem partsOf_cons (after : OsStr) : partsOf (.char '/' :: after) = partsOf after :=
  partsOf_append [] after

theorem partsOf_dot (after : OsStr) : partsOf (.char '.' :: .char '/' :: after) = partsOf after :=
  partsOf_append [.char '.'] after

theorem Respelled.partsOf_eq {path other} (h : Respelled path other) :
    partsOf path = partsOf other := by
  induction h with
  | refl => rfl
  | symm _ ih => exact ih.symm
  | trans _ _ ih ih' => exact ih.trans ih'
  | root path => rw [partsOf_cons]
  | here path => rw [partsOf_dot]
  | trailing path =>
    rw [partsOf_append]
    exact (append_nil _).symm
  | repeated before after => rw [partsOf_append, partsOf_append, partsOf_cons]
  | inner before after => rw [partsOf_append, partsOf_append, partsOf_dot]

/-- Only the text of an error depends on how a path is spelled. -/
theorem normaliseParts_toOption (path other : OsStr) (parts : List Component) :
    (normaliseParts path parts).toOption = (normaliseParts other parts).toOption := by
  induction parts with
  | nil => rfl
  | cons part parts ih =>
    cases part with
    | rootDir => exact ih
    | curDir => exact ih
    | parentDir => rfl
    | normal part =>
      simp only [normaliseParts]
      cases part.toStr with
      | none => rfl
      | some s =>
        cases hpath : normaliseParts path parts <;>
          cases hother : normaliseParts other parts <;>
          simp_all [Except.map, Except.toOption]

theorem Respelled.normalise_eq {path other} (h : Respelled path other) {key}
    (hkey : normalise path = .ok key) : normalise other = .ok key := by
  rw [normalise, normaliseParts_components] at hkey ⊢
  obtain ⟨parts, hparts, rfl⟩ := except_map_eq_ok.mp hkey
  have hsame := normaliseParts_toOption path other (partsOf path)
  rw [partsOf, hparts, ← partsOf, h.partsOf_eq] at hsame
  cases hother : normaliseParts other (partsOf other) with
  | error e =>
    rw [hother] at hsame
    cases hsame
  | ok parts' =>
    rw [hother] at hsame
    cases hsame
    rw [partsOf] at hother
    rw [hother]
    rfl

/-! ## What the flattening refuses -/

/-- An entry that its layer is refused for. A whiteout is only its path. -/
def RawEntry.Refused (entry : RawEntry) : Prop :=
  Strays entry.path ∨
    ∃ path, normalise entry.path = .ok path ∧ isWhiteout path = false ∧
      (entry.header.entryType.supported = false ∨
        entry.header.entryType = .link ∧ Strays (entry.linkName.getD []))

theorem checkLink_isOk_iff (source : Source) :
    (∃ checked, checkLink source = .ok checked) ↔
      (source.header.entryType = .link → ¬ Strays (source.linkName.getD [])) := by
  unfold checkLink
  split
  case isTrue hlink => simp [hlink, ← normalise_isOk_iff, except_map_eq_ok]
  case isFalse hlink => simp [hlink]

/-- Whether an entry is placed or refused doesn't depend on the tree. -/
theorem place_isOk_iff (tree : Tree) (path : Str) (source : Source) :
    (∃ result, place tree (path, source) = .ok result) ↔
      isWhiteout path ∨ source.header.entryType.supported ∧
        (source.header.entryType = .link → ¬ Strays (source.linkName.getD [])) := by
  rw [← checkLink_isOk_iff]
  unfold place
  dsimp only
  by_cases hwhiteout : isWhiteout path
  · simp [hwhiteout]
  · by_cases hsupported : source.header.entryType.supported
    · rw [if_neg hwhiteout]
      cases hcheck : checkLink source with
      | error e => simp [hwhiteout, hsupported, Except.bind]
      | ok checked =>
        simp only [hwhiteout, hsupported, Except.bind, Bool.not_true, Bool.false_eq_true,
          if_false, false_or, true_and]
        split <;> simp
    · simp [hwhiteout, hsupported]

theorem foldlM_place_isOk_iff (entries : List (Str × Source)) (tree : Tree) :
    (∃ result, entries.foldlM place tree = .ok result) ↔
      ∀ entry ∈ entries, isWhiteout entry.1 ∨
        entry.2.header.entryType.supported ∧
          (entry.2.header.entryType = .link → ¬ Strays (entry.2.linkName.getD [])) := by
  induction entries generalizing tree with
  | nil => simp [pure, Except.pure]
  | cons entry entries ih =>
    rw [forall_mem_cons, ← place_isOk_iff tree]
    simp only [foldlM_cons, except_bind_eq_ok]
    constructor
    · rintro ⟨result, next, hnext, hrest⟩
      exact ⟨⟨next, hnext⟩, (ih next).mp ⟨result, hrest⟩⟩
    · rintro ⟨⟨next, hnext⟩, hentries⟩
      obtain ⟨result, hrest⟩ := (ih next).mpr hentries
      exact ⟨result, next, hnext, hrest⟩

/-- A layer is applied to any tree, or to none. -/
theorem apply_isOk_iff (tree : Tree) (i : Nat) (layer : Layer) :
    (∃ result, apply tree i layer = .ok result) ↔ ∀ entry ∈ layer.entries, ¬ entry.Refused := by
  simp only [apply, except_bind_eq_ok]
  constructor
  · rintro ⟨result, entries, hread, hplaced⟩ raw hraw hrefused
    obtain ⟨entry, hentry, hresult⟩ := exists_mem_of_mapM hread raw hraw
    obtain ⟨path, hpath, hsource⟩ := except_bind_eq_ok.mp hresult
    cases hsource
    rcases hrefused with hstrays | ⟨path', hpath', hwhiteout, hbad⟩
    · exact (normalise_isOk_iff raw.path).mp ⟨path, hpath⟩ hstrays
    · cases hpath.symm.trans hpath'
      have hok := (foldlM_place_isOk_iff entries _).mp ⟨result, hplaced⟩ _ hentry
      rcases hok with habsurd | ⟨hsupported, hlink⟩
      · cases habsurd.symm.trans hwhiteout
      · rcases hbad with hunsupported | ⟨hkind, hstrays⟩
        · cases hsupported.symm.trans hunsupported
        · exact hlink hkind hstrays
  · intro hok
    have hread : ∃ entries, readEntries i layer = .ok entries := by
      apply mapM_isOk_iff.mpr
      intro raw hraw
      obtain ⟨path, hpath⟩ := (normalise_isOk_iff raw.path).mpr fun h => hok raw hraw (.inl h)
      exact ⟨_, except_bind_eq_ok.mpr ⟨path, hpath, rfl⟩⟩
    obtain ⟨entries, hread⟩ := hread
    obtain ⟨result, hplaced⟩ := (foldlM_place_isOk_iff entries
        (entries.foldl (fun tree entry => hide tree entry.1) tree)).mpr fun entry hentry => by
      obtain ⟨raw, hraw, hresult⟩ := forall_exists_of_mapM hread entry hentry
      obtain ⟨path, hpath, hsource⟩ := except_bind_eq_ok.mp hresult
      cases hsource
      have hnot := hok raw hraw
      by_contra hbad
      rw [not_or, not_and_or] at hbad
      refine hnot (.inr ⟨path, hpath, by simpa using hbad.1, ?_⟩)
      rcases hbad.2 with hunsupported | hlink
      · exact .inl (by simpa using hunsupported)
      · exact .inr (by simpa using hlink)
    exact ⟨result, entries, hread, hplaced⟩

theorem openFrom_isOk_iff (layers : List Layer) (tree : Tree) (i : Nat) :
    (∃ result, openFrom tree i layers = .ok result) ↔
      ∀ layer ∈ layers, ∀ entry ∈ layer.entries, ¬ entry.Refused := by
  induction layers generalizing tree i with
  | nil => simp [openFrom]
  | cons layer layers ih =>
    rw [forall_mem_cons, ← apply_isOk_iff tree i layer]
    unfold openFrom
    cases happly : apply tree i layer with
    | error e => simp
    | ok next => simpa using ih next (i + 1)

/-- Layers are refused just for an entry that is. -/
theorem openLayers_isError_iff (layers : List Layer) :
    (∃ e, openLayers layers = .error e) ↔
      ∃ layer ∈ layers, ∃ entry ∈ layer.entries, entry.Refused := by
  have hiff := openFrom_isOk_iff layers ∅ 0
  unfold openLayers
  cases hopen : openFrom ∅ 0 layers with
  | error e =>
    rw [hopen] at hiff
    have hnot : ¬ ∀ layer ∈ layers, ∀ entry ∈ layer.entries, ¬ entry.Refused := by
      intro hok
      obtain ⟨result, hresult⟩ := hiff.mpr hok
      cases hresult
    push Not at hnot
    exact ⟨fun _ => hnot, fun _ => ⟨e, rfl⟩⟩
  | ok tree =>
    have hok := hiff.mp ⟨tree, hopen⟩
    constructor
    · rintro ⟨e, he⟩
      cases he
    · rintro ⟨layer, hlayer, entry, hentry, hrefused⟩
      exact absurd hrefused (hok layer hlayer entry hentry)

/-! ## What the image names -/

/-- The root itself is never listed. -/
theorem Op.root_unlisted {tree} {op : Op} (h : tree[([] : Str)]? = none) :
    (op.run tree)[([] : Str)]? = none := by
  cases op with
  | hide path =>
    rw [eq_none_iff_forall_ne_some]
    intro source hsource
    cases h.symm.trans (getElem?_of_hide hsource)
  | put path source =>
    by_cases hskip : isWhiteout path ∨ path = []
    · rw [Op.run, Image.put, if_pos hskip]
      exact h
    · rw [Op.run, getElem?_put hskip, if_neg (fun heq => hskip (.inr heq.symm)), h]
      exact ite_self none

theorem root_unlisted_foldl {ops : List Op} {tree : Tree} (h : tree[([] : Str)]? = none) :
    (ops.foldl Op.run tree)[([] : Str)]? = none := by
  induction ops generalizing tree with
  | nil => exact h
  | cons op ops ih => exact ih (Op.root_unlisted h)

theorem isImagePath_of_openLayers {layers : List Layer}
    (h : openLayers layers = .ok flat) : ∀ path ∈ flat.tree, IsImagePath path := by
  obtain ⟨entries, hread, htree⟩ := foldl_ops_of_openLayers h
  intro path hmem
  rw [htree] at hmem
  apply Normalised.isImagePath
  · refine normalised_foldl ?_ (normalised_of_readLayers hread) path hmem
    intro other hother
    exact absurd hother ExtTreeMap.not_mem_empty
  · rintro rfl
    rw [ExtTreeMap.mem_iff_isSome_getElem?, root_unlisted_foldl ExtTreeMap.getElem?_empty] at hmem
    cases hmem

/-- A hard link is written with a path of the tree as its target. -/
theorem target_of_linkMember {builder tree item} (h : linkMember builder tree item = .ok member) :
    ∃ target, member.linkName = some (.ofStr target) ∧ Normalised target ∧
      ∃ entry, tree[target]? = some entry ∧ entry ≠ .dir := by
  obtain ⟨target, header, htarget, hheader, rfl⟩ := linkMember_eq_ok h
  refine ⟨target, rfl, normalised_of_normalise htarget, ?_⟩
  have hfound := linkHeader_isOk_iff.mp ⟨header, hheader⟩
  cases hentry : tree[target]? with
  | none =>
    rw [hentry] at hfound
    exact hfound.elim
  | some entry =>
    refine ⟨entry, rfl, ?_⟩
    rintro rfl
    rw [hentry] at hfound
    exact hfound.elim

theorem root_unlisted_withGuestFiles {init entry} (hroot : flat.tree[([] : Str)]? = none)
    (h : (withGuestFiles flat init)[([] : Str)]? = some entry) : entry = .dir := by
  have hcases : (withGuestFiles flat init)[([] : Str)]? = none ∨
      (withGuestFiles flat init)[([] : Str)]? = some .dir :=
    withGuestFiles_of_unlisted (by decide) hroot
  rcases hcases with hnone | hdir
  · cases hnone.symm.trans h
  · cases hdir.symm.trans h
    rfl

theorem isImagePath_of_writeTar {layers}
    (hopen : openLayers layers = .ok flat) {builder init members space}
    (h : writeTar builder flat (withGuestFiles flat init) = .ok (members, space))
    (hmember : member ∈ members) (hlink : member.header.entryType = .link) :
    ∃ target, member.linkName = some (.ofStr target) ∧ IsImagePath target := by
  obtain ⟨files, links, hfiles, hlinks, rfl⟩ := writeTar_eq_ok h
  rcases mem_append.mp hmember with hfile | hmember
  · obtain ⟨item, -, hitem⟩ := forall_exists_of_mapM hfiles _ (reduceOption_mem_iff.mp hfile)
    have hnot : member.isLink = false := (of_fileMember hitem).2.2.1
    simp [Member.isLink, hlink] at hnot
  · obtain ⟨item, -, hitem⟩ := forall_exists_of_mapM hlinks member hmember
    obtain ⟨target, hname, hnorm, entry, hentry, hdir⟩ := target_of_linkMember hitem
    refine ⟨target, hname, hnorm.isImagePath ?_⟩
    rintro rfl
    apply hdir
    apply root_unlisted_withGuestFiles _ hentry
    rw [ExtTreeMap.getElem?_eq_none]
    intro hmem
    exact (isImagePath_of_openLayers hopen [] hmem).1 rfl

/-- Paths stay inside the image: the tree's keys and the targets of the hard links in the
rootfs tar do, two spellings of a path have one key, and layers are refused just for a path
or a hard link's target that strays, or for an entry type that isn't supported. -/
theorem image_paths_inside :
    (∀ layers flat, openLayers layers = .ok flat →
      (∀ path ∈ flat.tree, IsImagePath path) ∧
      ∀ builder init members space,
        writeTar builder flat (withGuestFiles flat init) = .ok (members, space) →
        ∀ member ∈ members, member.header.entryType = .link →
          ∃ target, member.linkName = some (.ofStr target) ∧ IsImagePath target) ∧
    (∀ path other, Respelled path other → ∀ key, normalise path = .ok key ↔
      normalise other = .ok key) ∧
    ∀ layers, (∃ e, openLayers layers = .error e) ↔
      ∃ layer ∈ layers, ∃ entry ∈ layer.entries, entry.Refused := by
  refine ⟨?_, ?_, openLayers_isError_iff⟩
  · intro layers flat hopen
    refine ⟨isImagePath_of_openLayers hopen, ?_⟩
    intro builder init members space hwrite member hmember hlink
    exact isImagePath_of_writeTar hopen hwrite hmember hlink
  · intro path other hspelled key
    exact ⟨hspelled.normalise_eq, hspelled.symm.normalise_eq⟩

/-- Both entries have odd spellings, and the hard link's target has another. -/
def spelledLayer : Layer where
  bytes := asciiBytes "hi"
  entries :=
    [⟨OsStr.ofStr "./a", fileSource.header, none, 0⟩,
      ⟨OsStr.ofStr "/d//./l/", linkSource.header, some (OsStr.ofStr "/./a"), 512⟩]

theorem spelled_paths_inside :
    ∃ flat, openLayers [spelledLayer] = .ok flat ∧ "d/l".toList ∈ flat.tree ∧
      ∀ path ∈ flat.tree, IsImagePath path := by
  have hopen : ∃ flat, openLayers [spelledLayer] = .ok flat ∧ "d/l".toList ∈ flat.tree :=
    ⟨_, rfl, by decide +kernel⟩
  obtain ⟨flat, hopen, hmem⟩ := hopen
  exact ⟨flat, hopen, hmem, (image_paths_inside.1 _ flat hopen).1⟩

end Cirrocumulus.Image
