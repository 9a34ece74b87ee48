/-
# Flattening image layers

`Flattened::open` reads an image's layers bottom first and works out the final
tree. The tree is a sorted map from normalised paths to the tar entry each comes
from. A layer's whiteouts are applied to the tree below it first, then its
entries are laid over the result in the order of the tar.

The tar reader itself is outside the repository: a layer is given as its bytes
together with the entries the reader yields for them, long names and PAX records
already folded in.
-/

import Cirrocumulus.Image.Path
import Cirrocumulus.Lib.Maps
import Cirrocumulus.Lib.PrefixScan
import Cirrocumulus.Lib.Utf8

namespace Cirrocumulus.Image

open Lib List
open Std (ExtTreeMap)

variable {path : Str} {i : Nat}

/-! ## Layers as the tar reader yields them -/

/-- `tar::EntryType`. -/
inductive EntryType
  | regular | link | symlink | char | block | directory | fifo | continuous
  | gnuLongName | gnuLongLink | gnuSparse | xGlobalHeader | xHeader
  | nonexhaustive (byte : UInt8)
  deriving DecidableEq

/-- The `Debug` form of an entry type, for the error that refuses it. -/
def EntryType.debug : EntryType → Str
  | .regular => "Regular"
  | .link => "Link"
  | .symlink => "Symlink"
  | .char => "Char"
  | .block => "Block"
  | .directory => "Directory"
  | .fifo => "Fifo"
  | .continuous => "Continuous"
  | .gnuLongName => "GNULongName"
  | .gnuLongLink => "GNULongLink"
  | .gnuSparse => "GNUSparse"
  | .xGlobalHeader => "XGlobalHeader"
  | .xHeader => "XHeader"
  | .nonexhaustive byte =>
    "__Nonexhaustive(" ++ (Nat.repr byte.toNat).toList ++ ")"

/-- The entry types a layer may have. -/
def EntryType.supported : EntryType → Bool
  | .regular | .continuous | .directory | .symlink | .link | .char | .block | .fifo => true
  | _ => false

/-- The header fields the flattening and the rootfs tar use. A numeric field is
`none` when the header's digits can't be read. -/
structure Header where
  entryType : EntryType
  mode : Option Nat
  uid : Option Nat
  gid : Option Nat
  mtime : Option Nat
  entrySize : Option Nat
  deriving DecidableEq

/-- One entry as the tar reader yields it. -/
structure RawEntry where
  path : OsStr
  header : Header
  linkName : Option OsStr
  /-- Offset of the entry's data in the layer. -/
  rawFilePosition : Nat
  deriving DecidableEq

/-- One uncompressed layer. -/
structure Layer where
  bytes : List UInt8
  entries : List RawEntry

/-- Where one entry of the final tree comes from. -/
structure Source where
  /-- Index into `Flattened.layers`. -/
  layer : Nat
  header : Header
  /-- Offset of the entry's data in its uncompressed layer. -/
  data : Nat
  linkName : Option OsStr
  deriving DecidableEq

/-- `Source.header.entry_type() == EntryType::Directory`. -/
def Source.isDir (source : Source) : Bool := source.header.entryType == .directory

/-- A sorted map from normalised paths. -/
abbrev Tree := ExtTreeMap Str Source compare

/-- An image's layers merged into its final tree. -/
structure Flattened where
  /-- The uncompressed layers, bottom first. -/
  layers : List (List UInt8)
  tree : Tree

variable {tree result : Tree} {layers : List Layer} {source : Source} {flat : Flattened}

/-! ## Removing what a layer hides -/

/-- `Flattened::remove_children`. For the root it clears the tree. Otherwise it
scans the sorted keys from `dir/` on until the first one without that prefix,
and removes what it collected. -/
def removeChildren (tree : Tree) (dir : Str) : Tree :=
  if dir.isEmpty then ∅
  else
    let pre := dir ++ ['/']
    let children := ((tree.toList.dropWhile fun item => compare item.1 pre == .lt).takeWhile
      fun item => pre.isPrefixOf item.1).map (·.1)
    children.foldl (fun tree child => tree.erase child) tree

/-- `Flattened::remove`. -/
def remove (tree : Tree) (path : Str) : Tree := removeChildren (tree.erase path) path

/-! ## Applying a layer -/

def opaqueMarker : Str := ".wh..wh..opq"

def whiteoutPrefix : Str := ".wh."

/-- `apply`'s first loop over one entry: the whiteouts hide only what is below
their layer, so they go first. -/
def hide (tree : Tree) (path : Str) : Tree :=
  let (dir, name) := split path
  if name = opaqueMarker then removeChildren tree dir
  else match stripPrefix whiteoutPrefix name with
    | some hidden => remove tree (join dir hidden)
    | none => tree

/-- Whether `apply`'s second loop passes the entry over. -/
def isWhiteout (path : Str) : Bool := whiteoutPrefix.isPrefixOf (split path).2

/-- A hard link's target has to stay inside the image root. -/
def checkLink (source : Source) : Except Str Unit :=
  if source.header.entryType = .link then
    (normalise (source.linkName.getD [])).map fun _ => ()
  else .ok ()

/-- `apply`'s second loop over one entry. Anything but a directory replaces a
whole subtree; a directory over a directory merges with it. -/
def place (tree : Tree) (entry : Str × Source) : Except Str Tree :=
  let (path, source) := entry
  let kind := source.header.entryType
  if isWhiteout path then .ok tree
  else if !kind.supported then
    .error (path ++ ": unsupported tar entry type " ++ kind.debug)
  else (checkLink source).bind fun _ =>
    if path.isEmpty then .ok tree
    else
      let wasDir := tree[path]?.any Source.isDir
      let tree := if kind ≠ .directory ∨ !wasDir then removeChildren tree path else tree
      .ok (tree.insert path source)

/-- The entries of layer `i` under their normalised paths. -/
def readEntries (i : Nat) (layer : Layer) : Except Str (List (Str × Source)) :=
  layer.entries.mapM fun entry => do
    let path ← normalise entry.path
    return (path, ⟨i, entry.header, entry.rawFilePosition, entry.linkName⟩)

/-- `Flattened::apply`: layer `i` on top of the tree built from the layers
below it. -/
def apply (tree : Tree) (i : Nat) (layer : Layer) : Except Str Tree := do
  let entries ← readEntries i layer
  entries.foldlM place (entries.foldl (fun tree entry => hide tree entry.1) tree)

/-- The loop of `Flattened::open` from layer `i` on. -/
def openFrom (tree : Tree) (i : Nat) : List Layer → Except Str Tree
  | [] => .ok tree
  | layer :: rest =>
    match apply tree i layer with
    | .error e => .error ("layer " ++ (Nat.repr (i + 1)).toList ++ ": " ++ e)
    | .ok tree => openFrom tree (i + 1) rest

/-- `Flattened::open`, on layers that have been read and decompressed. -/
def openLayers (layers : List Layer) : Except Str Flattened :=
  (openFrom ∅ 0 layers).map fun tree => ⟨layers.map (·.bytes), tree⟩

/-! ## What the removals do -/

/-- `path` lies below `dir`; everything lies below the root. -/
def Below (dir path : Str) : Prop := dir = [] ∨ dir ++ ['/'] <+: path

instance (dir path : Str) : Decidable (Below dir path) :=
  inferInstanceAs (Decidable (_ ∨ _))

theorem below_iff_isPrefixOf {dir : Str} (hdir : dir ≠ []) :
    Below dir path ↔ (dir ++ ['/']).isPrefixOf path := by
  simp [Below, hdir, isPrefixOf_iff_prefix]

theorem not_below_self {dir : Str} (hdir : dir ≠ []) : ¬ Below dir dir := by
  rintro (h | h)
  · exact hdir h
  · have hlen := h.length_le
    rw [length_append, length_singleton] at hlen
    omega

theorem Below.trans {a b c} (hab : Below a b) (hbc : Below b c) : Below a c := by
  rcases hab with rfl | hab
  · exact .inl rfl
  · rcases hbc with rfl | hbc
    · simpa using hab.length_le
    · exact .inr (hab.trans ((prefix_append b ['/']).trans hbc))

/-- `remove_children` removes exactly what lies below: the scan of the sorted
keys misses nothing and takes nothing else. -/
theorem getElem?_removeChildren (tree : Tree) (dir path : Str) :
    (removeChildren tree dir)[path]? = if Below dir path then none else tree[path]? := by
  unfold removeChildren
  by_cases hdir : dir = []
  · simp [hdir, Below]
  · have hnot : ¬ dir.isEmpty := by simpa using hdir
    rw [if_neg hnot]
    dsimp only
    rw [scan_eq_filter _ _ ExtTreeMap.ordered_keys_toList, lookup_foldl_erase]
    by_cases hbelow : Below dir path
    · rw [if_pos hbelow]
      split
      · rfl
      · rename_i hmem
        -- A path below `dir` that the scan did not collect is not in the tree.
        cases hget : tree[path]? with
        | none => rfl
        | some source =>
          refine absurd ?_ hmem
          rw [mem_map]
          refine ⟨(path, source), ?_, rfl⟩
          rw [mem_filter]
          exact ⟨mem_items.mpr hget,
            (below_iff_isPrefixOf hdir).mp hbelow⟩
    · rw [if_neg hbelow, if_neg]
      intro hmem
      obtain ⟨item, hitem, rfl⟩ := mem_map.mp hmem
      exact hbelow ((below_iff_isPrefixOf hdir).mpr (mem_filter.mp hitem).2)

/-- `remove_children` of a directory other than the root deletes exactly the paths that
start with it and a slash. The directory itself stays, and so do siblings whose names
go on with any other char, though the scan, in the order of the paths' bytes, meets some
of them between the two. -/
theorem removeChildren_deletes_descendants (tree : Tree) {dir : Str} (hdir : dir ≠ []) :
    (∀ path : Str, (removeChildren tree dir)[path]? =
      if dir ++ ['/'] <+: path then none else tree[path]?) ∧
    (removeChildren tree dir)[dir]? = tree[dir]? ∧
    (∀ (c : Char) (rest : Str), c ≠ '/' →
      (removeChildren tree dir)[dir ++ c :: rest]? = tree[dir ++ c :: rest]?) ∧
    tree.toList.Pairwise fun a b => compare (Lib.utf8 a.1) (Lib.utf8 b.1) = .lt := by
  have hlookup (path : Str) : (removeChildren tree dir)[path]? =
      if dir ++ ['/'] <+: path then none else tree[path]? := by
    rw [getElem?_removeChildren]
    simp only [Below, hdir, false_or]
  refine ⟨hlookup, ?_, fun c rest hne => ?_, ?_⟩
  · rw [getElem?_removeChildren, if_neg (not_below_self hdir)]
  · rw [hlookup, if_neg]
    intro hbelow
    rw [prefix_append_right_inj, cons_prefix_cons] at hbelow
    exact hne hbelow.1.symm
  · simp only [compare_utf8]
    exact ExtTreeMap.ordered_keys_toList

/-- A directory, what is in it, and a sibling that sorts between the two. -/
def siblings : Tree :=
  let source : Source := ⟨0, ⟨.regular, none, none, none, none, none⟩, 0, none⟩
  (((∅ : Tree).insert "etc" source).insert "etc-x" source).insert
    "etc/x" source

/-- The theorem applies: of `etc`, `etc-x` and `etc/x` only the last is below `etc`. -/
theorem removeChildren_keeps_siblings :
    siblings["etc/x".toList]?.isSome = true ∧
    (removeChildren siblings "etc")["etc/x".toList]? = none ∧
    (removeChildren siblings "etc")["etc-x".toList]?.isSome = true := by
  have hdir : "etc".toList ≠ [] := by decide
  obtain ⟨hlookup, -, hsibling, -⟩ := removeChildren_deletes_descendants siblings hdir
  refine ⟨by decide, ?_, ?_⟩
  · rw [hlookup, if_pos (by decide)]
  · have hkept := hsibling '-' "x" (by decide)
    rw [show "etc-x" = "etc" ++ '-' :: "x" by decide, hkept]
    decide

theorem getElem?_remove (tree : Tree) (path other : Str) :
    (remove tree path)[other]? =
      if other = path ∨ Below path other then none else tree[other]? := by
  rw [remove, getElem?_removeChildren, ExtTreeMap.getElem?_erase]
  by_cases hbelow : Below path other
  · simp [hbelow]
  · by_cases heq : path = other
    · simp [heq]
    · have : ¬ other = path := fun h => heq h.symm
      simp [hbelow, heq, this]

/-! ## Flattening as a sequence of operations -/

/-- What one entry of a layer does to the tree, in either of `apply`'s loops. -/
inductive Op
  | hide (path : Str)
  | put (path : Str) (source : Source)

/-- What `place` does with an entry it does not refuse. -/
def put (tree : Tree) (path : Str) (source : Source) : Tree :=
  if isWhiteout path ∨ path = [] then tree
  else if source.isDir ∧ tree[path]?.any Source.isDir then tree.insert path source
  else (removeChildren tree path).insert path source

/-- An entry takes its path, and what it does not merge with goes. -/
theorem getElem?_put (hput : ¬ (isWhiteout path ∨ path = [])) (tree : Tree)
    (source : Source) (other : Str) :
    (put tree path source)[other]? =
      if other = path then some source
      else if ¬ (source.isDir ∧ tree[path]?.any Source.isDir) ∧ Below path other
        then none else tree[other]? := by
  rw [put, if_neg hput]
  by_cases hmerge : source.isDir ∧ tree[path]?.any Source.isDir
  · rw [if_pos hmerge, lookup_insert]
    simp [hmerge]
  · rw [if_neg hmerge, lookup_insert, getElem?_removeChildren]
    simp only [hmerge, not_false_eq_true, true_and]

/-- A whiteout only takes entries away. -/
theorem getElem?_of_hide {other : Str}
    (h : (hide tree path)[other]? = some source) : tree[other]? = some source := by
  unfold hide at h
  dsimp only at h
  split at h
  · rw [getElem?_removeChildren] at h
    split at h
    · cases h
    · exact h
  · split at h
    · rw [getElem?_remove] at h
      split at h
      · cases h
      · exact h
    · exact h

/-- The effect of one operation on the tree. -/
def Op.run (tree : Tree) : Op → Tree
  | .hide path => Image.hide tree path
  | .put path source => Image.put tree path source

/-- The operations of one layer: its whiteouts, then its entries. -/
def layerOps (entries : List (Str × Source)) : List Op :=
  entries.map (fun entry => .hide entry.1) ++ entries.map fun entry => .put entry.1 entry.2

/-- The entries of the layers from number `i` on, under their normalised paths. -/
def readLayers (i : Nat) : List Layer → Except Str (List (List (Str × Source)))
  | [] => .ok []
  | layer :: rest => do
      let entries ← readEntries i layer
      let later ← readLayers (i + 1) rest
      return entries :: later

/-- An entry that is not refused has one effect, whatever the tree: `place` only
refuses by the entry itself. -/
theorem eq_put_of_place {entry}
    (h : place tree entry = .ok result) : result = put tree entry.1 entry.2 := by
  obtain ⟨path, source⟩ := entry
  unfold place at h
  dsimp only at h
  unfold put
  by_cases hwh : isWhiteout path
  · rw [if_pos hwh] at h
    rw [if_pos (.inl hwh)]
    exact (Except.ok.inj h).symm
  rw [if_neg hwh] at h
  split at h
  · cases h
  obtain ⟨_, -, h⟩ := except_bind_eq_ok.mp h
  by_cases hroot : path = []
  · subst hroot
    rw [if_pos (.inr rfl)]
    exact (Except.ok.inj h).symm
  have hempty : ¬ path.isEmpty := by simpa using hroot
  rw [if_neg hempty] at h
  rw [if_neg (not_or.mpr ⟨hwh, hroot⟩)]
  cases h
  -- The code's test is the negation of the merge's.
  by_cases hdir : source.header.entryType = .directory
  · by_cases hwas : tree[path]?.any Source.isDir
    · simp [Source.isDir, hdir, hwas]
    · simp [Source.isDir, hdir, hwas]
  · simp [Source.isDir, hdir]

theorem foldl_put_of_foldlM_place {entries : List (Str × Source)}
    (h : entries.foldlM place tree = .ok result) :
    result = entries.foldl (fun tree entry => put tree entry.1 entry.2) tree := by
  induction entries generalizing tree with
  | nil => exact (Except.ok.inj h).symm
  | cons entry entries ih =>
    rw [foldlM_cons] at h
    obtain ⟨next, hnext, hrest⟩ := except_bind_eq_ok.mp h
    rw [foldl_cons, ← eq_put_of_place hnext]
    exact ih hrest

/-- A layer that is accepted runs its operations on the tree below it. -/
theorem foldl_layerOps_of_apply {layer} (h : apply tree i layer = .ok result) :
    ∃ entries, readEntries i layer = .ok entries ∧
      result = (layerOps entries).foldl Op.run tree := by
  obtain ⟨entries, hread, hplace⟩ := except_bind_eq_ok.mp h
  refine ⟨entries, hread, ?_⟩
  rw [foldl_put_of_foldlM_place hplace, layerOps, foldl_append, foldl_map, foldl_map]
  rfl

/-- Layers that are accepted run their operations one after another. -/
theorem foldl_ops_of_openFrom (h : openFrom tree i layers = .ok result) :
    ∃ entries, readLayers i layers = .ok entries ∧
      result = (entries.flatMap layerOps).foldl Op.run tree := by
  induction layers generalizing tree i with
  | nil => exact ⟨[], rfl, (Except.ok.inj h).symm⟩
  | cons layer rest ih =>
    unfold openFrom at h
    split at h
    · cases h
    · rename_i next hnext
      obtain ⟨entries, hread, rfl⟩ := foldl_layerOps_of_apply hnext
      obtain ⟨later, hlater, rfl⟩ := ih h
      refine ⟨entries :: later, ?_, ?_⟩
      · exact except_bind_eq_ok.mpr ⟨entries, hread, except_bind_eq_ok.mpr ⟨later, hlater, rfl⟩⟩
      · rw [flatMap_cons, foldl_append]

theorem foldl_ops_of_openLayers (h : openLayers layers = .ok flat) :
    ∃ entries, readLayers 0 layers = .ok entries ∧
      flat.tree = (entries.flatMap layerOps).foldl Op.run ∅ := by
  obtain ⟨tree, htree, rfl⟩ := except_map_eq_ok.mp h
  exact foldl_ops_of_openFrom htree

/-! ## Where the paths and sources of the tree come from -/

/-- An entry read from layer `i` has a normalised path and says its layer. -/
theorem readEntries_spec {layer entries} (h : readEntries i layer = .ok entries) :
    ∀ entry ∈ entries, Normalised entry.1 ∧ entry.2.layer = i := by
  intro entry hmem
  obtain ⟨raw, -, hentry⟩ := forall_exists_of_mapM h entry hmem
  obtain ⟨path, hpath, hentry⟩ := except_bind_eq_ok.mp hentry
  cases hentry
  exact ⟨normalised_of_normalise hpath, rfl⟩

/-- Every operation of accepted layers works on a normalised path, and places an
entry of one of these layers. -/
theorem readLayers_spec {entries} (h : readLayers i layers = .ok entries) :
    ∀ path source, Op.put path source ∈ entries.flatMap layerOps →
      Normalised path ∧ source.layer < i + layers.length := by
  induction layers generalizing i entries with
  | nil =>
    cases h
    simp
  | cons layer rest ih =>
    obtain ⟨first, hfirst, h⟩ := except_bind_eq_ok.mp h
    obtain ⟨later, hlater, h⟩ := except_bind_eq_ok.mp h
    cases h
    intro path source hmem
    rw [flatMap_cons, mem_append] at hmem
    rw [length_cons]
    rcases hmem with hmem | hmem
    · obtain ⟨entry, hentry, heq⟩ : ∃ entry ∈ first, entry = (path, source) := by
        simpa [layerOps] using hmem
      subst heq
      obtain ⟨hpath, hlayer⟩ := readEntries_spec hfirst _ hentry
      dsimp only at hlayer
      exact ⟨hpath, by omega⟩
    · obtain ⟨hpath, hlayer⟩ := ih hlater path source hmem
      exact ⟨hpath, by omega⟩

theorem normalised_of_readLayers {entries} (h : readLayers i layers = .ok entries) :
    ∀ path source, Op.put path source ∈ entries.flatMap layerOps → Normalised path :=
  fun path source hmem => (readLayers_spec h path source hmem).1

/-- One step: what stands in the tree stood there before or was just placed. -/
theorem Op.eq_put_of_getElem?_run {op : Op} (h : (op.run tree)[path]? = some source) :
    tree[path]? = some source ∨ op = .put path source := by
  cases op with
  | hide whiteout => exact .inl (getElem?_of_hide h)
  | put placed new =>
    by_cases hskip : isWhiteout placed ∨ placed = []
    · rw [Op.run, Image.put, if_pos hskip] at h
      exact .inl h
    · rw [Op.run, getElem?_put hskip] at h
      split at h
      · rename_i heq
        cases h
        exact .inr (heq ▸ rfl)
      · split at h
        · cases h
        · exact .inl h

/-- Whole runs: what stands in the tree was placed by one of the operations. -/
theorem put_mem_of_getElem?_foldl {ops : List Op}
    (h : (ops.foldl Op.run tree)[path]? = some source) :
    tree[path]? = some source ∨ Op.put path source ∈ ops := by
  induction ops generalizing tree with
  | nil => exact .inl h
  | cons op ops ih =>
    rcases ih h with hrun | hmem
    · rcases Op.eq_put_of_getElem?_run hrun with hbefore | rfl
      · exact .inl hbefore
      · exact .inr mem_cons_self
    · exact .inr (mem_cons_of_mem op hmem)

theorem normalised_foldl {ops : List Op} (hnorm : ∀ path ∈ tree, Normalised path)
    (hops : ∀ path source, Op.put path source ∈ ops → Normalised path) :
    ∀ path ∈ ops.foldl Op.run tree, Normalised path := by
  intro path hmem
  obtain ⟨source, hsource⟩ :=
    Option.isSome_iff_exists.mp (ExtTreeMap.mem_iff_isSome_getElem?.mp hmem)
  rcases put_mem_of_getElem?_foldl hsource with hbefore | hput
  · refine hnorm path (ExtTreeMap.mem_iff_isSome_getElem?.mpr ?_)
    rw [hbefore]
    rfl
  · exact hops path source hput

/-- Every entry of the flattened tree comes from one of the layers. -/
theorem layer_lt_of_openLayers (h : openLayers layers = .ok flat)
    (hsource : flat.tree[path]? = some source) : source.layer < layers.length := by
  obtain ⟨entries, hread, htree⟩ := foldl_ops_of_openLayers h
  rw [htree] at hsource
  rcases put_mem_of_getElem?_foldl hsource with hempty | hput
  · simp at hempty
  · simpa using (readLayers_spec hread path source hput).2

theorem layers_of_openLayers (h : openLayers layers = .ok flat) :
    flat.layers = layers.map (·.bytes) := by
  obtain ⟨tree, -, rfl⟩ := except_map_eq_ok.mp h
  rfl

/-! ## Entries for examples -/

/-- A tar entry for root with mode 755 and no data. -/
def listed (path : String) (kind : EntryType) : RawEntry where
  path := OsStr.ofStr path.toList
  header := ⟨kind, some 0o755, some 0, some 0, some 0, some 0⟩
  linkName := none
  rawFilePosition := 512

end Cirrocumulus.Image
