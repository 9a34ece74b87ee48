/-
# The layer rules

The tree a list of layers stands for, by the rules for image layers, next to the
tree that flattening them computes. `Op.byRules` states what one entry does by
the rules: a whiteout deletes the path it names with everything below it, an
opaque marker deletes everything below its directory, and a directory entry
keeps what lies below it unless it replaces something listed there that is no
directory.

The two differ in two places. A directory entry at a path the tree does not list
removes what lies below it, where the rules keep it. A whiteout at the root that
names nothing clears the tree, where the rules pass it over. `lost` follows what
the first such entry drops until a later entry hides or replaces it, and the
flattened tree is exactly the tree of the rules without what is lost at the end.
-/

import Cirrocumulus.Image.Flatten
import Cirrocumulus.Lib.Runs

namespace Cirrocumulus.Image

open Std (ExtTreeMap)

variable {tree rules : Tree} {path : Str}

/-! ## The rules -/

/-- What an entry hides by the rules. -/
inductive Whiteout
  /-- An opaque marker: everything below its directory. -/
  | opaqueDir (dir : Str)
  /-- A whiteout: the path it names and everything below it. -/
  | named (target : Str)
  /-- Any other entry, and a whiteout that names nothing. -/
  | nothing

/-- The whiteout that the entry at `path` is. -/
def whiteoutOf (path : Str) : Whiteout :=
  let (dir, name) := split path
  if name = opaqueMarker then .opaqueDir dir
  else match stripPrefix whiteoutPrefix name with
    | some [] | none => .nothing
    | some hidden => .named (join dir hidden)

def Whiteout.Hides : Whiteout → Str → Prop
  | .opaqueDir dir, other => Below dir other
  | .named target, other => other = target ∨ Below target other
  | .nothing, _ => False

instance : (whiteout : Whiteout) → (other : Str) → Decidable (whiteout.Hides other)
  | .opaqueDir dir, other => inferInstanceAs (Decidable (Below dir other))
  | .named target, other => inferInstanceAs (Decidable (other = target ∨ Below target other))
  | .nothing, _ => inferInstanceAs (Decidable False)

/-- A directory entry at `path` keeps what lies below it, unless the tree lists
something there that is no directory. -/
def Merges (tree : Tree) (path : Str) (source : Source) : Prop :=
  source.isDir = true ∧ tree[path]?.all Source.isDir = true

instance (tree : Tree) (path : Str) (source : Source) : Decidable (Merges tree path source) :=
  inferInstanceAs (Decidable (_ ∧ _))

/-- The effect of one operation by the layer rules. -/
def Op.byRules (tree : Tree) : Op → Tree
  | .hide path => tree.filter fun other _ => ¬ (whiteoutOf path).Hides other
  | .put path source =>
    if isWhiteout path ∨ path = [] then tree
    else if Merges tree path source then tree.insert path source
    else (tree.filter fun other _ => ¬ Below path other).insert path source

/-- The tree that layers with these entries stand for, bottom first. -/
def layerRules (layers : List (List (Str × Source))) : Tree :=
  (layers.flatMap layerOps).foldl Op.byRules ∅

/-! ## What flattening loses -/

/-- A whiteout at the root that names nothing. -/
def NamesRoot (path : Str) : Prop := split path = ([], whiteoutPrefix)

instance (path : Str) : Decidable (NamesRoot path) := inferInstanceAs (Decidable (_ = _))

/-- What is lost after one operation, from the tree of the rules and what was
lost before it. What an operation hides or replaces anyway is not lost. -/
def Op.loses (rules lost : Tree) : Op → Tree
  | .hide path =>
    if NamesRoot path then rules
    else lost.filter fun other _ => ¬ (whiteoutOf path).Hides other
  | .put path source =>
    if isWhiteout path ∨ path = [] then lost
    else if Merges rules path source then
      if path ∈ rules ∧ path ∉ lost then lost
      -- The directory is not listed in the flattened tree.
      else rules.filter fun other _ => other ≠ path ∧ (other ∈ lost ∨ Below path other)
    else lost.filter fun other _ => other ≠ path ∧ ¬ Below path other

/-- The tree of the rules and what flattening has lost of it, after `ops`. -/
def rulesAndLost (ops : List Op) : Tree × Tree :=
  ops.foldl (fun state op => (op.byRules state.1, op.loses state.1 state.2)) (∅, ∅)

/-- The entries that the rules keep and the flattened tree has not got. -/
def lost (layers : List (List (Str × Source))) : Tree :=
  (rulesAndLost (layers.flatMap layerOps)).2

/-- An operation that loses nothing of `tree`: no directory entry comes at an
unlisted path with something below it, and no whiteout of the root over a tree
that is not empty. -/
def Op.Safe (tree : Tree) : Op → Prop
  | .hide path => NamesRoot path → tree = ∅
  | .put path source =>
    ¬ isWhiteout path → path ≠ [] → source.isDir = true → path ∉ tree →
      ∀ other ∈ tree, ¬ Below path other

/-! ## Lookups -/

theorem getElem?_filter_paths (tree : Tree) (keep : Str → Prop) [DecidablePred keep] (path : Str) :
    (tree.filter fun other _ => decide (keep other))[path]? =
      if keep path then tree[path]? else none := by
  rw [ExtTreeMap.getElem?_filter']
  by_cases hkeep : keep path <;> cases tree[path]? <;> simp [hkeep]

theorem mem_filter_paths {keep} [DecidablePred keep] :
    path ∈ tree.filter (fun other _ => decide (keep other)) ↔ keep path ∧ path ∈ tree := by
  simp only [ExtTreeMap.mem_iff_isSome_getElem?, getElem?_filter_paths]
  by_cases hkeep : keep path <;> simp [hkeep]

theorem opaqueMarker_ne_whiteoutPrefix : opaqueMarker ≠ whiteoutPrefix := by decide

/-- No normalised path is named by one that ends in a slash. -/
theorem getElem?_behind_slash (hnorm : ∀ other ∈ tree, Normalised other) {dir other : Str}
    (h : other = dir ++ ['/'] ∨ Below (dir ++ ['/']) other) : tree[other]? = none := by
  refine ExtTreeMap.getElem?_eq_none fun hmem => ?_
  have hother := hnorm other hmem
  rcases h with rfl | hnil | ⟨rest, rfl⟩
  · exact hother.behind_slash.1 rfl
  · simp at hnil
  · rw [List.append_assoc, List.append_assoc] at hother
    exact hother.behind_slash.2 rfl

/-- A whiteout hides in the flattened tree what it hides by the rules, and one
that names the root hides everything. -/
theorem getElem?_hide (hnorm : ∀ other ∈ tree, Normalised other) (path other : Str) :
    (hide tree path)[other]? =
      if NamesRoot path ∨ (whiteoutOf path).Hides other then none else tree[other]? := by
  rcases hsplit : split path with ⟨dir, name⟩
  by_cases hopq : name = opaqueMarker
  · have hroot : ¬ NamesRoot path := by
      simp [NamesRoot, hsplit, hopq, opaqueMarker_ne_whiteoutPrefix]
    have hwhiteout : whiteoutOf path = .opaqueDir dir := by simp [whiteoutOf, hsplit, hopq]
    have hhide : hide tree path = removeChildren tree dir := by simp [hide, hsplit, hopq]
    rw [hhide, getElem?_removeChildren, hwhiteout]
    simp [hroot, Whiteout.Hides]
  cases hstrip : stripPrefix whiteoutPrefix name with
  | none =>
    have hroot : ¬ NamesRoot path := by
      intro h
      rw [NamesRoot, hsplit, Prod.mk.injEq] at h
      rw [h.2] at hstrip
      simp [stripPrefix] at hstrip
    have hwhiteout : whiteoutOf path = .nothing := by
      simp [whiteoutOf, hsplit, hopq, hstrip]
    have hhide : hide tree path = tree := by simp [hide, hsplit, hopq, hstrip]
    rw [hhide, hwhiteout]
    simp [hroot, Whiteout.Hides]
  | some hidden =>
    have hname : name = whiteoutPrefix ++ hidden := stripPrefix_eq_some.mp hstrip
    have hhide : hide tree path = remove tree (join dir hidden) := by
      simp [hide, hsplit, hopq, hstrip]
    rw [hhide, getElem?_remove]
    cases hidden with
    | cons c hidden =>
      have hroot : ¬ NamesRoot path := by simp [NamesRoot, hsplit, hname]
      have hwhiteout : whiteoutOf path = .named (join dir (c :: hidden)) := by
        simp [whiteoutOf, hsplit, hopq, hstrip]
      rw [hwhiteout]
      simp [hroot, Whiteout.Hides]
    | nil =>
      have hwhiteout : whiteoutOf path = .nothing := by
        simp [whiteoutOf, hsplit, hopq, hstrip]
      rw [hwhiteout]
      by_cases hdir : dir = []
      · have hroot : NamesRoot path := by simp [NamesRoot, hsplit, hname, hdir]
        simp [hroot, hdir, join, Below]
      · have hroot : ¬ NamesRoot path := by simp [NamesRoot, hsplit, hdir]
        have hjoin : join dir [] = dir ++ ['/'] := by simp [join, hdir]
        simp only [hroot, Whiteout.Hides, or_self, if_false, hjoin]
        exact ite_eq_right_iff.mpr fun h => (getElem?_behind_slash hnorm h).symm

theorem getElem?_byRules_put (hput : ¬ (isWhiteout path ∨ path = []))
    (tree : Tree) (source : Source) (other : Str) :
    ((Op.put path source).byRules tree)[other]? =
      if other = path then some source
      else if ¬ Merges tree path source ∧ Below path other then none else tree[other]? := by
  rw [Op.byRules, if_neg hput]
  by_cases hmerge : Merges tree path source
  · rw [if_pos hmerge, Lib.lookup_insert]
    simp [hmerge]
  · rw [if_neg hmerge, Lib.lookup_insert, getElem?_filter_paths]
    by_cases hbelow : Below path other <;> simp [hmerge, hbelow]

/-! ## The flattened tree is the tree of the rules without what is lost -/

/-- How the flattened tree relates to the tree of the rules. -/
structure Tracks (tree rules lost : Tree) : Prop where
  lookup : ∀ path, tree[path]? = if path ∈ lost then none else rules[path]?
  mem_rules : ∀ path ∈ lost, path ∈ rules
  normalised : ∀ path ∈ rules, Normalised path

theorem Tracks.empty : Tracks ∅ ∅ ∅ where
  lookup := by simp
  mem_rules := by simp
  normalised := by simp

section

variable {lost : Tree} (h : Tracks tree rules lost)
include h

theorem Tracks.mem_of_mem (hmem : path ∈ tree) : path ∈ rules := by
  rw [ExtTreeMap.mem_iff_isSome_getElem?, h.lookup] at hmem
  split at hmem
  · cases hmem
  · exact ExtTreeMap.mem_iff_isSome_getElem?.mpr hmem

theorem Tracks.hide (path : Str) :
    Tracks ((Op.hide path).run tree) ((Op.hide path).byRules rules)
      ((Op.hide path).loses rules lost) := by
  have hnorm := fun other hother => h.normalised other (h.mem_of_mem hother)
  have hkeep : ∀ other ∈ (Op.hide path).byRules rules, other ∈ rules := fun other hother =>
    (mem_filter_paths.mp hother).2
  by_cases hroot : NamesRoot path
  · have hnothing : whiteoutOf path = .nothing := by
      simp [whiteoutOf, show split path = _ from hroot, opaqueMarker_ne_whiteoutPrefix.symm,
        stripPrefix]
    have hrules : ∀ other : Str, ((Op.hide path).byRules rules)[other]? = rules[other]? := by
      intro other
      rw [Op.byRules, getElem?_filter_paths, hnothing]
      simp [Whiteout.Hides]
    refine ⟨fun other => ?_, fun other hother => ?_, fun other hother => ?_⟩
    · rw [hrules, Op.run, getElem?_hide hnorm, Op.loses, if_pos hroot, if_pos (.inl hroot)]
      split
      · rfl
      · exact (ExtTreeMap.getElem?_eq_none ‹_›).symm
    · rw [Op.loses, if_pos hroot] at hother
      rw [ExtTreeMap.mem_iff_isSome_getElem?, hrules]
      exact ExtTreeMap.mem_iff_isSome_getElem?.mp hother
    · exact h.normalised other (hkeep other hother)
  · refine ⟨fun other => ?_, fun other hother => ?_, fun other hother => ?_⟩
    · rw [Op.run, getElem?_hide hnorm, Op.byRules, getElem?_filter_paths, Op.loses,
        if_neg hroot, h.lookup]
      by_cases hhides : (whiteoutOf path).Hides other
      · simp [hhides]
      · simp only [hroot, hhides, or_self, if_false, not_false_eq_true, if_true,
          mem_filter_paths, true_and]
    · rw [Op.loses, if_neg hroot] at hother
      obtain ⟨hhides, hmem⟩ := mem_filter_paths.mp hother
      exact mem_filter_paths.mpr ⟨hhides, h.mem_rules other hmem⟩
    · exact h.normalised other (hkeep other hother)

/-- The flattened tree merges a directory with what lies below it when the rules
do and it lists the directory. -/
theorem Tracks.merges_iff (path : Str) (source : Source) :
    (source.isDir ∧ tree[path]?.any Source.isDir) ↔
      Merges rules path source ∧ path ∈ rules ∧ path ∉ lost := by
  have hmem : path ∈ rules ↔ rules[path]?.isSome := ExtTreeMap.mem_iff_isSome_getElem?
  rw [h.lookup, Merges, hmem]
  by_cases hlost : path ∈ lost
  · simp [hlost]
  · cases rules[path]? <;> simp [hlost]

theorem Tracks.put (source : Source) (hpath : Normalised path) :
    Tracks ((Op.put path source).run tree) ((Op.put path source).byRules rules)
      ((Op.put path source).loses rules lost) := by
  by_cases hput : isWhiteout path ∨ path = []
  · simpa only [Op.run, Image.put, Op.byRules, Op.loses, if_pos hput] using h
  have hlookup := getElem?_byRules_put hput rules source
  have hmem_rules : ∀ other, other ∈ (Op.put path source).byRules rules ↔
      other = path ∨ (¬ (¬ Merges rules path source ∧ Below path other) ∧ other ∈ rules) := by
    intro other
    rw [ExtTreeMap.mem_iff_isSome_getElem?, hlookup, ExtTreeMap.mem_iff_isSome_getElem?]
    split
    · simp_all
    · split <;> simp_all
  -- What is lost afterwards, by the branch the rules take.
  have hmem_lost : ∀ other, other ∈ (Op.put path source).loses rules lost ↔
      other ≠ path ∧ other ∈ rules ∧
        if Merges rules path source then
          other ∈ lost ∨ (¬ (path ∈ rules ∧ path ∉ lost) ∧ Below path other)
        else other ∈ lost ∧ ¬ Below path other := by
    intro other
    have hle := h.mem_rules other
    rw [Op.loses, if_neg hput]
    by_cases hmerge : Merges rules path source
    · rw [if_pos hmerge, if_pos hmerge]
      by_cases hlisted : path ∈ rules ∧ path ∉ lost
      · rw [if_pos hlisted]
        have hne : other ∈ lost → other ≠ path := by
          rintro hother rfl
          exact hlisted.2 hother
        tauto
      · rw [if_neg hlisted, mem_filter_paths]
        tauto
    · rw [if_neg hmerge, if_neg hmerge, mem_filter_paths]
      tauto
  refine ⟨fun other => ?_, fun other hother => ?_, fun other hother => ?_⟩
  · rw [Op.run, getElem?_put hput, hlookup]
    simp only [hmem_lost, h.merges_iff, h.lookup other]
    by_cases heq : other = path
    · simp [heq]
    · by_cases hrules : other ∈ rules
      · by_cases hbelow : Below path other <;> by_cases hmerge : Merges rules path source <;>
          by_cases hlost : other ∈ lost <;> simp [heq, hrules, hbelow, hmerge, hlost]
      · have hnone : rules[other]? = none := ExtTreeMap.getElem?_eq_none hrules
        simp [heq, hnone]
  · rw [hmem_lost] at hother
    rw [hmem_rules]
    obtain ⟨-, hmem, hcase⟩ := hother
    refine .inr ⟨?_, hmem⟩
    rintro ⟨hmerge, hbelow⟩
    rw [if_neg hmerge] at hcase
    exact hcase.2 hbelow
  · rcases (hmem_rules other).mp hother with rfl | ⟨-, hmem⟩
    · exact hpath
    · exact h.normalised other hmem

theorem Tracks.op {op : Op}
    (hop : ∀ path source, op = .put path source → Normalised path) :
    Tracks (op.run tree) (op.byRules rules) (op.loses rules lost) := by
  cases op with
  | hide path => exact h.hide path
  | put path source => exact h.put source (hop path source rfl)

end

/-- Whole runs: the flattened tree tracks the rules after any operations. -/
theorem tracks_foldl {ops : List Op} {state : Tree × Tree} (h : Tracks tree state.1 state.2)
    (hops : ∀ path source, Op.put path source ∈ ops → Normalised path) :
    let last := ops.foldl (fun state op => (op.byRules state.1, op.loses state.1 state.2)) state
    Tracks (ops.foldl Op.run tree) last.1 last.2 := by
  induction ops generalizing tree state with
  | nil => exact h
  | cons op ops ih =>
    refine ih (h.op fun path source heq => ?_) fun path source hmem => ?_
    · exact hops path source (heq ▸ List.mem_cons_self)
    · exact hops path source (List.mem_cons_of_mem op hmem)

theorem rulesAndLost_fst (ops : List Op) : (rulesAndLost ops).1 = ops.foldl Op.byRules ∅ := by
  suffices ∀ state : Tree × Tree,
      (ops.foldl (fun state op => (op.byRules state.1, op.loses state.1 state.2)) state).1 =
        ops.foldl Op.byRules state.1 from this (∅, ∅)
  induction ops with
  | nil => intro state; rfl
  | cons op ops ih => intro state; exact ih _

theorem Tracks.eq_iff {lost} (h : Tracks tree rules lost) : tree = rules ↔ lost = ∅ := by
  constructor
  · intro heq
    refine ExtTreeMap.ext_getElem? fun path => ?_
    rw [ExtTreeMap.getElem?_empty]
    refine ExtTreeMap.getElem?_eq_none fun hlost => ?_
    have hlookup := h.lookup path
    rw [if_pos hlost, heq] at hlookup
    have hmem := ExtTreeMap.mem_iff_isSome_getElem?.mp (h.mem_rules path hlost)
    rw [hlookup] at hmem
    cases hmem
  · rintro rfl
    refine ExtTreeMap.ext_getElem? fun path => ?_
    simpa using h.lookup path

/-- A safe operation on trees that agree loses nothing. -/
theorem Op.loses_eq_empty {op : Op} (hsafe : op.Safe rules) : op.loses rules ∅ = ∅ := by
  refine ExtTreeMap.ext_getElem? fun path => ?_
  rw [ExtTreeMap.getElem?_empty]
  refine ExtTreeMap.getElem?_eq_none fun hlost => ?_
  cases op with
  | hide whiteout =>
    rw [Op.loses] at hlost
    split at hlost
    · rename_i hroot
      simp [hsafe hroot] at hlost
    · simpa using (mem_filter_paths.mp hlost).2
  | put dir source =>
    rw [Op.loses] at hlost
    split at hlost
    · simp at hlost
    · rename_i hput
      obtain ⟨hwhiteout, hroot⟩ := not_or.mp hput
      split at hlost
      · rename_i hmerge
        split at hlost
        · simp at hlost
        · rename_i hlisted
          have hunlisted : dir ∉ rules := fun hmem => hlisted ⟨hmem, by simp⟩
          obtain ⟨⟨-, hbelow⟩, hmem⟩ := mem_filter_paths.mp hlost
          exact hsafe hwhiteout hroot hmerge.1 hunlisted path hmem (by simpa using hbelow)
      · simpa using (mem_filter_paths.mp hlost).2

theorem loses_nothing_of_safe {ops : List Op}
    (hsafe : Lib.Along (fun tree op => some (Op.byRules tree op)) Op.Safe rules ops) :
    (ops.foldl (fun state op => (op.byRules state.1, op.loses state.1 state.2))
      (rules, ∅)).2 = ∅ := by
  induction ops generalizing rules with
  | nil => rfl
  | cons op ops ih =>
    rw [List.foldl_cons, Op.loses_eq_empty hsafe.1]
    exact ih (hsafe.2 _ rfl)

/-- For layers that are accepted, the flattened tree is the one the layer rules
give exactly when nothing is lost: when all that a directory entry at an unlisted
path or a whiteout of the root drops is hidden or replaced later anyway. Nothing
is lost when every operation is safe in the tree it meets. -/
theorem openLayers_tree_eq_layerRules_iff {layers : List Layer} {flat : Flattened}
    (h : openLayers layers = .ok flat) :
    ∃ entries, readLayers 0 layers = .ok entries ∧
      (flat.tree = layerRules entries ↔ lost entries = ∅) ∧
      (Lib.Along (fun tree op => some (Op.byRules tree op)) Op.Safe ∅
        (entries.flatMap layerOps) → flat.tree = layerRules entries) := by
  obtain ⟨entries, hread, htree⟩ := foldl_ops_of_openLayers h
  have htracks : Tracks ((entries.flatMap layerOps).foldl Op.run ∅)
      (rulesAndLost (entries.flatMap layerOps)).1 (lost entries) :=
    tracks_foldl .empty (normalised_of_readLayers hread)
  have hiff : flat.tree = layerRules entries ↔ lost entries = ∅ := by
    rw [htree, layerRules, ← rulesAndLost_fst]
    exact htracks.eq_iff
  exact ⟨entries, hread, hiff, fun hsafe => hiff.mpr (loses_nothing_of_safe hsafe)⟩

/-- A lower layer's file below a directory it does not list is gone once an upper
layer lists the directory. -/
theorem openLayers_drops_below_unlisted_directory :
    ∃ flat entries,
      openLayers [⟨[], [listed "usr/bin/sh" .regular]⟩, ⟨[], [listed "usr" .directory]⟩] =
        .ok flat ∧
      readLayers 0 [⟨[], [listed "usr/bin/sh" .regular]⟩, ⟨[], [listed "usr" .directory]⟩] =
        .ok entries ∧
      "usr/bin/sh".toList ∈ layerRules entries ∧ "usr/bin/sh".toList ∉ flat.tree :=
  ⟨_, _, rfl, rfl, by decide +kernel, by decide +kernel⟩

/-- Two files in a directory, and a layer above that removes one of them. -/
def removingLayers : List Layer :=
  [⟨[], [listed "bin" .directory, listed "bin/ls" .regular, listed "bin/sh" .regular]⟩,
    ⟨[], [listed "bin" .directory, listed "bin/.wh.sh" .regular]⟩]

/-- The theorem applies: nothing is lost, and the tree is the one of the rules. -/
theorem openLayers_tree_eq_layerRules_of_listed :
    ∃ flat entries, openLayers removingLayers = .ok flat ∧
      readLayers 0 removingLayers = .ok entries ∧ flat.tree = layerRules entries ∧
      "bin/ls".toList ∈ flat.tree ∧ "bin/sh".toList ∉ flat.tree := by
  obtain ⟨flat, hopen⟩ : ∃ flat, openLayers removingLayers = .ok flat := ⟨_, rfl⟩
  obtain ⟨entries, hread, hiff, -⟩ := openLayers_tree_eq_layerRules_iff hopen
  have hlost : lost entries = ∅ := by
    cases hread
    exact ExtTreeMap.isEmpty_iff.mp (by decide +kernel)
  refine ⟨flat, entries, hopen, hread, hiff.mpr hlost, ?_⟩
  cases hopen
  decide +kernel

end Cirrocumulus.Image
