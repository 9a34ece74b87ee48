/-
# Non-directories with something below them

A flattened tree is a filesystem tree when nothing it lists lies below a listed
non-directory. Placing an entry looks at the entry's own path and at what is
below it, never at what is above it. So a non-directory never comes to stand over
something, but an entry can be placed under a non-directory of its own or of a
lower layer. It then stays there until a later entry removes it: whatever takes
away the non-directory takes away what lies below it too.
-/

import Cirrocumulus.Image.LayerRules

namespace Cirrocumulus.Image

open Std (ExtTreeMap)

variable {path dir : Str} {tree : Tree} {op : Op}

/-- Every listed path above a listed path is a directory. -/
def WellFormed (tree : Tree) : Prop :=
  ∀ path ∈ tree, ∀ dir source, tree[dir]? = some source → Below dir path → source.isDir = true

/-- The tree lists a non-directory above `path`, at `dir`. -/
def Blocked (tree : Tree) (dir path : Str) : Prop :=
  Below dir path ∧ ∃ source, tree[dir]? = some source ∧ source.isDir = false

/-- An operation that places nothing under a non-directory of `tree`. -/
def Op.PlacesInDirs (tree : Tree) : Op → Prop
  | .hide _ => True
  | .put path _ => isWhiteout path = false → path ≠ [] → ∀ dir, ¬ Blocked tree dir path

instance (tree : Tree) : (op : Op) → Decidable (op.PlacesInDirs tree)
  | .hide _ => .isTrue trivial
  | .put path _ =>
    decidable_of_iff (isWhiteout path = false → path ≠ [] → ∀ item ∈ tree.toList,
        Below item.1 path → item.2.isDir = true) <| by
      refine imp_congr_right fun _ => imp_congr_right fun _ => ⟨?_, fun h item hitem hbelow => ?_⟩
      · rintro h dir ⟨hbelow, source, hsource, hfile⟩
        cases hfile.symm.trans (h (dir, source) (Lib.mem_items.mpr hsource) hbelow)
      · by_contra hfile
        exact h item.1 ⟨hbelow, item.2, Lib.mem_items.mp hitem, by simpa using hfile⟩

/-- An operation that removes `path` from `tree`: a whiteout that covers it, or an
entry above it that does not merge with what is there. -/
def Op.Removes (tree : Tree) (path : Str) : Op → Prop
  | .hide whiteout => NamesRoot whiteout ∨ (whiteoutOf whiteout).Hides path
  | .put placed source =>
    ¬ (isWhiteout placed = true ∨ placed = []) ∧
      ¬ (source.isDir = true ∧ tree[placed]?.any Source.isDir = true) ∧ Below placed path

/-- One of the operations removes `path`, in the tree it meets. -/
def RemovedBy (path : Str) : Tree → List Op → Prop
  | _, [] => False
  | tree, op :: rest => op.Removes tree path ∨ RemovedBy path (op.run tree) rest

theorem removedBy_append {first second} :
    RemovedBy path tree (first ++ second) ↔
      RemovedBy path tree first ∨ RemovedBy path (first.foldl Op.run tree) second := by
  induction first generalizing tree with
  | nil => simp [RemovedBy]
  | cons op first ih => simp [RemovedBy, ih, or_assoc]

theorem wellFormed_iff : WellFormed tree ↔ ∀ dir path, Blocked tree dir path → path ∉ tree := by
  constructor
  · rintro h dir path ⟨hbelow, source, hsource, hfile⟩ hmem
    have hdir := h path hmem dir source hsource hbelow
    rw [hfile] at hdir
    cases hdir
  · intro h path hmem dir source hsource hbelow
    by_contra hfile
    exact h dir path ⟨hbelow, source, hsource, by simpa using hfile⟩ hmem

theorem Whiteout.Hides.below {whiteout : Whiteout}
    (h : whiteout.Hides dir) (hbelow : Below dir path) : whiteout.Hides path := by
  cases whiteout with
  | opaqueDir above => exact Below.trans h hbelow
  | named target =>
    rcases h with rfl | h
    · exact .inr hbelow
    · exact .inr (h.trans hbelow)
  | nothing => exact h

/-- What an operation removes is not in the tree after it. -/
theorem Op.Removes.not_mem (h : op.Removes tree path)
    (hnorm : ∀ other ∈ tree, Normalised other) : path ∉ op.run tree := by
  rw [ExtTreeMap.mem_iff_isSome_getElem?]
  cases op with
  | hide whiteout =>
    have hhides : NamesRoot whiteout ∨ (whiteoutOf whiteout).Hides path := h
    rw [Op.run, getElem?_hide hnorm, if_pos hhides]
    simp
  | put placed source =>
    obtain ⟨hskip, hmerge, hbelow⟩ := h
    have hne : path ≠ placed := by
      rintro rfl
      exact not_below_self (not_or.mp hskip).2 hbelow
    rw [Op.run, getElem?_put hskip, if_neg hne, if_pos ⟨hmerge, hbelow⟩]
    simp

/-- A blocked path stays blocked through an operation that does not remove it. -/
theorem Blocked.run (h : Blocked tree dir path) (hnorm : ∀ other ∈ tree, Normalised other)
    (hkeep : ¬ op.Removes tree path) : Blocked (op.run tree) dir path := by
  obtain ⟨hbelow, source, hsource, hfile⟩ := h
  refine ⟨hbelow, source, ?_, hfile⟩
  cases op with
  | hide whiteout =>
    rw [Op.run, getElem?_hide hnorm, if_neg]
    · exact hsource
    · rintro (hroot | hhides)
      · exact hkeep (.inl hroot)
      · exact hkeep (.inr (hhides.below hbelow))
  | put placed new =>
    by_cases hskip : isWhiteout placed ∨ placed = []
    · rw [Op.run, put, if_pos hskip]
      exact hsource
    · have hmerge : ∀ habove : Below placed path,
          new.isDir ∧ tree[placed]?.any Source.isDir := fun habove =>
        not_not.mp fun hmerge => hkeep ⟨hskip, hmerge, habove⟩
      -- The non-directory is not where the entry is placed: that would not merge.
      have hne : dir ≠ placed := by
        rintro rfl
        simpa [hsource, hfile] using (hmerge hbelow).2
      rw [Op.run, getElem?_put hskip, if_neg hne, if_neg]
      · exact hsource
      · rintro ⟨hno, habove⟩
        exact hno (hmerge (habove.trans hbelow))

theorem mem_run_of_not_removes (hmem : path ∈ tree) (hnorm : ∀ other ∈ tree, Normalised other)
    (hkeep : ¬ op.Removes tree path) : path ∈ op.run tree := by
  rw [ExtTreeMap.mem_iff_isSome_getElem?] at hmem ⊢
  cases op with
  | hide whiteout =>
    have hhides : ¬ (NamesRoot whiteout ∨ (whiteoutOf whiteout).Hides path) := hkeep
    rw [Op.run, getElem?_hide hnorm, if_neg hhides]
    exact hmem
  | put placed source =>
    by_cases hskip : isWhiteout placed ∨ placed = []
    · rw [Op.run, put, if_pos hskip]
      exact hmem
    · rw [Op.run, getElem?_put hskip]
      split
      · rfl
      · rw [if_neg fun h => hkeep ⟨hskip, h.1, h.2⟩]
        exact hmem

/-- One step: a pair that an operation leaves blocked was blocked before it, or
the operation placed the lower one under the upper one. -/
theorem blocked_before (hblocked : Blocked (op.run tree) dir path) (hmem : path ∈ op.run tree) :
    Blocked tree dir path ∧ (path ∈ tree ∨
      ∃ source, op = .put path source ∧ isWhiteout path = false ∧ path ≠ []) := by
  obtain ⟨hbelow, source, hsource, hfile⟩ := hblocked
  rw [ExtTreeMap.mem_iff_isSome_getElem?] at hmem
  cases op with
  | hide whiteout =>
    obtain ⟨found, hfound⟩ := Option.isSome_iff_exists.mp hmem
    refine ⟨⟨hbelow, source, getElem?_of_hide hsource, hfile⟩, .inl ?_⟩
    rw [ExtTreeMap.mem_iff_isSome_getElem?, getElem?_of_hide hfound]
    rfl
  | put placed new =>
    by_cases hskip : isWhiteout placed ∨ placed = []
    · simp only [Op.run, put, if_pos hskip] at hsource hmem
      exact ⟨⟨hbelow, source, hsource, hfile⟩, .inl (ExtTreeMap.mem_iff_isSome_getElem?.mpr hmem)⟩
    obtain ⟨hwhiteout, hroot⟩ := not_or.mp hskip
    rw [Op.run, getElem?_put hskip] at hsource hmem
    by_cases hdir : dir = placed
    · -- A non-directory that is placed removes what was below it.
      subst hdir
      rw [if_pos rfl] at hsource
      cases hsource
      have hne : path ≠ dir := by
        rintro rfl
        exact not_below_self hroot hbelow
      simp [hne, hfile, hbelow] at hmem
    · rw [if_neg hdir] at hsource
      split at hsource
      · cases hsource
      · refine ⟨⟨hbelow, source, hsource, hfile⟩, ?_⟩
        by_cases hpath : path = placed
        · subst hpath
          exact .inr ⟨new, rfl, by simpa using hwhiteout, hroot⟩
        · rw [if_neg hpath] at hmem
          split at hmem
          · cases hmem
          · exact .inl (ExtTreeMap.mem_iff_isSome_getElem?.mpr hmem)

/-- Whole runs: what stays blocked was placed under a non-directory and is not
removed after that. -/
theorem exists_placed_of_blocked {ops}
    (hops : ∀ path source, Op.put path source ∈ ops → Normalised path)
    (hblocked : Blocked (ops.foldl Op.run ∅) dir path) (hmem : path ∈ ops.foldl Op.run ∅) :
    ∃ before source after, ops = before ++ .put path source :: after ∧
      isWhiteout path = false ∧ path ≠ [] ∧ Blocked (before.foldl Op.run ∅) dir path ∧
      ¬ RemovedBy path ((Op.put path source).run (before.foldl Op.run ∅)) after := by
  induction ops using List.reverseRecOn with
  | nil => simp at hmem
  | append_singleton ops op ih =>
    have hops' := fun path source hput => hops path source (List.mem_append_left [op] hput)
    have hnorm : ∀ other ∈ ops.foldl Op.run ∅, Normalised other := normalised_foldl (by simp) hops'
    rw [List.foldl_concat] at hblocked hmem
    obtain ⟨hbefore, hpath | ⟨source, rfl, hwhiteout, hroot⟩⟩ := blocked_before hblocked hmem
    · obtain ⟨before, source, after, rfl, hwhiteout, hroot, hplaced, hkept⟩ :=
        ih hops' hbefore hpath
      refine ⟨before, source, after ++ [op], by simp, hwhiteout, hroot, hplaced, ?_⟩
      rw [removedBy_append]
      rintro (hremoved | hremoved | hnone)
      · exact hkept hremoved
      · rw [List.foldl_append, List.foldl_cons] at hmem hnorm
        exact hremoved.not_mem hnorm hmem
      · exact hnone
    · exact ⟨ops, source, [], rfl, hwhiteout, hroot, hbefore, id⟩

/-- What is placed under a non-directory and not removed afterwards stays blocked. -/
theorem blocked_foldl {ops} (hops : ∀ path source, Op.put path source ∈ ops → Normalised path)
    (hnorm : ∀ other ∈ tree, Normalised other) (hblocked : Blocked tree dir path)
    (hmem : path ∈ tree) (hkept : ¬ RemovedBy path tree ops) :
    Blocked (ops.foldl Op.run tree) dir path ∧ path ∈ ops.foldl Op.run tree := by
  induction ops generalizing tree with
  | nil => exact ⟨hblocked, hmem⟩
  | cons op ops ih =>
    obtain ⟨hkeep, hrest⟩ := not_or.mp hkept
    have hnorm' : ∀ other ∈ [op].foldl Op.run tree, Normalised other :=
      normalised_foldl hnorm fun path source hput =>
        hops path source (List.mem_cons.mpr (.inl (List.mem_singleton.mp hput)))
    exact ih (fun path source hput => hops path source (List.mem_cons_of_mem op hput))
      hnorm' (hblocked.run hnorm hkeep) (mem_run_of_not_removes hmem hnorm hkeep) hrest

theorem Op.placesInDirs_of_along {before after}
    (h : Lib.Along (fun tree op => some (Op.run tree op)) Op.PlacesInDirs tree
      (before ++ op :: after)) : op.PlacesInDirs (before.foldl Op.run tree) := by
  induction before generalizing tree with
  | nil => exact h.1
  | cons first before ih => exact ih (h.2 _ rfl)

/-- The flattened tree of accepted layers is a filesystem tree exactly when every
entry that is placed under a listed non-directory is removed again, by a later
whiteout that covers it or by a later entry above it that does not merge. It is
one when no entry is ever placed under a listed non-directory. -/
theorem openLayers_wellFormed_iff {layers : List Layer} {flat : Flattened}
    (h : openLayers layers = .ok flat) :
    ∃ entries, readLayers 0 layers = .ok entries ∧
      (WellFormed flat.tree ↔
        ∀ before path source after dir,
          entries.flatMap layerOps = before ++ .put path source :: after →
          isWhiteout path = false → path ≠ [] → Blocked (before.foldl Op.run ∅) dir path →
          RemovedBy path ((Op.put path source).run (before.foldl Op.run ∅)) after) ∧
      (Lib.Along (fun tree op => some (Op.run tree op)) Op.PlacesInDirs ∅
        (entries.flatMap layerOps) → WellFormed flat.tree) := by
  obtain ⟨entries, hread, htree⟩ := foldl_ops_of_openLayers h
  have hops := normalised_of_readLayers hread
  refine ⟨entries, hread, ⟨?_, ?_⟩, ?_⟩
  · intro hwf before path source after dir hsplit hwhiteout hroot hblocked
    by_contra hkept
    rw [hsplit] at hops htree
    rw [List.foldl_append, List.foldl_cons] at htree
    have hput : ¬ (isWhiteout path ∨ path = []) := by simp [hwhiteout, hroot]
    have hnorm : ∀ other ∈ before.foldl Op.run ∅, Normalised other :=
      normalised_foldl (by simp) fun path source hmem =>
        hops path source (List.mem_append_left _ hmem)
    have hself : ¬ (Op.put path source).Removes (before.foldl Op.run ∅) path :=
      fun hremoves => not_below_self hroot hremoves.2.2
    have hplaced : path ∈ (Op.put path source).run (before.foldl Op.run ∅) := by
      rw [ExtTreeMap.mem_iff_isSome_getElem?, Op.run, getElem?_put hput, if_pos rfl]
      rfl
    have hnorm' : ∀ other ∈ (Op.put path source).run (before.foldl Op.run ∅),
        Normalised other := by
      refine @normalised_foldl _ [Op.put path source] hnorm fun other new hmem =>
        hops other new ?_
      exact List.mem_append_right before (List.mem_cons.mpr (.inl (List.mem_singleton.mp hmem)))
    obtain ⟨hstays, hlisted⟩ := blocked_foldl
      (fun path source hmem => hops path source
        (List.mem_append_right _ (List.mem_cons_of_mem _ hmem)))
      hnorm' (hblocked.run hnorm hself) hplaced hkept
    rw [← htree] at hstays hlisted
    exact wellFormed_iff.mp hwf dir path hstays hlisted
  · intro hremoved
    refine wellFormed_iff.mpr fun dir path hblocked hmem => ?_
    obtain ⟨before, source, after, hsplit, hwhiteout, hroot, hbefore, hkept⟩ :=
      exists_placed_of_blocked hops (htree ▸ hblocked) (htree ▸ hmem)
    exact hkept (hremoved before path source after dir hsplit hwhiteout hroot hbefore)
  · intro hdirs
    refine wellFormed_iff.mpr fun dir path hblocked hmem => ?_
    obtain ⟨before, source, after, hsplit, hwhiteout, hroot, hbefore, -⟩ :=
      exists_placed_of_blocked hops (htree ▸ hblocked) (htree ▸ hmem)
    rw [hsplit] at hdirs
    exact Op.placesInDirs_of_along hdirs hwhiteout hroot dir hbefore

/-- An upper layer's file below a path that a lower layer made a file. -/
theorem openLayers_places_below_file :
    ∃ flat, openLayers [⟨[], [listed "a" .regular]⟩, ⟨[], [listed "a/b" .regular]⟩] = .ok flat ∧
      Below "a" "a/b" ∧ "a/b".toList ∈ flat.tree ∧
      flat.tree["a".toList]?.any (fun source => !source.isDir) = true :=
  ⟨_, rfl, by decide, by decide +kernel, by decide +kernel⟩

/-- The theorem applies: an upper layer's file in a directory of a lower layer. -/
theorem openLayers_wellFormed_of_directory :
    ∃ flat, openLayers [⟨[], [listed "a" .directory]⟩, ⟨[], [listed "a/b" .regular]⟩] = .ok flat ∧
      "a/b".toList ∈ flat.tree ∧ WellFormed flat.tree := by
  obtain ⟨flat, hopen⟩ : ∃ flat, openLayers [⟨[], [listed "a" .directory]⟩,
      ⟨[], [listed "a/b" .regular]⟩] = .ok flat := ⟨_, rfl⟩
  obtain ⟨entries, hread, -, hwf⟩ := openLayers_wellFormed_iff hopen
  refine ⟨flat, hopen, ?_, hwf ?_⟩
  · cases hopen
    decide +kernel
  · cases hread
    decide +kernel

end Cirrocumulus.Image
