/-
# The order of the rootfs tar

The members of the tar are in path order, except that the hard links follow all others.
A path sorts after every path above it, so a directory is always there before what lies
in it. A hard link finds its target when the target is none: it was written in the first
loop. Between two hard links it is the order of their paths that decides, and whether the
target is a directory of a layer is not looked at.
-/

import Cirrocumulus.Image.GuestTree
import Cirrocumulus.Image.Inside

namespace Cirrocumulus.Image

open List
open Std (ExtTreeMap)

/-! ## Members and what they are written from -/

/-- The path a member links to. -/
def Member.target (member : Member) : Option Str := member.linkName.bind OsStr.toStr

/-- The members' order: hard links last, and otherwise by path. -/
def Precedes (a b : Member) : Prop :=
  if a.isLink = b.isLink then compare a.path b.path = .lt else b.isLink = true

/-- A member stands for the entry at its path. -/
structure Member.Stands (tree : EntryTree) (member : Member) (entry : Entry) : Prop where
  listed : tree[member.path]? = some entry
  isLink : member.isLink = entry.isHardLink
  isDir : member.isDir = entry.isDir
  /-- A link names a path that is listed. -/
  target : member.isLink → ∃ source target, entry = .layer source ∧
    normalise (source.linkName.getD []) = .ok target ∧ member.target = some target ∧
    target ∈ tree

section

variable {builder : Builder} {flat : Flattened} {tree : EntryTree} {item : Str × Entry}
  {link : Str × Source} {a b member : Member} {entry : Entry}

theorem Precedes.not_self : ¬ Precedes member member := by
  simp [Precedes]

theorem Precedes.asymm (hab : Precedes a b) : ¬ Precedes b a := by
  unfold Precedes at *
  intro hba
  by_cases hlink : a.isLink = b.isLink
  · rw [if_pos hlink] at hab
    rw [if_pos hlink.symm] at hba
    rw [← Std.OrientedCmp.gt_iff_lt, hab] at hba
    cases hba
  · rw [if_neg hlink] at hab
    rw [if_neg (Ne.symm hlink)] at hba
    exact hlink (by rw [hab, hba])

/-- Members in order stand for different entries. -/
theorem Member.Stands.path_ne {entry'} (ha : a.Stands tree entry)
    (hb : b.Stands tree entry') (h : Precedes a b) : a.path ≠ b.path := by
  intro heq
  have hsame : entry = entry' := by
    rw [← Option.some.injEq, ← ha.listed, ← hb.listed, heq]
  rw [Precedes, if_pos (by rw [ha.isLink, hb.isLink, hsame]), heq] at h
  simp at h

theorem stands_of_fileMember (hitem : item ∈ tree.toList)
    (h : fileMember builder flat item = .ok (some member)) : member.Stands tree item.2 := by
  obtain ⟨hnot, hpath, hlink, hdir⟩ := of_fileMember h
  refine ⟨?_, hlink.trans hnot.symm, hdir, fun hyes => ?_⟩
  · rw [hpath]
    exact Lib.mem_items.mp hitem
  · rw [hlink] at hyes
    cases hyes

theorem stands_of_linkMember (hlink : link ∈ hardLinks tree)
    (h : linkMember builder tree link = .ok member) : member.Stands tree (.layer link.2) := by
  obtain ⟨hentry, hkind⟩ := mem_hardLinks.mp hlink
  have htype : link.2.header.entryType = .link := by simpa [Source.isHardLink] using hkind
  obtain ⟨target, header, htarget, hheader, rfl⟩ := linkMember_eq_ok h
  have hlinks : header.entryType = .link := (entryType_of_linkHeader hheader).trans htype
  have hok := linkHeader_isOk_iff.mp ⟨header, hheader⟩
  refine ⟨hentry, ?_, ?_, fun _ => ⟨link.2, target, rfl, htarget, ?_, ?_⟩⟩
  · simp [Member.isLink, Entry.isHardLink, hkind, hlinks]
  · simp [Member.isDir, Entry.isDir, Source.isDir, hlinks, htype]
  · exact OsStr.toStr_eq_some.mpr rfl
  · rw [ExtTreeMap.mem_iff_isSome_getElem?]
    cases hfound : tree[target]? with
    | none =>
      rw [hfound] at hok
      exact hok.elim
    | some found => rfl

end

/-! ## What a written tar lists, and in which order -/

section

variable {builder : Builder} {flat : Flattened} {tree : EntryTree} {members : List Member}
  {space : Nat}

section

variable (h : writeTar builder flat tree = .ok (members, space))
include h

/-- Every member stands for an entry of the tree. -/
theorem exists_stands_of_mem {member}
    (hmem : member ∈ members) : ∃ entry, member.Stands tree entry := by
  obtain ⟨files, links, hfiles, hlinks, rfl⟩ := writeTar_eq_ok h
  rcases mem_append.mp hmem with hfile | hlink
  · obtain ⟨item, hitem, hresult⟩ := forall_exists_of_mapM hfiles _
      (reduceOption_mem_iff.mp hfile)
    exact ⟨_, stands_of_fileMember hitem hresult⟩
  · obtain ⟨link, hmem, hresult⟩ := forall_exists_of_mapM hlinks _ hlink
    exact ⟨_, stands_of_linkMember hmem hresult⟩

/-- Every entry of the tree has a member. -/
theorem exists_member_of_entry {path entry} (hentry : tree[path]? = some entry) :
    ∃ member ∈ members, member.path = path ∧ member.Stands tree entry := by
  obtain ⟨files, links, hfiles, hlinks, rfl⟩ := writeTar_eq_ok h
  have hitem : (path, entry) ∈ tree.toList := Lib.mem_items.mpr hentry
  obtain ⟨result, hmem, hresult⟩ := exists_mem_of_mapM hfiles _ hitem
  rcases fileMember_eq_ok hresult with ⟨-, hlink⟩ | ⟨member, rfl, -, hpath, -⟩
  · cases entry with
    | layer source =>
      have hput := mem_hardLinks.mpr ⟨hentry, hlink⟩
      obtain ⟨member, hmem, hresult⟩ := exists_mem_of_mapM hlinks _ hput
      exact ⟨member, mem_append_right _ hmem, path_of_linkMember hresult,
        stands_of_linkMember hput hresult⟩
    | guest | dir => cases hlink
  · exact ⟨member, mem_append_left _ (reduceOption_mem_iff.mpr hmem), hpath,
      stands_of_fileMember hitem hresult⟩

/-- The members are in their order. -/
theorem writeTar_ordered :
    members.Pairwise Precedes := by
  obtain ⟨files, links, hfiles, hlinks, rfl⟩ := writeTar_eq_ok h
  have hfile : ∀ member ∈ files.reduceOption, member.isLink = false := by
    intro member hmem
    obtain ⟨item, -, hresult⟩ := forall_exists_of_mapM hfiles _ (reduceOption_mem_iff.mp hmem)
    exact (of_fileMember hresult).2.2.1
  have hlink : ∀ member ∈ links, member.isLink := by
    intro member hmem
    obtain ⟨link, hput, hresult⟩ := forall_exists_of_mapM hlinks _ hmem
    rw [(stands_of_linkMember hput hresult).isLink]
    exact (mem_hardLinks.mp hput).2
  have hfirst : files.reduceOption.Pairwise fun a b => compare a.path b.path = .lt := by
    refine List.Pairwise.filterMap id (R := fun a b : Option Member =>
      ∀ m ∈ a, ∀ n ∈ b, compare m.path n.path = .lt) ?_ ?_
    · intro a b hab m hm n hn
      exact hab m hm n hn
    · refine pairwise_of_mapM hfiles ExtTreeMap.ordered_keys_toList ?_
      rintro item item' result result' hlt hresult hresult' m rfl n rfl
      rw [(of_fileMember hresult).2.1, (of_fileMember hresult').2.1]
      exact hlt
  have hsecond : links.Pairwise fun a b => compare a.path b.path = .lt := by
    refine pairwise_of_mapM hlinks (hardLinks_ordered tree) ?_
    intro link link' m n hlt hm hn
    rw [path_of_linkMember hm, path_of_linkMember hn]
    exact hlt
  refine pairwise_append.mpr ⟨?_, ?_, ?_⟩
  · refine hfirst.imp_of_mem ?_
    intro a b ha hb hlt
    rw [Precedes, if_pos (by rw [hfile a ha, hfile b hb])]
    exact hlt
  · refine hsecond.imp_of_mem ?_
    intro a b ha hb hlt
    rw [Precedes, if_pos (by rw [hlink a ha, hlink b hb])]
    exact hlt
  · intro a ha b hb
    rw [Precedes, hfile a ha, hlink b hb, if_neg (by decide)]

end

/-- What precedes a member was emitted before it. -/
theorem mem_before_of_precedes {before after member earlier}
    (hordered : (before ++ member :: after).Pairwise Precedes)
    (hmem : earlier ∈ before ++ member :: after) (h : Precedes earlier member) :
    earlier ∈ before := by
  obtain ⟨-, hrest, -⟩ := pairwise_append.mp hordered
  rcases mem_append.mp hmem with hbefore | hfrom
  · exact hbefore
  · rcases mem_cons.mp hfrom with rfl | hafter
    · exact absurd h Precedes.not_self
    · exact absurd h ((pairwise_cons.mp hrest).1 earlier hafter).asymm

end

/-! ## Links that lead to a file -/

/-- Whether a path is a file that is no directory, or a link to one through links that
were emitted before: by what has been emitted, the latest first. -/
def resolvesToFile : List Member → Str → Bool
  | [], _ => false
  | member :: earlier, path =>
    if member.path = path then
      if member.isLink then
        match member.target with
        | some target => resolvesToFile earlier target
        | none => false
      else !member.isDir
    else resolvesToFile earlier path

/-- Every hard link points at something other than a directory, and at another hard link
only if that comes before it in path order. -/
def LinksBackward (tree : EntryTree) : Prop :=
  ∀ (path : Str) (source : Source) (target : Str) (entry : Entry),
    tree[path]? = some (.layer source) → source.isHardLink = true →
      normalise (source.linkName.getD []) = .ok target → tree[target]? = some entry →
        entry.isDir = false ∧ (entry.isHardLink = true → compare target path = .lt)

section

variable {builder : Builder} {flat : Flattened} {tree : EntryTree} {members : List Member}
  {space : Nat}

theorem resolvesToFile_cons_self {member earlier target}
    (hlink : member.isLink) (htarget : member.target = some target) :
    resolvesToFile (member :: earlier) member.path = resolvesToFile earlier target := by
  simp [resolvesToFile, hlink, htarget]

/-- What resolves is one of the members, and no directory. -/
theorem exists_mem_of_resolvesToFile {emitted path} (h : resolvesToFile emitted path) :
    ∃ member ∈ emitted, member.path = path ∧ (member.isLink = false → member.isDir = false) := by
  induction emitted with
  | nil => cases h
  | cons member earlier ih =>
    by_cases hpath : member.path = path
    · refine ⟨member, mem_cons_self, hpath, fun hlink => ?_⟩
      simpa [resolvesToFile, hpath, hlink] using h
    · rw [resolvesToFile, if_neg hpath] at h
      obtain ⟨found, hfound, hrest⟩ := ih h
      exact ⟨found, mem_cons_of_mem _ hfound, hrest⟩

section

variable (h : writeTar builder flat tree = .ok (members, space))
include h

/-- With links that point backwards, everything emitted but the directories resolves. The
induction is on what has been emitted: a link's target came before it. -/
theorem resolvesToFile_of_linksBackward (hback : LinksBackward tree) {emitted after}
    (hsplit : members = emitted.reverse ++ after) :
    ∀ member ∈ emitted, member.isDir = false → resolvesToFile emitted member.path := by
  induction emitted generalizing after with
  | nil => exact forall_mem_nil _
  | cons last earlier ih =>
    rw [reverse_cons, append_assoc, singleton_append] at hsplit
    have hordered := writeTar_ordered h
    rw [hsplit] at hordered
    have ih := ih hsplit
    intro member hmem hdir
    rcases mem_cons.mp hmem with rfl | hmem
    · obtain ⟨entry, hstands⟩ := exists_stands_of_mem h
        (by rw [hsplit]; exact mem_append_right _ mem_cons_self)
      cases hlink : member.isLink with
      | false => simp [resolvesToFile, hlink, hdir]
      | true =>
        obtain ⟨source, target, rfl, hnormal, htarget, hlisted⟩ := hstands.target hlink
        rw [resolvesToFile_cons_self hlink htarget]
        obtain ⟨found, hfound⟩ := Option.isSome_iff_exists.mp
          (ExtTreeMap.mem_iff_isSome_getElem?.mp hlisted)
        have hkind : source.isHardLink := hstands.isLink.symm.trans hlink
        obtain ⟨hnodir, hbefore⟩ :=
          hback member.path source target found hstands.listed hkind hnormal hfound
        obtain ⟨other, hother, rfl, hstands'⟩ := exists_member_of_entry h hfound
        have hprecedes : Precedes other member := by
          rw [Precedes, hlink, hstands'.isLink]
          split
          · rename_i hboth
            exact hbefore hboth
          · rfl
        rw [hsplit] at hother
        have hearlier := mem_before_of_precedes hordered hother hprecedes
        exact ih other (mem_reverse.mp hearlier) (by rw [hstands'.isDir, hnodir])
    · have hprecedes := (pairwise_append.mp hordered).2.2 member
        (mem_reverse.mpr hmem) last mem_cons_self
      obtain ⟨entry, hstands⟩ := exists_stands_of_mem h
        (by rw [hsplit]; exact mem_append_right _ mem_cons_self)
      obtain ⟨entry', hstands'⟩ := exists_stands_of_mem h
        (by rw [hsplit]; exact mem_append_left _ (mem_reverse.mpr hmem))
      rw [resolvesToFile, if_neg (hstands'.path_ne hstands hprecedes).symm]
      exact ih member hmem hdir

/-- A link that leads to a file in the tar points backwards. -/
theorem linksBackward_of_resolves
    (hresolves : ∀ before member after, members = before ++ member :: after →
      member.isLink → ∃ target, member.target = some target ∧
        resolvesToFile before.reverse target) : LinksBackward tree := by
  intro path source target entry hlisted hkind hnormal hentry
  obtain ⟨member, hmem, rfl, hstands⟩ := exists_member_of_entry h hlisted
  have hlink : member.isLink := hstands.isLink.trans hkind
  obtain ⟨before, after, hsplit⟩ := append_of_mem hmem
  obtain ⟨found, hfound, hfile⟩ := hresolves before member after hsplit hlink
  obtain ⟨source', target', heq, hnormal', htarget', -⟩ := hstands.target hlink
  cases heq
  cases hnormal.symm.trans hnormal'
  cases hfound.symm.trans htarget'
  obtain ⟨other, hother, hpath, hdir⟩ := exists_mem_of_resolvesToFile hfile
  rw [mem_reverse] at hother
  obtain ⟨entry', hstands'⟩ := exists_stands_of_mem h
    (by rw [hsplit]; exact mem_append_left _ hother)
  have hlisted' := hstands'.listed
  rw [hpath, hentry] at hlisted'
  cases hlisted'
  cases hlink' : other.isLink with
  | false =>
    refine ⟨by rw [← hstands'.isDir, hdir hlink'], fun hyes => ?_⟩
    rw [← hstands'.isLink, hlink'] at hyes
    cases hyes
  | true =>
    obtain ⟨linked, -, hsource, -⟩ := hstands'.target hlink'
    have hordered := writeTar_ordered h
    rw [hsplit] at hordered
    have hlt := (pairwise_append.mp hordered).2.2 other hother member mem_cons_self
    rw [Precedes, if_pos (by rw [hlink, hlink']), hpath] at hlt
    refine ⟨?_, fun _ => hlt⟩
    rw [← hstands'.isDir]
    simp only [Member.isLink, beq_iff_eq] at hlink'
    simp [Member.isDir, hlink']

omit h in
/-- A path sorts after the paths above it. -/
theorem Above.compare_lt {dir path} (h : Above dir path) : compare dir path = .lt := by
  have hprefix : dir <+: path := (prefix_append dir ['/']).trans h
  have hle := Lib.compare_ne_lt_of_prefix hprefix
  have hne : dir ≠ path := by
    rintro rfl
    have hlen := h.length_le
    rw [length_append, length_singleton] at hlen
    omega
  cases hcompare : compare dir path with
  | lt => rfl
  | eq => exact absurd (Std.LawfulEqCmp.compare_eq_iff_eq.mp hcompare) hne
  | gt => exact absurd (Std.OrientedCmp.gt_iff_lt.mp hcompare) hle

/-- A directory is emitted before what lies in it. -/
theorem dir_emitted_before {before after member} (hsplit : members = before ++ member :: after)
    {dir}
    (habove : Above dir member.path) (hdir : isDirAt tree dir) :
    ∃ above ∈ before, above.path = dir ∧ above.isDir := by
  obtain ⟨entry, hentry, hisDir⟩ := (Option.any_eq_true _ _).mp hdir
  obtain ⟨above, hmem, rfl, hstands⟩ := exists_member_of_entry h hentry
  have hordered := writeTar_ordered h
  rw [hsplit] at hordered hmem
  have hfile : above.isDir := hstands.isDir.trans hisDir
  have hlink : above.isLink = false := by
    simp only [Member.isDir, beq_iff_eq] at hfile
    simp [Member.isLink, hfile]
  refine ⟨above, mem_before_of_precedes hordered hmem ?_, rfl, hfile⟩
  rw [Precedes, hlink]
  split
  · exact habove.compare_lt
  · rename_i hother
    exact Bool.not_eq_false _ |>.mp (Ne.symm hother)

end

end

/-- In a tar that is written, everything comes after the directories it lies in. Every
hard link comes after its target, which is a file and no directory or leads to one
through earlier links, exactly when the hard links of the tree point backwards. -/
theorem writeTar_links_iff {builder : Builder} {flat : Flattened} {tree : EntryTree}
    {members : List Member} {space : Nat} (h : writeTar builder flat tree = .ok (members, space)) :
    (∀ before member after, members = before ++ member :: after →
      ∀ dir, Above dir member.path → isDirAt tree dir = true →
        ∃ above ∈ before, above.path = dir ∧ above.isDir = true) ∧
    ((∀ before member after, members = before ++ member :: after → member.isLink = true →
      ∃ target, member.target = some target ∧ (∃ earlier ∈ before, earlier.path = target) ∧
        resolvesToFile before.reverse target = true) ↔ LinksBackward tree) := by
  refine ⟨fun before member after hsplit dir => dir_emitted_before h hsplit, ?_, ?_⟩
  · intro hresolves
    refine linksBackward_of_resolves h fun before member after hsplit hlink => ?_
    obtain ⟨target, htarget, -, hfile⟩ := hresolves before member after hsplit hlink
    exact ⟨target, htarget, hfile⟩
  · intro hback before member after hsplit hlink
    have hdone : members = (member :: before.reverse).reverse ++ after := by
      rw [hsplit]
      simp
    have hemitted := resolvesToFile_of_linksBackward h hback hdone member mem_cons_self (by
      simp only [Member.isLink, beq_iff_eq] at hlink
      simp [Member.isDir, hlink])
    obtain ⟨entry, hstands⟩ := exists_stands_of_mem h
      (by rw [hsplit]; exact mem_append_right _ mem_cons_self)
    obtain ⟨source, target, -, -, htarget, -⟩ := hstands.target hlink
    rw [resolvesToFile_cons_self hlink htarget] at hemitted
    obtain ⟨earlier, hearlier, hpath, -⟩ := exists_mem_of_resolvesToFile hemitted
    exact ⟨target, htarget, ⟨earlier, mem_reverse.mp hearlier, hpath⟩, hemitted⟩

/-- An entry of a layer that is a hard link. -/
def linked (path target : String) : RawEntry :=
  { listed path .link with linkName := some (OsStr.ofStr target.toList) }

/-- One hard link points backwards. -/
def linkBackward (tree : EntryTree) (link : Str × Source) : Bool :=
  match normalise (link.2.linkName.getD []) with
  | .ok target => tree[target]?.all fun entry =>
    !entry.isDir && (!entry.isHardLink || compare target link.1 == .lt)
  | .error _ => true

theorem linksBackward_iff_all {tree} :
    LinksBackward tree ↔ (hardLinks tree).all (linkBackward tree) := by
  rw [all_eq_true]
  constructor
  · rintro h ⟨path, source⟩ hlink
    obtain ⟨hlisted, hkind⟩ := mem_hardLinks.mp hlink
    unfold linkBackward
    split
    · rename_i target htarget
      refine (Option.all_eq_true _ _).mpr fun entry hentry => ?_
      obtain ⟨hdir, hbefore⟩ := h path source target entry hlisted hkind htarget hentry
      cases hlink : entry.isHardLink with
      | false => simp [hdir]
      | true => simp [hdir, hbefore hlink]
    · rfl
  · intro h path source target entry hlisted hkind htarget hentry
    have hback := h (path, source) (mem_hardLinks.mpr ⟨hlisted, hkind⟩)
    rw [linkBackward, htarget] at hback
    have hentry := (Option.all_eq_true _ _).mp hback entry hentry
    simp only [Bool.and_eq_true, Bool.not_eq_true', Bool.or_eq_true, beq_iff_eq] at hentry
    refine ⟨hentry.1, fun hlink => ?_⟩
    rcases hentry.2 with hno | hlt
    · rw [hlink] at hno
      cases hno
    · exact hlt

instance (tree : EntryTree) : Decidable (LinksBackward tree) :=
  decidable_of_iff _ linksBackward_iff_all.symm

/-- A hard link `b` of the file `a`, and a hard link `c` of `b`. -/
theorem writeTar_links_to_file :
    ∃ flat members space,
      openLayers [⟨[], [listed "a" .regular, linked "b" "a", linked "c" "b"]⟩] = .ok flat ∧
      writeTar .sample flat (withGuestFiles flat []) = .ok (members, space) ∧
      ∀ before member after, members = before ++ member :: after → member.isLink = true →
        ∃ target, member.target = some target ∧ (∃ earlier ∈ before, earlier.path = target) ∧
          resolvesToFile before.reverse target = true := by
  obtain ⟨flat, hopen⟩ : ∃ flat,
      openLayers [⟨[], [listed "a" .regular, linked "b" "a", linked "c" "b"]⟩] = .ok flat :=
    ⟨_, rfl⟩
  obtain ⟨members, space, hwrite⟩ : ∃ members space,
      writeTar .sample flat (withGuestFiles flat []) = .ok (members, space) := by
    cases hopen
    exact ⟨_, _, rfl⟩
  have hback : LinksBackward (withGuestFiles flat []) := by
    cases hopen
    decide +kernel
  exact ⟨flat, members, space, hopen, hwrite, (writeTar_links_iff hwrite).2.mpr hback⟩

/-- The hard link `a` of `b` is emitted before `b`, itself a hard link of the file `c`. -/
theorem writeTar_emits_link_first :
    ∃ flat members space,
      openLayers [⟨[], [listed "c" .regular, linked "b" "c", linked "a" "b"]⟩] = .ok flat ∧
      writeTar .sample flat (withGuestFiles flat []) = .ok (members, space) ∧
      ∃ before member after, members = before ++ member :: after ∧ member.isLink = true ∧
        member.target = some "b".toList ∧ ∀ earlier ∈ before, earlier.path ≠ "b".toList :=
  ⟨_, _, _, rfl, rfl, [_, _, _, _, _, _, _, _], _, _, rfl, rfl, rfl, by decide +kernel⟩

end Cirrocumulus.Image
