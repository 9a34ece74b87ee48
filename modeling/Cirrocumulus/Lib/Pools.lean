/-
# Collections that parties share

Several parties put items into one collection, and each takes its own out again. As long as
no two of them have put in the same item, the collection is at any time what its parties
have in it, and a party may change its part without a look at the others.
-/

import Cirrocumulus.Lib.Maps

namespace Cirrocumulus.Lib

open Std (ExtTreeMap)

universe u v w x

variable {κ : Type u} {ν : Type v} [Ord κ] [Std.TransOrd κ] [Std.LawfulEqOrd κ] [DecidableEq κ]
  {α : Type w} {β : Type x} {map : ExtTreeMap κ ν compare} {gives : ν → α → β → Prop}
  {pool pool' : α → β → Prop} {key : κ} {value : ν}

/-- A collection is made up of what the entries of a map give to it, each item by one of
them. -/
structure Pooled (map : ExtTreeMap κ ν compare) (gives : ν → α → β → Prop)
    (pool : α → β → Prop) : Prop where
  mem : ∀ {a b}, pool a b ↔ ∃ (key : κ) (value : ν), map[key]? = some value ∧ gives value a b
  one : ∀ {key key' : κ} {value value' : ν} {a b c}, map[key]? = some value →
    map[key']? = some value' → gives value a b → gives value' a c → key = key'

variable (h : Pooled map gives pool)
include h

omit [Std.LawfulEqOrd κ] [DecidableEq κ] in
/-- What an entry gives for an item is all there is for it. -/
theorem Pooled.eq_of_gives {a b b' old}
    (hold : map[key]? = some old) (hgives : gives old a b') (hpool : pool a b) : gives old a b := by
  obtain ⟨other, found, hfound, hgiven⟩ := h.mem.mp hpool
  cases h.one hold hfound hgives hgiven
  cases hold.symm.trans hfound
  exact hgiven

omit [Std.LawfulEqOrd κ] [DecidableEq κ] in
/-- The collection is what one entry gives, and what it does not give. -/
theorem Pooled.mem_iff_gives_or {old}
    (hold : map[key]? = some old) (a : α) (b : β) :
    pool a b ↔ gives old a b ∨
      pool a b ∧ ∀ old b', map[key]? = some old → ¬gives old a b' := by
  constructor
  · intro hin
    by_cases hgiven : ∃ b', gives old a b'
    · obtain ⟨b', hgiven⟩ := hgiven
      exact .inl (h.eq_of_gives hold hgiven hin)
    · refine .inr ⟨hin, fun found b' hfound hgives => hgiven ⟨b', ?_⟩⟩
      cases hold.symm.trans hfound
      exact hgives
  · rintro (hgives | ⟨hin, -⟩)
    · exact h.mem.mpr ⟨key, old, hold, hgives⟩
    · exact hin

/-- An update of one entry takes what that gave out of the collection, and puts in what the
new one gives, which nobody else may. -/
theorem Pooled.insert (hpool : ∀ a b, pool' a b ↔ gives value a b ∨
      pool a b ∧ ∀ old b', map[key]? = some old → ¬gives old a b')
    (hfree : ∀ {a b b'}, gives value a b → pool a b' →
      ∃ old, map[key]? = some old ∧ gives old a b') :
    Pooled (map.insert key value) gives pool' := by
  have hother {other : κ} {found : ν} {a : α} {b : β}
      (hfound : (map.insert key value)[other]? = some found) (hgives : gives found a b) :
      other = key ∧ found = value ∨ other ≠ key ∧ map[other]? = some found ∧ pool a b := by
    by_cases heq : other = key
    · grind [lookup_insert]
    · rw [lookup_insert_of_ne _ heq] at hfound
      exact .inr ⟨heq, hfound, h.mem.mpr ⟨other, found, hfound, hgives⟩⟩
  constructor
  · intro a b
    rw [hpool]
    constructor
    · rintro (hnew | ⟨hold, hnot⟩)
      · exact ⟨key, value, by rw [lookup_insert, if_pos rfl], hnew⟩
      · obtain ⟨other, found, hfound, hgives⟩ := h.mem.mp hold
        refine ⟨other, found, ?_, hgives⟩
        rw [lookup_insert_of_ne]
        · exact hfound
        · rintro rfl
          exact hnot found b hfound hgives
    · rintro ⟨other, found, hfound, hgives⟩
      rcases hother hfound hgives with ⟨rfl, rfl⟩ | ⟨hne, hfound, hin⟩
      · exact .inl hgives
      · exact .inr ⟨hin, fun old b' hold hgiven => hne (h.one hfound hold hgives hgiven)⟩
  · intro first second found found' a b b' hfirst hsecond hgives hgives'
    rcases hother hfirst hgives with ⟨rfl, rfl⟩ | ⟨hne, hfound, hin⟩
    · rcases hother hsecond hgives' with ⟨rfl, rfl⟩ | ⟨hne, hfound, hin⟩
      · rfl
      · obtain ⟨old, hold, hgiven⟩ := hfree hgives hin
        exact h.one hold hfound hgiven hgives'
    · rcases hother hsecond hgives' with ⟨rfl, rfl⟩ | ⟨hne', hfound', hin'⟩
      · obtain ⟨old, hold, hgiven⟩ := hfree hgives' hin
        exact h.one hfound hold hgives hgiven
      · exact h.one hfound hfound' hgives hgives'

/-- An entry that gives what the one before gave leaves the collection. -/
theorem Pooled.update {old} (hold : map[key]? = some old)
    (hsame : ∀ a b, gives value a b ↔ gives old a b) :
    Pooled (map.insert key value) gives pool := by
  apply h.insert
  · intro a b
    rw [hsame]
    exact h.mem_iff_gives_or hold a b
  · intro a b b' hgives hin
    exact ⟨old, hold, h.eq_of_gives hold ((hsame a b).mp hgives) hin⟩

/-- An entry that gives nothing may go. -/
theorem Pooled.erase {old} (hold : map[key]? = some old)
    (hnone : ∀ a b, ¬gives old a b) : Pooled (map.erase key) gives pool where
  mem := by
    intro a b
    rw [h.mem]
    constructor
    · rintro ⟨other, found, hfound, hgives⟩
      refine ⟨other, found, ?_, hgives⟩
      rw [lookup_erase, if_neg]
      · exact hfound
      · rintro rfl
        cases hold.symm.trans hfound
        exact hnone a b hgives
    · rintro ⟨other, found, hfound, hgives⟩
      exact ⟨other, found, (of_lookup_erase hfound).2, hgives⟩
  one := fun hfirst hsecond => h.one (of_lookup_erase hfirst).2 (of_lookup_erase hsecond).2

end Cirrocumulus.Lib
