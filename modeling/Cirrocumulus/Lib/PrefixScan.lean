/-
# Scanning a sorted list for a common prefix

In the lexicographic order, the lists that start with a given prefix are one
contiguous run, and that run begins at the prefix itself: nothing smaller than
the prefix starts with it, and once a list at or above the prefix fails to start
with it, no later list does. Skipping what is below the prefix and then taking
while the prefix matches therefore finds every match, although lists that only
share part of the prefix sort on both sides of the run.
-/

import Mathlib.Data.List.Basic

namespace Cirrocumulus.Lib

open List

universe u v

variable {α : Type u} [Ord α]

section Order

variable [Std.LawfulEqOrd α]

/-- A list that starts with the prefix is not below it. -/
theorem compare_ne_lt_of_prefix {pre list : List α} (h : pre <+: list) :
    compare list pre ≠ .lt := by
  induction pre generalizing list with
  | nil => cases list <;> simp
  | cons a pre ih =>
    obtain ⟨rest, rfl⟩ := h
    rw [cons_append, List.compare_cons_cons]
    simpa using ih (prefix_append pre rest)

/-- Behind a list at or above the prefix that does not start with it, no list
starts with it. -/
theorem not_prefix_of_compare_lt {pre list later : List α} (hge : compare list pre ≠ .lt)
    (hno : ¬ pre <+: list) (hlt : compare list later = .lt) : ¬ pre <+: later := by
  induction pre generalizing list later with
  | nil => exact absurd nil_prefix hno
  | cons a pre ih =>
    rintro ⟨rest, rfl⟩
    cases list with
    | nil => exact hge (by simp)
    | cons b list =>
      rw [List.compare_cons_cons] at hge
      rw [cons_append, List.compare_cons_cons] at hlt
      cases hba : compare b a with
      | lt => simp [hba] at hge
      | gt => simp [hba] at hlt
      | eq =>
        have hb : b = a := Std.LawfulEqOrd.eq_of_compare hba
        subst hb
        simp only [hba, Ordering.eq_then] at hge hlt
        have hno' : ¬ pre <+: list := fun h =>
          hno (cons_prefix_cons.mpr ⟨rfl, h⟩)
        exact ih hge hno' hlt (prefix_append pre rest)

variable {β : Type v} [DecidableEq α]

/-- At or above the prefix, the matches of a sorted list are its first items. -/
theorem takeWhile_prefix_eq_filter (pre : List α) (items : List (List α × β))
    (hsorted : items.Pairwise fun a b => compare a.1 b.1 = .lt)
    (hge : ∀ item ∈ items, compare item.1 pre ≠ .lt) :
    (items.takeWhile fun item => pre.isPrefixOf item.1) =
      items.filter fun item => pre.isPrefixOf item.1 := by
  induction items with
  | nil => rfl
  | cons item items ih =>
    obtain ⟨hbelow, hrest⟩ := pairwise_cons.mp hsorted
    by_cases h : pre.isPrefixOf item.1
    · rw [takeWhile_cons, if_pos h, filter_cons, if_pos h,
        ih hrest fun later hlater => hge later (mem_cons_of_mem _ hlater)]
    · rw [takeWhile_cons, if_neg h]
      symm
      rw [filter_eq_nil_iff]
      have hno : ¬ pre <+: item.1 := fun hpre => h <| isPrefixOf_iff_prefix.mpr hpre
      intro later hlater
      rcases mem_cons.mp hlater with rfl | hlater
      · exact h
      · intro hpre
        exact not_prefix_of_compare_lt (hge item mem_cons_self) hno
          (hbelow later hlater) ( isPrefixOf_iff_prefix.mp hpre)

/-- The scan of a sorted list from the prefix on, stopped at the first list that
does not match, is the filter of the whole list. -/
theorem scan_eq_filter [Std.TransOrd α] (pre : List α) (items : List (List α × β))
    (hsorted : items.Pairwise fun a b => compare a.1 b.1 = .lt) :
    ((items.dropWhile fun item => compare item.1 pre == .lt).takeWhile
        fun item => pre.isPrefixOf item.1) =
      items.filter fun item => pre.isPrefixOf item.1 := by
  induction items with
  | nil => rfl
  | cons item items ih =>
    obtain ⟨hbelow, hrest⟩ := pairwise_cons.mp hsorted
    by_cases hlt : compare item.1 pre = .lt
    · have hno : ¬ pre.isPrefixOf item.1 := fun h =>
        compare_ne_lt_of_prefix ( isPrefixOf_iff_prefix.mp h) hlt
      rw [dropWhile_cons_of_pos (by simp [hlt]), ih hrest, filter_cons, if_neg hno]
    · rw [dropWhile_cons_of_neg (by simp [hlt])]
      refine takeWhile_prefix_eq_filter pre _ hsorted ?_
      intro later hlater
      rcases mem_cons.mp hlater with rfl | hlater
      · exact hlt
      · exact fun hlt' => hlt (Std.TransCmp.lt_trans (hbelow later hlater) hlt')

end Order

end Cirrocumulus.Lib
