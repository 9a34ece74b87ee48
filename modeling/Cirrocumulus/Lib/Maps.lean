/-
# Sorted maps

A sorted map with lawful keys is determined by its lookups. The lemmas here state
each update by its lookup, with the condition as an equation between keys, and each
search through the entries in key order by the lookups it can answer with.
-/

import Mathlib.Data.List.Basic
import Std.Data.ExtTreeMap

namespace Cirrocumulus.Lib

open List
open Std (ExtTreeMap)

universe u v

variable {κ : Type u} {ν : Type v} [Ord κ] [Std.TransOrd κ] [Std.LawfulEqOrd κ] [DecidableEq κ]

theorem lookup_insert (map : ExtTreeMap κ ν compare) (key : κ) (value : ν) (other : κ) :
    (map.insert key value)[other]? = if other = key then some value else map[other]? := by
  rw [ExtTreeMap.getElem?_insert]
  by_cases heq : key = other
  · simp [heq]
  · have : ¬ other = key := fun h => heq h.symm
    simp [heq, this]
variable {map : ExtTreeMap κ ν compare} {key other : κ} {value found : ν}


theorem lookup_insert_of_ne (value : ν)
    (hne : other ≠ key) : (map.insert key value)[other]? = map[other]? := by
  rw [lookup_insert, if_neg hne]

/-- An entry of an updated map is the new one, or was there under another key. -/
theorem of_lookup_insert (h : (map.insert key value)[other]? = some found) :
    other = key ∧ value = found ∨ other ≠ key ∧ map[other]? = some found := by
  rw [lookup_insert] at h
  split at h
  · rename_i heq
    exact .inl ⟨heq, Option.some.inj h⟩
  · rename_i hne
    exact .inr ⟨hne, h⟩

/-- What holds of every entry holds after an update, if it holds of the new entry. -/
@[elab_as_elim]
theorem forall_insert {motive : κ → ν → Prop} (hnew : motive key value)
    (hold : ∀ {other found}, map[other]? = some found → motive other found)
    (hfound : (map.insert key value)[other]? = some found) : motive other found := by
  rcases of_lookup_insert hfound with ⟨rfl, rfl⟩ | ⟨-, hfound⟩
  · exact hnew
  · exact hold hfound

/-- A key that has an entry has one after an update. -/
theorem exists_insert (h : ∃ found, map[other]? = some found) :
    ∃ found, (map.insert key value)[other]? = some found := by
  rw [lookup_insert]
  split
  · exact ⟨value, rfl⟩
  · exact h

/-- So does one with a property that the update keeps. -/
theorem exists_insert_and {P : ν → Prop} (h : ∃ found, map[other]? = some found ∧ P found)
    (hnew : ∀ {found}, map[key]? = some found → P found → P value) :
    ∃ found, (map.insert key value)[other]? = some found ∧ P found := by
  obtain ⟨found, hfound, hkept⟩ := h
  by_cases heq : other = key
  · rw [heq] at hfound
    exact ⟨value, by rw [lookup_insert, if_pos heq], hnew hfound hkept⟩
  · exact ⟨found, (lookup_insert_of_ne value heq).trans hfound, hkept⟩

/-- What relates no two entries relates none after an update, if it does not relate the new
entry to another. -/
theorem unique_insert {R : ν → ν → Prop}
    (hold : ∀ {first second : κ} {found found' : ν}, map[first]? = some found →
      map[second]? = some found' → R found found' → first = second)
    (hnew : ∀ {other found}, other ≠ key → map[other]? = some found →
      ¬ R value found ∧ ¬ R found value)
    {first second : κ} {found' : ν} (hfirst : (map.insert key value)[first]? = some found)
    (hsecond : (map.insert key value)[second]? = some found') (h : R found found') :
    first = second := by
  rcases of_lookup_insert hfirst with ⟨rfl, rfl⟩ | ⟨hne, hother⟩
  · rcases of_lookup_insert hsecond with ⟨rfl, -⟩ | ⟨hne, hother⟩
    · rfl
    · exact absurd h (hnew hne hother).1
  · rcases of_lookup_insert hsecond with ⟨rfl, rfl⟩ | ⟨-, hother'⟩
    · exact absurd h (hnew hne hother).2
    · exact hold hother hother' h

omit [Ord κ] [Std.TransOrd κ] [Std.LawfulEqOrd κ] in
/-- A value of an updated function is the new one, or was there under another key. -/
theorem of_update {f : κ → Option ν} {value : Option ν}
    (h : Function.update f key value other = some found) :
    other = key ∧ value = some found ∨ other ≠ key ∧ f other = some found := by
  rw [Function.update_apply] at h
  split at h
  · rename_i heq
    exact .inl ⟨heq, h⟩
  · rename_i hne
    exact .inr ⟨hne, h⟩

theorem lookup_erase (map : ExtTreeMap κ ν compare) (key other : κ) :
    (map.erase key)[other]? = if other = key then none else map[other]? := by
  rw [ExtTreeMap.getElem?_erase]
  by_cases heq : key = other
  · simp [heq]
  · have : ¬ other = key := fun h => heq h.symm
    simp [heq, this]

theorem lookup_erase_of_ne (hne : other ≠ key) : (map.erase key)[other]? = map[other]? := by
  rw [lookup_erase, if_neg hne]

theorem lookup_foldl_erase (keys : List κ) (map : ExtTreeMap κ ν compare) (key : κ) :
    (keys.foldl ExtTreeMap.erase map)[key]? = if key ∈ keys then none else map[key]? := by
  induction keys generalizing map with
  | nil => simp
  | cons first keys ih =>
    rw [foldl_cons, ih, lookup_erase]
    by_cases heq : key = first <;> simp [heq]

/-- An entry that is left after a removal was there, under another key. -/
theorem of_lookup_erase (h : (map.erase key)[other]? = some found) :
    other ≠ key ∧ map[other]? = some found := by
  rw [lookup_erase] at h
  split at h
  · cases h
  · rename_i hne
    exact ⟨hne, h⟩

omit [Std.LawfulEqOrd κ] [DecidableEq κ] in
theorem mem_iff_lookup : key ∈ map ↔ ∃ value, map[key]? = some value := by
  rw [ExtTreeMap.mem_iff_isSome_getElem?, Option.isSome_iff_exists]

omit [DecidableEq κ] in
/-- The entries in key order are those that lookups find. -/
theorem mem_items {item : κ × ν} : item ∈ map.toList ↔ map[item.1]? = some item.2 :=
  ExtTreeMap.mem_toList_iff_getElem?_eq_some

omit [DecidableEq κ] in
/-- An entry found in key order is an entry of the map. -/
theorem lookup_of_find? {test : κ × ν → Bool} {item : κ × ν}
    (h : map.toList.find? test = some item) : map[item.1]? = some item.2 ∧ test item :=
  ⟨mem_items.mp (mem_of_find?_eq_some h), find?_some h⟩

omit [DecidableEq κ] in
/-- A search in key order that finds nothing saw every entry. -/
theorem test_of_find?_eq_none {test : κ × ν → Bool}
    (h : map.toList.find? test = none) (hget : map[key]? = some value) :
    test (key, value) = false := by
  have hnot := find?_eq_none.mp h (key, value) (mem_items.mpr hget)
  simpa using hnot

/-- A map made of entries with different keys has just these. -/
theorem lookup_ofList {list : List (κ × ν)} (h : (list.map Prod.fst).Nodup) {key value} :
    (ExtTreeMap.ofList list compare)[key]? = some value ↔ (key, value) ∈ list := by
  have hdistinct : list.Pairwise fun a b => ¬ compare a.1 b.1 = .eq := by
    refine (pairwise_map.mp h).imp fun hne heq => hne ?_
    exact Std.LawfulEqCmp.eq_of_compare heq
  have hof {value} (hmem : (key, value) ∈ list) :
      (ExtTreeMap.ofList list compare)[key]? = some value :=
    ExtTreeMap.getElem?_ofList_of_mem Std.ReflCmp.compare_self hdistinct hmem
  refine ⟨fun hget => ?_, hof⟩
  by_cases hkey : key ∈ list.map Prod.fst
  · obtain ⟨⟨key', value'⟩, hmem, rfl⟩ := mem_map.mp hkey
    cases (hof hmem).symm.trans hget
    exact hmem
  · have hnone : (ExtTreeMap.ofList list compare)[key]? = none :=
      ExtTreeMap.getElem?_ofList_of_contains_eq_false (by simpa using hkey)
    cases hnone.symm.trans hget

end Cirrocumulus.Lib
