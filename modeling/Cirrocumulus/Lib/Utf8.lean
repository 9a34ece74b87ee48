/-
# The order of UTF-8

Strings that are sorted by their bytes are sorted by their chars: the encoding of a
char with a larger code is larger where the two first differ, and they differ before
either of them ends.
-/

import Mathlib.Data.List.Basic

namespace Cirrocumulus.Lib

/-- The UTF-8 bytes of a string. -/
def utf8 (s : List Char) : List UInt8 := s.flatMap String.utf8EncodeChar

theorem compare_bytes_eq_lt {a b} (ha : a < 256) (hb : b < 256) {s t} :
    compare (UInt8.ofNat a :: s) (UInt8.ofNat b :: t) = .lt ↔
      a < b ∨ a = b ∧ compare s t = .lt := by
  have hto {n} (hn : n < 256) : (UInt8.ofNat n).toNat = n := Nat.mod_eq_of_lt hn
  rw [List.compare_cons_cons, Ordering.then_eq_lt, Std.compare_eq_lt, Std.compare_eq_eq_iff_eq,
    UInt8.lt_iff_toNat_lt, ← UInt8.toNat_inj, hto ha, hto hb]

/-- A larger char has the larger encoding, whatever follows the two. -/
theorem compare_utf8EncodeChar {c d} (h : c < d) (s t : List UInt8) :
    compare (String.utf8EncodeChar c ++ s) (String.utf8EncodeChar d ++ t) = .lt := by
  have hcd : c.val.toNat < d.val.toNat := UInt32.lt_iff_toNat_lt.mp h
  have hd : d.val.toNat < 0x110000 := by
    have hvalid := d.valid
    unfold UInt32.isValidChar Nat.isValidChar at hvalid
    omega
  -- the digits of the two codes to the base 64, which omega compares one by one
  have hdigits (n : Nat) : n / 64 / 64 = n / 4096 ∧ n / 4096 / 64 = n / 262144 :=
    ⟨Nat.div_div_eq_div_mul n 64 64, Nat.div_div_eq_div_mul n 4096 64⟩
  have hle (k : Nat) : c.val.toNat / k ≤ d.val.toNat / k := Nat.div_le_div_right (Nat.le_of_lt hcd)
  have hfirst {n} (hn : n ≤ d.val.toNat) : n / 262144 % 8 = n / 262144 :=
    Nat.mod_eq_of_lt (by omega)
  have hc := hdigits c.val.toNat
  have hd := hdigits d.val.toNat
  have hle₁ := hle 64
  have hle₂ := hle 4096
  have hle₃ := hle 262144
  simp only [String.utf8EncodeChar, hfirst (Nat.le_of_lt hcd), hfirst (Nat.le_refl _)]
  split_ifs <;>
    simp (disch := omega) only [List.cons_append, List.nil_append, compare_bytes_eq_lt] <;> omega

/-- The order of the bytes is the order of the chars. -/
theorem compare_utf8 (s t : List Char) : compare (utf8 s) (utf8 t) = compare s t := by
  have hnil (c : Char) (s : List Char) : compare [] (utf8 (c :: s)) = .lt := by
    have hne : String.utf8EncodeChar c ≠ [] := by
      simp only [String.utf8EncodeChar]
      split_ifs <;> simp
    obtain ⟨b, bs, hb⟩ := List.exists_cons_of_ne_nil hne
    simp [utf8, hb]
  have hlt {c d} (s t : List Char) (h : compare c d = .lt) :
      compare (utf8 (c :: s)) (utf8 (d :: t)) = .lt :=
    compare_utf8EncodeChar (compareOfLessAndEq_eq_lt.mp h) (utf8 s) (utf8 t)
  induction s generalizing t with
  | nil =>
    cases t with
    | nil => rfl
    | cons d t => rw [List.compare_nil_cons]; exact hnil d t
  | cons c s ih =>
    cases t with
    | nil => rw [List.compare_cons_nil]; exact Std.OrientedCmp.gt_iff_lt.mpr (hnil c s)
    | cons d t =>
      rw [List.compare_cons_cons]
      cases hcd : compare c d with
      | lt => exact hlt s t hcd
      | gt => exact Std.OrientedCmp.gt_iff_lt.mpr (hlt t s (Std.OrientedCmp.gt_iff_lt.mp hcd))
      | eq =>
        cases Std.LawfulEqOrd.eq_of_compare hcd
        rw [Ordering.eq_then, ← ih]
        simp only [utf8, List.flatMap_cons]
        induction String.utf8EncodeChar c with
        | nil => rfl
        | cons b bs ihb => simpa using ihb

end Cirrocumulus.Lib
