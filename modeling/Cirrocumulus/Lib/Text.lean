/-
# Strings and fallible loops

A Rust `str` is modelled by its sequence of chars. Comparing two such sequences char
by char gives the order of their UTF-8 bytes, which is the order of sorted maps with
string keys. The functions here are those of the standard library that cut strings,
each with the equation that characterises it, followed by how a computation that can
fail is taken apart once it is known to have succeeded.
-/

import Mathlib.Algebra.Group.Nat.Defs
import Mathlib.Data.List.Forall2
import Mathlib.Data.List.Infix

namespace Cirrocumulus

open List Option

variable {α β ε : Type} {sep : Char} {n : Nat}

/-- A Rust `str`, as its chars. -/
abbrev Str := List Char

/-- A literal stands for its chars. -/
instance : Coe String Str := ⟨String.toList⟩

variable {s : Str}

/-- `str::split_once`. -/
def splitOnce (sep : Char) : Str → Option (Str × Str)
  | [] => none
  | c :: rest =>
    if c = sep then some ([], rest)
    else (splitOnce sep rest).map fun parts => (c :: parts.1, parts.2)

theorem splitOnce_append {before} (h : sep ∉ before) (rest : Str) :
    splitOnce sep (before ++ sep :: rest) = some (before, rest) := by
  induction before with
  | nil => simp [splitOnce]
  | cons c before ih =>
    rw [mem_cons, not_or] at h
    simp [splitOnce, ih h.2, Ne.symm h.1]

theorem splitOnce_eq_none (h : sep ∉ s) : splitOnce sep s = none := by
  induction s with
  | nil => rfl
  | cons c s ih =>
    rw [mem_cons, not_or] at h
    simp [splitOnce, ih h.2, Ne.symm h.1]

/-- What is before and behind the first separator. -/
theorem splitOnce_eq_some {before rest} :
    splitOnce sep s = some (before, rest) ↔ s = before ++ sep :: rest ∧ sep ∉ before := by
  constructor
  · intro h
    induction s generalizing before with
    | nil => cases h
    | cons c s ih =>
      rw [splitOnce] at h
      split at h
      · rename_i heq
        cases h
        simp [heq]
      · rename_i hne
        obtain ⟨parts, hparts, heq⟩ := map_eq_some_iff.mp h
        cases heq
        obtain ⟨rfl, hbefore⟩ := ih hparts
        exact ⟨rfl, by simp [Ne.symm hne, hbefore]⟩
  · rintro ⟨rfl, h⟩
    exact splitOnce_append h rest

/-- `str::rsplit_once`: what is before and behind the last `sep`. -/
def rsplitOnce (sep : Char) : Str → Option (Str × Str)
  | [] => none
  | c :: rest =>
    match rsplitOnce sep rest with
    | some (before, behind) => some (c :: before, behind)
    | none => if c = sep then some ([], rest) else none

theorem rsplitOnce_eq_none (h : sep ∉ s) : rsplitOnce sep s = none := by
  induction s with
  | nil => rfl
  | cons c s ih =>
    rw [mem_cons, not_or] at h
    simp [rsplitOnce, ih h.2, Ne.symm h.1]

theorem rsplitOnce_append (before : Str) {behind : Str} (h : sep ∉ behind) :
    rsplitOnce sep (before ++ sep :: behind) = some (before, behind) := by
  induction before with
  | nil => simp [rsplitOnce, rsplitOnce_eq_none h]
  | cons c before ih => simp [rsplitOnce, ih]

/-- `str::strip_prefix`. -/
def stripPrefix (pre : Str) (s : Str) : Option Str :=
  if pre.isPrefixOf s then some (s.drop pre.length) else none

theorem stripPrefix_eq_some {pre rest} : stripPrefix pre s = some rest ↔ s = pre ++ rest := by
  unfold stripPrefix
  constructor
  · intro h
    split at h
    · rename_i hpre
      obtain ⟨tail, rfl⟩ := isPrefixOf_iff_prefix.mp hpre
      simpa using h
    · cases h
  · rintro rfl
    simp

/-- `str::strip_suffix`. -/
def stripSuffix (suffix : Str) (s : Str) : Option Str :=
  if suffix.isSuffixOf s then some (s.take (s.length - suffix.length)) else none

theorem stripSuffix_append (s suffix : Str) : stripSuffix suffix (s ++ suffix) = some s := by
  simp [stripSuffix]

/-- `char::is_whitespace`. -/
def isWhitespace (c : Char) : Bool :=
  let n := c.toNat
  (9 ≤ n && n ≤ 13) || n == 0x20 || n == 0x85 || n == 0xA0 || n == 0x1680 ||
    (0x2000 ≤ n && n ≤ 0x200A) || n == 0x2028 || n == 0x2029 || n == 0x202F || n == 0x205F ||
    n == 0x3000

theorem not_isWhitespace_of_isDigit {c : Char} (h : c.isDigit) : isWhitespace c = false := by
  have hrange : 48 ≤ c.toNat ∧ c.toNat ≤ 57 := by
    simpa [Char.isDigit, UInt32.le_iff_toNat_le] using h
  simp only [isWhitespace, Bool.or_eq_false_iff, Bool.and_eq_false_iff, beq_eq_false_iff_ne,
    decide_eq_false_iff_not]
  omega

/-- `str::split_whitespace`. -/
def splitWhitespace (s : Str) : List Str := (s.splitOnP isWhitespace).filter (!·.isEmpty)

/-- Words with a space before each, and a newline behind the last. -/
theorem splitOnP_words {first words}
    (h : ∀ word ∈ first :: words, ∀ c ∈ word, isWhitespace c = false) :
    (first ++ (words.flatMap (' ' :: ·) ++ ['\n'])).splitOnP isWhitespace =
      first :: words ++ [[]] := by
  induction words generalizing first with
  | nil =>
    rw [forall_mem_singleton] at h
    exact splitOnP_append_cons_of_forall_mem h '\n' rfl []
  | cons word words ih =>
    obtain ⟨hfirst, hwords⟩ := forall_mem_cons.mp h
    rw [flatMap_cons, cons_append, cons_append, append_assoc,
      splitOnP_append_cons_of_forall_mem hfirst ' ' rfl, ih hwords]
    rfl

theorem splitWhitespace_words {words}
    (h : ∀ word ∈ words, word ≠ [] ∧ ∀ c ∈ word, isWhitespace c = false) :
    splitWhitespace (words.flatMap (' ' :: ·) ++ ['\n']) = words := by
  have hwords : ∀ word ∈ [] :: words, ∀ c ∈ word, isWhitespace c = false :=
    forall_mem_cons.mpr ⟨forall_mem_nil _, fun word hword => (h word hword).2⟩
  have hkept : words.filter (!·.isEmpty) = words :=
    filter_eq_self.mpr fun word hword => by simp [(h word hword).1]
  rw [splitWhitespace, ← nil_append (_ ++ _), splitOnP_words hwords, cons_append,
    filter_cons, filter_append, hkept]
  simp

/-! ## Numbers -/

/-- The digits of a number up to `max`, read from the left. -/
def parseDigits (max value : Nat) : Str → Except Str Nat
  | [] => .ok value
  | c :: rest =>
    if !c.isDigit then .error "invalid digit found in string"
    else
      let value := value * 10 + (c.toNat - '0'.toNat)
      if max < value then .error "number too large to fit in target type"
      else parseDigits max value rest

/-- `from_str` of an unsigned integer of so many bits, which takes a leading `+`. -/
def parseUnsigned (bits : Nat) : Str → Except Str Nat
  | [] => .error "cannot parse integer from empty string"
  | ['+'] => .error "invalid digit found in string"
  | '+' :: rest => parseDigits (2 ^ bits - 1) 0 rest
  | s => parseDigits (2 ^ bits - 1) 0 s

theorem isDigit_of_mem_repr {c} (h : c ∈ (Nat.repr n).toList) : c.isDigit := by
  rw [Nat.toList_repr] at h
  exact Nat.isDigit_of_mem_toDigits (by decide) (by decide) h

theorem le_ofDigitChars (s : Str) (value : Nat) : value ≤ Nat.ofDigitChars 10 s value := by
  induction s generalizing value with
  | nil => rw [Nat.ofDigitChars_nil]
  | cons c s ih =>
    rw [Nat.ofDigitChars_cons]
    exact le_trans (by omega) (ih _)

theorem parseDigits_eq_ok {max value} (h : value ≤ max) : parseDigits max value s = .ok n ↔
    (∀ c ∈ s, c.isDigit) ∧ n = Nat.ofDigitChars 10 s value ∧ n ≤ max := by
  induction s generalizing value with
  | nil =>
    rw [parseDigits, Except.ok.injEq, Nat.ofDigitChars_nil]
    exact ⟨fun heq => ⟨forall_mem_nil _, heq.symm, heq ▸ h⟩, fun heq => heq.2.1.symm⟩
  | cons c s ih =>
    rw [parseDigits, forall_mem_cons, Nat.ofDigitChars_cons, Nat.mul_comm 10]
    cases hdigit : c.isDigit with
    | false => simp
    | true =>
      simp only [Bool.not_true, Bool.false_eq_true, if_false, true_and]
      split
      · rename_i hlarge
        -- the number only grows from here
        have hgrows := le_ofDigitChars s (value * 10 + (c.toNat - '0'.toNat))
        simp only [reduceCtorEq, false_iff]
        omega
      · rename_i hsmall
        exact ih (Nat.le_of_not_lt hsmall)

/-- What is read as a number: digits, with or without a sign. -/
theorem parseUnsigned_eq_ok {bits} : parseUnsigned bits s = .ok n ↔
    ∃ digits, (s = digits ∨ s = '+' :: digits) ∧ digits ≠ [] ∧ (∀ c ∈ digits, c.isDigit) ∧
      n = Nat.ofDigitChars 10 digits 0 ∧ n < 2 ^ bits := by
  have hmax (s : Str) : parseDigits (2 ^ bits - 1) 0 s = .ok n ↔
      (∀ c ∈ s, c.isDigit) ∧ n = Nat.ofDigitChars 10 s 0 ∧ n < 2 ^ bits := by
    rw [parseDigits_eq_ok (Nat.zero_le _), Nat.le_sub_one_iff_lt (Nat.two_pow_pos bits)]
  unfold parseUnsigned
  split
  · simp
  · simp
  · rename_i hne
    have hne : _ ≠ [] := hne
    simp [hmax, hne]
  · rename_i hne _ hunsigned
    have hne : s ≠ [] := hne
    have hunsigned : ∀ rest, s ≠ '+' :: rest := hunsigned
    simp [hmax, hne, hunsigned]

/-- A number reads back as it is written. -/
theorem parseUnsigned_repr {bits} (h : n < 2 ^ bits) :
    parseUnsigned bits (Nat.repr n).toList = .ok n := by
  refine parseUnsigned_eq_ok.mpr ⟨_, .inl rfl, ?_, fun _ => isDigit_of_mem_repr, ?_, h⟩
  · simp [Nat.toList_repr, Nat.toDigits_ne_nil]
  · rw [Nat.toList_repr, Nat.ofDigitChars_ten_toDigits]

theorem lt_of_parseUnsigned {bits} (h : parseUnsigned bits s = .ok n) : n < 2 ^ bits := by
  obtain ⟨-, -, -, -, -, hlt⟩ := parseUnsigned_eq_ok.mp h
  exact hlt

theorem not_mem_of_mem_splitOn {α : Type*} [DecidableEq α] {sep : α} {list part : List α}
    (h : part ∈ list.splitOn sep) : sep ∉ part := by
  induction list generalizing part with
  | nil => simp_all
  | cons a list ih =>
    rw [splitOn_cons_eq_if_modifyHead] at h
    split at h
    · rcases mem_cons.mp h with rfl | h
      · simp
      · exact ih h
    · rename_i hne
      obtain ⟨head, tail, hsplit⟩ := exists_cons_of_ne_nil (splitOn_ne_nil sep list)
      rw [hsplit, modifyHead_cons] at h
      have hne' : sep ≠ a := fun heq => hne (by simp [heq])
      have hhead : sep ∉ head := ih (by simp [hsplit])
      rcases mem_cons.mp h with rfl | h
      · simp [hne', hhead]
      · exact ih (by simp [hsplit, h])

/-! ## Computations that succeeded -/

theorem except_map_eq_ok {ε α β : Type*} {f : α → β} {x : Except ε α} {result : β} :
    x.map f = .ok result ↔ ∃ a, x = .ok a ∧ f a = result := by
  cases x <;> simp [Except.map]

theorem except_bind_eq_ok {x : Except ε α} {f : α → Except ε β} {result : β} :
    (x >>= f) = .ok result ↔ ∃ a, x = .ok a ∧ f a = .ok result := by
  cases x <;> simp [bind, Except.bind]

theorem except_bind_eq_error {x : Except ε α} {f : α → Except ε β} {error : ε} :
    (x >>= f) = .error error ↔ x = .error error ∨ ∃ a, x = .ok a ∧ f a = .error error := by
  cases x <;> simp [bind, Except.bind]

theorem except_mapError_eq_ok {ε ε' α : Type*} {f : ε → ε'} {x : Except ε α} {a : α} :
    x.mapError f = .ok a ↔ x = .ok a := by
  cases x <;> simp [Except.mapError]

variable {f : α → Except ε β} {list : List α} {result : List β}

/-- A loop that succeeds gives each of its inputs a result, in their order. -/
theorem mapM_eq_ok_iff :
    list.mapM f = .ok result ↔ List.Forall₂ (fun a b => f a = .ok b) list result := by
  induction list generalizing result with
  | nil => cases result <;> simp [pure, Except.pure]
  | cons a list ih =>
    simp only [mapM_cons, except_bind_eq_ok, ih]
    constructor
    · rintro ⟨b, hb, rest, hrest, h⟩
      cases h
      exact .cons hb hrest
    · rintro (_ | ⟨hb, hrest⟩)
      exact ⟨_, hb, _, hrest, rfl⟩

theorem exists_mem_of_forall₂ {R : α → β → Prop}
    (h : List.Forall₂ R list result) : ∀ a ∈ list, ∃ b ∈ result, R a b := by
  induction h with
  | nil => simp
  | cons hb _ ih =>
    refine forall_mem_cons.mpr ⟨⟨_, mem_cons_self, hb⟩, fun a ha => ?_⟩
    obtain ⟨b, hmem, hb⟩ := ih a ha
    exact ⟨b, mem_cons_of_mem _ hmem, hb⟩

/-- Every result of a loop comes from one of its inputs. -/
theorem forall_exists_of_mapM (h : list.mapM f = .ok result) :
    ∀ b ∈ result, ∃ a ∈ list, f a = .ok b :=
  exists_mem_of_forall₂ (mapM_eq_ok_iff.mp h).flip

/-- Every input of a loop has its result. -/
theorem exists_mem_of_mapM (h : list.mapM f = .ok result) : ∀ a ∈ list, ∃ b ∈ result, f a = .ok b :=
  exists_mem_of_forall₂ (mapM_eq_ok_iff.mp h)

/-- The results of a loop are ordered as its inputs are. -/
theorem pairwise_of_mapM {R : α → α → Prop} {S : β → β → Prop} (h : list.mapM f = .ok result)
    (hlist : list.Pairwise R)
    (himp : ∀ {a a' b b'}, R a a' → f a = .ok b → f a' = .ok b' → S b b') : result.Pairwise S := by
  induction mapM_eq_ok_iff.mp h with
  | nil => exact List.Pairwise.nil
  | cons hb hrest ih =>
    obtain ⟨hfirst, hlist⟩ := pairwise_cons.mp hlist
    refine pairwise_cons.mpr ⟨fun other hother => ?_, ih (mapM_eq_ok_iff.mpr hrest) hlist⟩
    obtain ⟨found, hfound, hf⟩ := exists_mem_of_forall₂ hrest.flip other hother
    exact himp (hfirst found hfound) hb hf

theorem mapM_isOk_iff : (∃ result, list.mapM f = .ok result) ↔ ∀ a ∈ list, ∃ b, f a = .ok b := by
  induction list with
  | nil => simp [pure, Except.pure]
  | cons a list ih =>
    simp only [mapM_cons, except_bind_eq_ok, forall_mem_cons, ← ih]
    constructor
    · rintro ⟨-, b, hb, rest, hrest, -⟩
      exact ⟨⟨b, hb⟩, rest, hrest⟩
    · rintro ⟨⟨b, hb⟩, rest, hrest⟩
      exact ⟨b :: rest, b, hb, rest, hrest, rfl⟩

end Cirrocumulus
