/-
# Where a Machine is

A Machine is reached over SSH at a target `user@host[:port]`. Its parts become arguments
of `ssh`, so the parser admits only the characters that user and host names use.
-/

import Cirrocumulus.Node.Registry

namespace Cirrocumulus.Ssh

open Node (ApiError badRequest quoted)

/-- Where a Machine's `sshd` is, and who to log in as. -/
structure Target where
  user : Str
  host : Str
  port : Nat
  deriving DecidableEq

namespace Target

/-- A part that can stand as an argument of `ssh`. -/
def word (s extra : Str) : Bool :=
  !s.isEmpty && s.head? != some '-' &&
    s.all fun c => c.isAlphanum || "-.".toList.contains c || extra.contains c

def invalid (ssh : Str) : ApiError :=
  badRequest ("invalid SSH target " ++ quoted ssh ++
    ": expected user@host or user@host:port")

/-- `Target::parse`. -/
def parse (ssh : Str) : Except ApiError Target := do
  let some (user, rest) := splitOnce '@' ssh | throw (invalid ssh)
  let (host, port) ← match splitOnce ':' rest with
    | some (host, port) =>
      match parseUnsigned 16 port with
      | .ok port => pure (host, port)
      | .error _ => throw (invalid ssh)
    | none => pure (rest, 22)
  if !word user ['_'] || !word host [] || port == 0 then throw (invalid ssh)
  return ⟨user, host, port⟩

/-- How a target is written, and recorded. -/
def display (target : Target) : Str :=
  target.user ++ '@' :: target.host ++
    if target.port = 22 then [] else ':' :: (Nat.repr target.port).toList

end Target

/-! ## What is accepted -/

namespace Target

variable {ssh : Str} {target : Target}

theorem not_mem_of_word {s extra c} (h : word s extra)
    (hc : (c.isAlphanum || "-.".toList.contains c || extra.contains c) = false) : c ∉ s := by
  intro hmem
  have hall := (Bool.and_eq_true_iff.mp h).2
  cases hc.symm.trans (List.all_eq_true.mp hall c hmem)

/-- A string is accepted as the target that its parts make. -/
theorem parse_eq_ok : parse ssh = .ok target ↔
    (word target.user ['_'] ∧ word target.host [] ∧ target.port ≠ 0) ∧
      (ssh = target.user ++ '@' :: target.host ∧ target.port = 22 ∨
        ∃ port, ssh = target.user ++ '@' :: (target.host ++ ':' :: port) ∧
          parseUnsigned 16 port = .ok target.port) := by
  have hchecked (user host : Str) (port : Nat) :
      (if !word user ['_'] || !word host [] || port == 0 then .error (invalid ssh)
        else .ok ⟨user, host, port⟩ : Except ApiError Target) = .ok target ↔
      (word user ['_'] ∧ word host [] ∧ port ≠ 0) ∧ target = ⟨user, host, port⟩ := by
    split
    · rename_i hbad
      constructor
      · intro h
        cases h
      · rintro ⟨⟨huser, hhost, hport⟩, -⟩
        simp [huser, hhost, hport] at hbad
    · rename_i hgood
      simp only [Bool.or_eq_true, Bool.not_eq_true', beq_iff_eq, not_or, Bool.not_eq_false] at hgood
      refine ⟨fun h => ?_, fun h => by rw [h.2]⟩
      cases h
      exact ⟨⟨hgood.1.1, hgood.1.2, hgood.2⟩, rfl⟩
  constructor
  · intro h
    unfold parse at h
    split at h
    · rename_i user rest hat
      obtain ⟨rfl, -⟩ := splitOnce_eq_some.mp hat
      split at h
      · rename_i host digits hcolon
        obtain ⟨rfl, -⟩ := splitOnce_eq_some.mp hcolon
        split at h
        · rename_i port hport
          obtain ⟨hwords, rfl⟩ := (hchecked user host port).mp h
          exact ⟨hwords, .inr ⟨digits, rfl, hport⟩⟩
        · cases h
      · obtain ⟨hwords, rfl⟩ := (hchecked user rest 22).mp h
        exact ⟨hwords, .inl ⟨rfl, rfl⟩⟩
    · cases h
  · rintro ⟨hwords, hssh⟩
    have huser : '@' ∉ target.user := not_mem_of_word hwords.1 rfl
    have hhost : ':' ∉ target.host := not_mem_of_word hwords.2.1 rfl
    unfold parse
    rcases hssh with ⟨hssh, hport⟩ | ⟨port, hssh, hport⟩
    · rw [hssh, splitOnce_append huser]
      simp only [splitOnce_eq_none hhost]
      rw [← hssh]
      exact (hchecked _ _ _).mpr ⟨hport ▸ hwords, by rw [← hport]⟩
    · rw [hssh, splitOnce_append huser]
      simp only [splitOnce_append hhost, hport]
      rw [← hssh]
      exact (hchecked _ _ _).mpr ⟨hwords, rfl⟩

/-- The parts of a target that was parsed. -/
structure Valid (target : Target) : Prop where
  user : word target.user ['_']
  host : word target.host []
  port : target.port ≠ 0 ∧ target.port < 2 ^ 16

theorem valid_of_parse (h : parse ssh = .ok target) : target.Valid := by
  obtain ⟨⟨huser, hhost, hport⟩, hssh⟩ := parse_eq_ok.mp h
  refine ⟨huser, hhost, hport, ?_⟩
  rcases hssh with ⟨-, hdefault⟩ | ⟨digits, -, hdigits⟩
  · rw [hdefault]
    decide
  · exact lt_of_parseUnsigned hdigits

/-- A target that is valid is what it is written as. -/
theorem Valid.parse_display (h : target.Valid) : parse target.display = .ok target := by
  rw [parse_eq_ok, display]
  refine ⟨⟨h.user, h.host, h.port.1⟩, ?_⟩
  by_cases hport : target.port = 22
  · left
    simp [hport]
  · right
    exact ⟨_, by simp [hport], parseUnsigned_repr h.port.2⟩

/-- A user or a host: letters, digits, `-`, `.` and what else is allowed, not with `-` first. -/
structure Plain (s : Str) (extra : List Char) : Prop where
  nonempty : s ≠ []
  first : s.head? ≠ some '-'
  chars : ∀ c ∈ s, c.isAlphanum ∨ c = '-' ∨ c = '.' ∨ c ∈ extra

theorem word_iff {s extra} : word s extra ↔ Plain s extra := by
  simp only [word, Bool.and_eq_true, Bool.not_eq_true', List.isEmpty_eq_false_iff, bne_iff_ne,
    List.all_eq_true, Bool.or_eq_true, List.contains_eq_mem, decide_eq_true_eq]
  constructor
  · rintro ⟨⟨hnonempty, hfirst⟩, hchars⟩
    exact ⟨hnonempty, hfirst, fun c hc => by simpa [or_assoc] using hchars c hc⟩
  · intro h
    exact ⟨⟨h.nonempty, h.first⟩, fun c hc => by simpa [or_assoc] using h.chars c hc⟩

/-- A port in decimal digits only. -/
structure Decimal (port : Str) : Prop where
  nonempty : port ≠ []
  digits : ∀ c ∈ port, c.isDigit
  range : 1 ≤ Nat.ofDigitChars 10 port 0 ∧ Nat.ofDigitChars 10 port 0 ≤ 65535

/-- The string is `user@host` or `user@host:port`. -/
def Written (ssh : Str) : Prop :=
  ∃ user host, Plain user ['_'] ∧ Plain host [] ∧
    (ssh = user ++ '@' :: host ∨
      ∃ port, ssh = user ++ '@' :: (host ++ ':' :: port) ∧ Decimal port)

theorem Plain.plus {s extra} (h : Plain s extra) (hextra : '+' ∉ extra) : '+' ∉ s := by
  intro hmem
  rcases h.chars '+' hmem with hplus | hplus | hplus | hplus
  · cases hplus
  · cases hplus
  · cases hplus
  · exact hextra hplus

/-- The string is `user@host:+port`. -/
def Signed (ssh : Str) : Prop :=
  ∃ user host port, Plain user ['_'] ∧ Plain host [] ∧
    ssh = user ++ '@' :: (host ++ ':' :: '+' :: port) ∧ Decimal port

theorem Written.plus (h : Written ssh) : '+' ∉ ssh := by
  obtain ⟨user, host, huser, hhost, hssh⟩ := h
  have huser := huser.plus (by decide)
  have hhost := hhost.plus (by decide)
  rcases hssh with rfl | ⟨port, rfl, hport⟩
  · simp [huser, hhost]
  · have hport : '+' ∉ port := fun hmem => by cases hport.digits '+' hmem
    simp [huser, hhost, hport]

/-- A port is read if it is decimal, with or without a sign. -/
theorem parseUnsigned_iff_decimal {port n} : parseUnsigned 16 port = .ok n ∧ n ≠ 0 ↔
    ∃ digits, (port = digits ∨ port = '+' :: digits) ∧ Decimal digits ∧
      n = Nat.ofDigitChars 10 digits 0 := by
  rw [parseUnsigned_eq_ok]
  constructor
  · rintro ⟨⟨digits, hport, hne, hall, rfl, hlt⟩, hzero⟩
    exact ⟨digits, hport, ⟨hne, hall, Nat.one_le_iff_ne_zero.mpr hzero, Nat.le_of_lt_succ hlt⟩, rfl⟩
  · rintro ⟨digits, hport, hdecimal, rfl⟩
    exact ⟨⟨digits, hport, hdecimal.nonempty, hdecimal.digits, rfl,
      Nat.lt_succ_of_le hdecimal.range.2⟩, Nat.one_le_iff_ne_zero.mp hdecimal.range.1⟩

theorem exists_parse_iff : (∃ target, parse ssh = .ok target) ↔ Written ssh ∨ Signed ssh := by
  simp only [parse_eq_ok, word_iff]
  constructor
  · rintro ⟨⟨user, host, port⟩, ⟨huser, hhost, hzero⟩, ⟨hssh, -⟩ | ⟨digits, hssh, hdigits⟩⟩
    · exact .inl ⟨user, host, huser, hhost, .inl hssh⟩
    · obtain ⟨digits, rfl | rfl, hdecimal, -⟩ := parseUnsigned_iff_decimal.mp ⟨hdigits, hzero⟩
      · exact .inl ⟨user, host, huser, hhost, .inr ⟨digits, hssh, hdecimal⟩⟩
      · exact .inr ⟨user, host, digits, huser, hhost, hssh, hdecimal⟩
  · rintro (⟨user, host, huser, hhost, hssh | ⟨digits, hssh, hdecimal⟩⟩ |
      ⟨user, host, digits, huser, hhost, hssh, hdecimal⟩)
    · exact ⟨⟨user, host, 22⟩, ⟨huser, hhost, Nat.succ_ne_zero 21⟩, .inl ⟨hssh, rfl⟩⟩
    · obtain ⟨hport, hzero⟩ := parseUnsigned_iff_decimal.mpr ⟨digits, .inl rfl, hdecimal, rfl⟩
      exact ⟨⟨user, host, _⟩, ⟨huser, hhost, hzero⟩, .inr ⟨_, hssh, hport⟩⟩
    · obtain ⟨hport, hzero⟩ := parseUnsigned_iff_decimal.mpr ⟨digits, .inr rfl, hdecimal, rfl⟩
      exact ⟨⟨user, host, _⟩, ⟨huser, hhost, hzero⟩, .inr ⟨_, hssh, hport⟩⟩

/-- What is written with a sign is not written in digits only. -/
theorem Signed.not_written (h : Signed ssh) : ¬ Written ssh := by
  obtain ⟨user, host, port, -, -, rfl, -⟩ := h
  intro hwritten
  exact hwritten.plus (by simp)

/-- The parts of an accepted target are no options of `ssh`, and it is recorded as what it is
accepted as. A string is accepted just if it is a target that is written with a decimal port
or none, exactly unless it is one whose port has a sign. -/
theorem accepted_targets (ssh : Str) :
    (∀ target, parse ssh = .ok target →
      Plain target.user ['_'] ∧ Plain target.host [] ∧ 1 ≤ target.port ∧ target.port ≤ 65535 ∧
        parse target.display = .ok target) ∧
    (((∃ target, parse ssh = .ok target) ↔ Written ssh) ↔ ¬ Signed ssh) := by
  constructor
  · intro target htarget
    have hvalid := valid_of_parse htarget
    exact ⟨word_iff.mp hvalid.user, word_iff.mp hvalid.host,
      Nat.one_le_iff_ne_zero.mpr hvalid.port.1, Nat.le_of_lt_succ hvalid.port.2,
      hvalid.parse_display⟩
  · rw [exists_parse_iff]
    constructor
    · intro h hsigned
      exact hsigned.not_written (h.mp (.inr hsigned))
    · intro hsigned
      rw [or_iff_left hsigned]

/-- A port with a sign is accepted. -/
theorem signed_port_accepted :
    parse "root@a:+22" = .ok ⟨"root", "a", 22⟩ ∧
      ¬ Written "root@a:+22" :=
  ⟨by decide, fun h => h.plus (by decide)⟩

end Target

end Cirrocumulus.Ssh
