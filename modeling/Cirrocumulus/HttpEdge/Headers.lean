/-
# The headers that pass the edge

The edge takes the headers that describe one connection out of a request and out of its
response, and says itself who a request is from and whom it is for. Which headers go is up
to the client as well: `Connection` may name any, and only those of its values that are
ASCII are read. What the edge says replaces what was there, so nothing of it is the
client's.
-/

import Mathlib.Algebra.Group.Nat.Defs
import Cirrocumulus.Lib.Maps

namespace Cirrocumulus.HttpEdge

open List Option
open Std (ExtTreeMap)

abbrev Bytes := List UInt8

/-- A text of ASCII characters, as bytes. -/
def ascii (text : String) : Bytes := text.toList.map Char.toUInt8

/-- Headers by name, in lowercase, each with its values in order. -/
abbrev HeaderMap := ExtTreeMap Bytes (List Bytes) compare

/-- The bytes of visible ASCII, and the tab. -/
def isVisibleAscii (b : UInt8) : Bool := (32 ≤ b && b < 127) || b == 9

/-- An authority: its host is of characters of URIs. -/
structure Authority where
  host : Bytes
  visible : host.all isVisibleAscii

/-- What the edge uses of the `http` crate. -/
structure Http where
  /-- `HeaderValue::to_str`. -/
  toStr : Bytes → Option Bytes
  /-- `HeaderName::from_bytes`. -/
  headerName : Bytes → Option Bytes
  /-- `HeaderValue::from_str`. -/
  headerValue : Bytes → Option Bytes
  /-- `Authority::from_str`. -/
  authority : Bytes → Option Authority
  toStr_eq : ∀ {value text}, toStr value = some text → text = value
  headerValue_of_visible : ∀ {text}, text.all isVisibleAscii → headerValue text = some text

def isWhitespace (b : UInt8) : Bool := b == 32 || (9 ≤ b && b ≤ 13)

/-- `str::trim`, of ASCII. -/
def trim (text : Bytes) : Bytes :=
  ((text.dropWhile isWhitespace).reverse.dropWhile isWhitespace).reverse

def toLower (b : UInt8) : UInt8 := if 65 ≤ b && b ≤ 90 then b + 32 else b

variable {http : Http} {headers : HeaderMap} {name : Bytes}

/-- The headers that one value of `Connection` names. -/
def Http.namedBy (http : Http) (value : Bytes) : List Bytes :=
  (value.splitOn ','.toUInt8).filterMap fun name => http.headerName (trim name)

namespace HeaderMap

def getAll (headers : HeaderMap) (name : Bytes) : List Bytes := headers[name]?.getD []

/-- The headers that `remove_hop_by_hop` finds to be named. -/
def named (http : Http) (headers : HeaderMap) : List Bytes :=
  ((headers.getAll (ascii "connection")).filterMap http.toStr).flatMap http.namedBy

end HeaderMap

/-- The headers that never pass a proxy. -/
def hopByHop : List Bytes :=
  ["connection", "proxy-authenticate", "proxy-authorization", "te", "trailer",
    "transfer-encoding", "upgrade", "keep-alive", "proxy-connection"].map ascii

/-- `remove_hop_by_hop`. -/
def removeHopByHop (http : Http) (headers : HeaderMap) : HeaderMap :=
  (headers.named http ++ hopByHop).foldl ExtTreeMap.erase headers

/-! ## What is removed -/

theorem lookup_removeHopByHop : (removeHopByHop http headers)[name]? =
    if name ∈ headers.named http ∨ name ∈ hopByHop then none else headers[name]? := by
  rw [removeHopByHop, Lib.lookup_foldl_erase]
  simp only [mem_append]

/-- A header is found to be named just if a value that is read names it. -/
theorem HeaderMap.mem_named : name ∈ headers.named http ↔
    ∃ value ∈ headers.getAll (ascii "connection"),
      (http.toStr value).isSome ∧ name ∈ http.namedBy value := by
  simp only [named, mem_flatMap, mem_filterMap]
  constructor
  · rintro ⟨text, ⟨value, hvalue, hread⟩, hname⟩
    cases http.toStr_eq hread
    exact ⟨text, hvalue, isSome_of_eq_some hread, hname⟩
  · rintro ⟨value, hvalue, hread, hname⟩
    obtain ⟨text, hread⟩ := isSome_iff_exists.mp hread
    cases http.toStr_eq hread
    exact ⟨value, ⟨value, hvalue, hread⟩, hname⟩

/-- No header of the fixed set passes, and a header that is neither in it nor named keeps its
values. What `Connection` names does not pass either, exactly if a header that is there and
that a value names which `to_str` refuses is in the fixed set or named by a value it reads. -/
theorem no_hop_by_hop_header_passes (http : Http) (headers : HeaderMap) :
    (∀ name ∈ hopByHop, (removeHopByHop http headers)[name]? = none) ∧
    ((∀ value ∈ headers.getAll (ascii "connection"), ∀ name ∈ http.namedBy value,
        (removeHopByHop http headers)[name]? = none) ↔
      ∀ value ∈ headers.getAll (ascii "connection"), http.toStr value = none →
        ∀ name ∈ http.namedBy value, name ∈ headers →
          name ∈ hopByHop ∨ ∃ other ∈ headers.getAll (ascii "connection"),
            (http.toStr other).isSome = true ∧ name ∈ http.namedBy other) ∧
    ∀ name ∉ hopByHop, (∀ value ∈ headers.getAll (ascii "connection"),
      name ∉ http.namedBy value) → (removeHopByHop http headers)[name]? = headers[name]? := by
  simp only [← HeaderMap.mem_named, lookup_removeHopByHop]
  refine ⟨fun name hname => if_pos (.inr hname), ⟨?_, ?_⟩, fun name hfixed hnamed => if_neg ?_⟩
  · intro h value hvalue hread name hname hmem
    by_contra hnot
    rw [or_comm] at hnot
    have hnone := (if_neg hnot).symm.trans (h value hvalue name hname)
    rw [ExtTreeMap.mem_iff_isSome_getElem?, hnone] at hmem
    cases hmem
  · intro h value hvalue name hname
    rw [ite_eq_left_iff, not_or]
    rintro ⟨hnamed, hfixed⟩
    cases hread : http.toStr value with
    | none =>
      by_contra hsome
      have hmem := ExtTreeMap.mem_iff_isSome_getElem?.mpr (isSome_iff_ne_none.mpr hsome)
      rcases h value hvalue hread name hname hmem with h | h
      · exact hfixed h
      · exact hnamed h
    | some text =>
      exact absurd (HeaderMap.mem_named.mpr ⟨value, hvalue, by rw [hread]; rfl, hname⟩) hnamed
  · rintro (hname | hname)
    · obtain ⟨value, hvalue, -, hname⟩ := HeaderMap.mem_named.mp hname
      exact hnamed value hvalue hname
    · exact hfixed hname

/-- The characters of a header's name. -/
def isTokenChar (b : UInt8) : Bool :=
  (97 ≤ toLower b && toLower b ≤ 122) || (48 ≤ b && b ≤ 57) ||
    (ascii "!#$%&'*+-.^_\x60|~").contains b

/-- The crate's functions, with the whole text for an authority's host. -/
def Http.sample : Http where
  toStr value := if value.all isVisibleAscii then some value else none
  headerName text :=
    if text ≠ [] ∧ text.length < 2 ^ 16 ∧ text.all isTokenChar = true then some (text.map toLower)
    else none
  headerValue text := if text.all fun b => (32 ≤ b && b != 127) || b == 9 then some text else none
  authority text := if h : text.all isVisibleAscii = true then some ⟨text, h⟩ else none
  toStr_eq h := (ite_some_none_eq_some.mp h).2.symm
  headerValue_of_visible h := by
    rw [if_pos]
    rw [List.all_eq_true] at h ⊢
    intro b hb
    have hb := h b hb
    simp only [isVisibleAscii, Bool.or_eq_true, Bool.and_eq_true, decide_eq_true_eq, beq_iff_eq,
      bne_iff_ne, UInt8.le_iff_toNat_le, UInt8.lt_iff_toNat_lt, ne_eq, ← UInt8.toNat_inj] at hb ⊢
    omega

/-- A request that names `X-Secret` in a value of `Connection` with a byte that is not ASCII
behind a comma. -/
def secretNamed : HeaderMap :=
  .ofList [(ascii "connection", [ascii "close", ascii "X-Secret" ++ [44, 255]]),
    (ascii "x-secret", [ascii "hidden"])] compare

/-- The value is not read, and the header that it names passes. -/
theorem secret_header_passes :
    (ascii "x-secret") ∈ Http.sample.namedBy (ascii "X-Secret" ++ [44, 255]) ∧
      (removeHopByHop .sample secretNamed)[ascii "x-secret"]? = some [ascii "hidden"] := by
  decide +kernel

/-! ## What the edge says -/

structure Request where
  authority : Option Authority
  headers : HeaderMap

/-- One header that `proxy` sets, if its value can be one. -/
def HeaderMap.set (http : Http) (headers : HeaderMap) (name text : Bytes) : HeaderMap :=
  match http.headerValue text with
  | some value => headers.insert name [value]
  | none => headers

/-- The headers that say who a request is from and whom it is for. -/
def told : List Bytes :=
  ["host", "x-forwarded-host", "x-forwarded-for", "x-forwarded-proto"].map ascii

end Cirrocumulus.HttpEdge
