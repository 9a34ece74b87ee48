/-
# Tokens that can be spent once

A component keeps things in places: it makes a thing in a place, moves it from one place to
another, throws it away, and uses it. When every thing is made once and only moved, never
copied, a token stands for it, and no two places hold the same one. A token that has been
used is spent, and may lie on where it was. What is to be shown is that nothing is used
twice: the places from which things are used, or will be, hold no spent token.
-/

import Mathlib.Data.List.Nodup

namespace Cirrocumulus.Lib

universe u

variable {π : Type u}

/-- The tokens that places hold, the next one to be made, and those that were spent. -/
structure Tokens (π : Type u) where
  held : π → Option Nat
  next : Nat
  spent : List Nat

namespace Tokens

variable {tokens tokens' : Tokens π} {place source target : π} {token : Nat}

/-- What happens to tokens. Each case says of every place what it can hold afterwards, so
that tokens may be thrown away at any time. -/
inductive Move (tokens : Tokens π) : Tokens π → Prop
  | drops {held} (h : ∀ place token, held place = some token → tokens.held place = some token) :
      Move tokens { tokens with held }
  | makes {held} (target : π) (h : ∀ place token, held place = some token →
        place = target ∧ token = tokens.next ∨
          place ≠ target ∧ tokens.held place = some token) :
      Move tokens { tokens with held, next := tokens.next + 1 }
  | moves {held} (source target : π) (h : ∀ place token, held place = some token →
        place = target ∧ tokens.held source = some token ∨
          place ≠ source ∧ place ≠ target ∧ tokens.held place = some token) :
      Move tokens { tokens with held }
  | spends (source : π) {token : Nat} (h : tokens.held source = some token) :
      Move tokens { tokens with spent := token :: tokens.spent }

/-- No two places hold one token, and a token that is held or spent was made. -/
structure Sound (tokens : Tokens π) : Prop where
  lt : ∀ ⦃place token⦄, tokens.held place = some token → token < tokens.next
  inj : ∀ ⦃place other token⦄, tokens.held place = some token →
    tokens.held other = some token → place = other
  spent_lt : ∀ token ∈ tokens.spent, token < tokens.next

/-- The place holds no token that was spent. -/
def Unspent (tokens : Tokens π) (place : π) : Prop :=
  ∀ ⦃token⦄, tokens.held place = some token → token ∉ tokens.spent

theorem Sound.step (h : tokens.Sound) (hmove : tokens.Move tokens') : tokens'.Sound := by
  cases hmove with
  | drops hheld =>
    exact ⟨fun place token hplace => h.lt (hheld place token hplace),
      fun place other token hplace hother =>
        h.inj (hheld place token hplace) (hheld other token hother), h.spent_lt⟩
  | makes target hheld =>
    constructor
    · intro place token hplace
      rcases hheld place token hplace with ⟨-, rfl⟩ | ⟨-, hbefore⟩
      · exact Nat.lt_succ_self _
      · exact Nat.lt_succ_of_lt (h.lt hbefore)
    · intro place other token hplace hother
      rcases hheld place token hplace with ⟨rfl, rfl⟩ | ⟨-, hplace⟩
      · rcases hheld other _ hother with ⟨rfl, -⟩ | ⟨-, hother⟩
        · rfl
        · exact absurd (h.lt hother) (Nat.lt_irrefl _)
      · rcases hheld other _ hother with ⟨rfl, rfl⟩ | ⟨-, hother⟩
        · exact absurd (h.lt hplace) (Nat.lt_irrefl _)
        · exact h.inj hplace hother
    · intro token htoken
      exact Nat.lt_succ_of_lt (h.spent_lt token htoken)
  | moves source target hheld =>
    constructor
    · intro place token hplace
      rcases hheld place token hplace with ⟨-, hsource⟩ | ⟨-, -, hbefore⟩
      · exact h.lt hsource
      · exact h.lt hbefore
    · intro place other token hplace hother
      rcases hheld place token hplace with ⟨rfl, hsource⟩ | ⟨hne, -, hplace⟩
      · rcases hheld other token hother with ⟨rfl, -⟩ | ⟨hne, -, hother⟩
        · rfl
        · exact absurd (h.inj hother hsource) hne
      · rcases hheld other token hother with ⟨rfl, hsource⟩ | ⟨-, -, hother⟩
        · exact absurd (h.inj hplace hsource) hne
        · exact h.inj hplace hother
    · exact h.spent_lt
  | spends source hsource =>
    refine ⟨h.lt, h.inj, fun token htoken => ?_⟩
    rcases List.mem_cons.mp htoken with rfl | htoken
    · exact h.lt hsource
    · exact h.spent_lt token htoken

/-! ## Places without spent tokens -/

theorem Unspent.of_drops (h : tokens.Unspent place) {held}
    (hheld : ∀ place token, held place = some token → tokens.held place = some token) :
    ({ tokens with held } : Tokens π).Unspent place :=
  fun token hplace => h (hheld place token hplace)

/-- A new token is not spent. -/
theorem Unspent.of_makes (h : tokens.Unspent place) (hsound : tokens.Sound)
    {held} (hheld : ∀ place token, held place = some token →
      place = target ∧ token = tokens.next ∨ place ≠ target ∧ tokens.held place = some token) :
    ({ tokens with held, next := tokens.next + 1 } : Tokens π).Unspent place := by
  intro token hplace hspent
  rcases hheld place token hplace with ⟨-, rfl⟩ | ⟨-, hbefore⟩
  · exact absurd (hsound.spent_lt _ hspent) (Nat.lt_irrefl _)
  · exact h hbefore hspent

theorem Unspent.of_moves (h : place ≠ target → tokens.Unspent place)
    (hsource : place = target → tokens.Unspent source) {held}
    (hheld : ∀ place token, held place = some token →
      place = target ∧ tokens.held source = some token ∨
        place ≠ source ∧ place ≠ target ∧ tokens.held place = some token) :
    ({ tokens with held } : Tokens π).Unspent place := by
  intro token hplace
  rcases hheld place token hplace with ⟨heq, hbefore⟩ | ⟨-, hne, hbefore⟩
  · exact hsource heq hbefore
  · exact h hne hbefore

/-- A token that is spent lies in no other place. -/
theorem Unspent.of_spends (h : tokens.Unspent place) (hsound : tokens.Sound)
    (hsource : tokens.held source = some token) (hne : place ≠ source) :
    ({ tokens with spent := token :: tokens.spent } : Tokens π).Unspent place := by
  intro other hplace hspent
  rcases List.mem_cons.mp hspent with rfl | hspent
  · exact hne (hsound.inj hplace hsource)
  · exact h hplace hspent

theorem nodup_of_spends (h : tokens.spent.Nodup) (hunspent : tokens.Unspent source)
    (hsource : tokens.held source = some token) : (token :: tokens.spent).Nodup :=
  List.nodup_cons.mpr ⟨hunspent hsource, h⟩

end Tokens

end Cirrocumulus.Lib
