import Mathlib

/-!
# Codes

A text that is coded symbol by symbol, and bytes that are read back from four characters for
three of them.
-/
namespace Codes

section Words

variable {α β : Type*} {code : α → List β}

/-- No word is empty, and none begins another one. -/
structure PrefixFree (code : α → List β) : Prop where
  nonempty : ∀ a, code a ≠ []
  apart : ∀ a a', code a <+: code a' → a = a'

theorem PrefixFree.first (free : PrefixFree code) {a a' : α} {rest rest' : List β}
    (same : code a ++ rest = code a' ++ rest') : a = a' ∧ rest = rest' := by
  have symbols : a = a' := by
    have begins : code a <+: code a' ++ rest' := same ▸ List.prefix_append _ _
    rcases List.prefix_or_prefix_of_prefix begins (List.prefix_append _ _) with one | other
    · exact free.apart a a' one
    · exact (free.apart a' a other).symm
  subst symbols
  exact ⟨rfl, List.append_cancel_left same⟩

/-- What is coded with such words is read in one way only. -/
theorem PrefixFree.flatMap_injective (free : PrefixFree code) :
    Function.Injective (List.flatMap code) := by
  intro text
  induction text with
  | nil =>
      intro text' same
      cases text' with
      | nil => rfl
      | cons a' text' =>
          rw [List.flatMap_nil, List.flatMap_cons] at same
          exact absurd (List.append_eq_nil_iff.mp same.symm).1 (free.nonempty a')
  | cons a text ih =>
      intro text' same
      cases text' with
      | nil =>
          rw [List.flatMap_nil, List.flatMap_cons] at same
          exact absurd (List.append_eq_nil_iff.mp same).1 (free.nonempty a)
      | cons a' text' =>
          rw [List.flatMap_cons, List.flatMap_cons] at same
          obtain ⟨symbol, rest⟩ := free.first same
          rw [symbol, ih rest]

end Words

/-! ## Base64 -/

section Base64

-- the sixty-four characters, and the one that fills up
variable (alphabet : List UInt8) (pad : UInt8)

def valueOf (c : UInt8) : Option Nat := alphabet.idxOf? c

/-- The bytes of the first two characters, of three and of four. -/
def byteOne (v0 v1 : Nat) : UInt8 := UInt8.ofNat (v0 * 4 + v1 / 16)

def byteTwo (v1 v2 : Nat) : UInt8 := UInt8.ofNat (v1 % 16 * 16 + v2 / 4)

def byteThree (v2 v3 : Nat) : UInt8 := UInt8.ofNat (v2 % 4 * 64 + v3)

def decodeFull (c0 c1 c2 c3 : UInt8) : Option (List UInt8) := do
  let v0 ← valueOf alphabet c0
  let v1 ← valueOf alphabet c1
  let v2 ← valueOf alphabet c2
  let v3 ← valueOf alphabet c3
  return [byteOne v0 v1, byteTwo v1 v2, byteThree v2 v3]

/-- The last four characters may be filled up. -/
def decodeLast (c0 c1 c2 c3 : UInt8) : Option (List UInt8) :=
  if c3 ≠ pad then decodeFull alphabet c0 c1 c2 c3
  else if c2 ≠ pad then do
    let v0 ← valueOf alphabet c0
    let v1 ← valueOf alphabet c1
    let v2 ← valueOf alphabet c2
    return [byteOne v0 v1, byteTwo v1 v2]
  else do
    let v0 ← valueOf alphabet c0
    let v1 ← valueOf alphabet c1
    return [byteOne v0 v1]

def decode : List UInt8 → Option (List UInt8)
  | [] => some []
  | c0 :: c1 :: c2 :: c3 :: rest =>
    if rest = [] then decodeLast alphabet pad c0 c1 c2 c3
    else do
      let bytes ← decodeFull alphabet c0 c1 c2 c3
      let more ← decode rest
      return bytes ++ more
  | _ => none

variable {alphabet pad}

theorem valueOf_getD (nodup : alphabet.Nodup) {v : Nat} (inside : v < alphabet.length) :
    valueOf alphabet (alphabet.getD v 0) = some v := by
  rw [List.getD_eq_getElem?_getD, List.getElem?_eq_getElem inside]
  apply List.idxOf?_eq_some_iff.mpr
  refine ⟨inside, rfl, ?_⟩
  intro k before same
  exact Nat.ne_of_lt before (nodup.getElem_inj_iff.mp same)

theorem letter_ne {v : Nat} (inside : v < alphabet.length) (other : pad ∉ alphabet) :
    alphabet.getD v 0 ≠ pad := by
  intro same
  rw [List.getD_eq_getElem?_getD, List.getElem?_eq_getElem inside] at same
  exact other (same ▸ List.getElem_mem inside)

section Letters

variable {v0 v1 v2 v3 : Nat}
variable (nodup : alphabet.Nodup) (inside0 : v0 < alphabet.length) (inside1 : v1 < alphabet.length)

include nodup inside0 inside1

theorem decodeFull_letters (inside2 : v2 < alphabet.length) (inside3 : v3 < alphabet.length) :
    decodeFull alphabet (alphabet.getD v0 0) (alphabet.getD v1 0) (alphabet.getD v2 0)
      (alphabet.getD v3 0) = some [byteOne v0 v1, byteTwo v1 v2, byteThree v2 v3] := by
  rw [decodeFull, valueOf_getD nodup inside0, valueOf_getD nodup inside1,
    valueOf_getD nodup inside2, valueOf_getD nodup inside3]
  rfl

theorem decodeLast_one :
    decodeLast alphabet pad (alphabet.getD v0 0) (alphabet.getD v1 0) pad pad =
      some [byteOne v0 v1] := by
  rw [decodeLast, if_neg (not_not.mpr rfl), if_neg (not_not.mpr rfl), valueOf_getD nodup inside0,
    valueOf_getD nodup inside1]
  rfl

theorem decodeLast_two (inside2 : v2 < alphabet.length) (other : pad ∉ alphabet) :
    decodeLast alphabet pad (alphabet.getD v0 0) (alphabet.getD v1 0) (alphabet.getD v2 0) pad =
      some [byteOne v0 v1, byteTwo v1 v2] := by
  rw [decodeLast, if_neg (not_not.mpr rfl), if_pos (letter_ne inside2 other),
    valueOf_getD nodup inside0,
    valueOf_getD nodup inside1, valueOf_getD nodup inside2]
  rfl

theorem decodeLast_three (inside2 : v2 < alphabet.length) (inside3 : v3 < alphabet.length)
    (other : pad ∉ alphabet) :
    decodeLast alphabet pad (alphabet.getD v0 0) (alphabet.getD v1 0) (alphabet.getD v2 0)
      (alphabet.getD v3 0) = some [byteOne v0 v1, byteTwo v1 v2, byteThree v2 v3] := by
  rw [decodeLast, if_pos (letter_ne inside3 other)]
  exact decodeFull_letters nodup inside0 inside1 inside2 inside3

end Letters

end Base64

end Codes
