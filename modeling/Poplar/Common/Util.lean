import Poplar.Http.Header
import Poplar.Lib.Codes

/-!
# Characters: common/util.c

A `char` is signed. What a function writes is returned as a list.
-/
namespace Poplar

open Http (ascii)

/-- The value of a `char`. -/
def charValue (c : UInt8) : Int := if c.toNat < 128 then c.toNat else c.toNat - 256

def lwr (a : UInt8) : UInt8 := if 65 ≤ a ∧ a ≤ 90 then a ||| 0x20 else a

def lwrcmp (as bs : List UInt8) : Nat → Int
  | 0 => 0
  | n + 1 =>
    let a := charValue (lwr (as.headD 0))
    let b := charValue (lwr (bs.headD 0))
    if a < b then -1 else if a > b then 1 else lwrcmp as.tail bs.tail n

def i2h (i : Nat) : UInt8 :=
  if i ≥ 16 then 63 else if i < 10 then UInt8.ofNat (i + 48) else UInt8.ofNat (i - 10 + 65)

def b64 : List UInt8 :=
  ascii "ABCDEFGHIJKLMNOPQRSTUVWXYZabcdefghijklmnopqrstuvwxyz0123456789+/"

def b64fss : List UInt8 :=
  ascii "ABCDEFGHIJKLMNOPQRSTUVWXYZabcdefghijklmnopqrstuvwxyz0123456789+-"

/-- `src[i]` -/
def charAt (src : List UInt8) (i : Nat) : Except Fault Nat :=
  if i < src.length then .ok (src.getD i 0).toNat else .error .outOfObject

/-- `inside ? src[i] : 0` -/
def charIf (inside : Prop) [Decidable inside] (src : List UInt8) (i : Nat) : Except Fault Nat :=
  if inside then charAt src i else .ok 0

/-- The four characters for three bytes, or for what is there of them. -/
def b64Group (b : List UInt8) (n i a0 a1 a2 : Nat) : List UInt8 :=
  [b.getD (a0 >>> 2 &&& 0x3F) 0,
    b.getD ((a0 <<< 4 &&& 0x30) ||| (a1 >>> 4 &&& 0x0F)) 0,
    if i < n - 1 then b.getD ((a1 <<< 2 &&& 0x3C) ||| (a2 >>> 6 &&& 0x03)) 0 else 61,
    if i < n - 2 then b.getD (a2 &&& 0x3F) 0 else 61]

/-- The loop of `b64cpy` from `i` on, with at most `fuel` turns left. -/
def b64Loop (src b : List UInt8) (n : Nat) : Nat → Nat → Except Fault (List UInt8)
  | 0, i => if i < n then .error .diverge else .ok []
  | fuel + 1, i =>
    if i < n then do
      let a0 ← charAt src i
      let a1 ← charIf (i < n - 1) src (i + 1)
      let a2 ← charIf (i < n - 2) src (i + 2)
      let rest ← b64Loop src b n fuel (i + 3)
      return b64Group b n i a0 a1 a2 ++ rest
    else .ok []

/-- Each turn takes three bytes, so `n` turns are enough. -/
def b64cpy (src : List UInt8) (n : Nat) (fss : Bool) : Except Fault (List UInt8) :=
  b64Loop src (if fss then b64fss else b64) n n 0

section Base64

variable {src b : List UInt8} {n i : Nat}

theorem charAt_ok (inside : i < src.length) : charAt src i = .ok (src.getD i 0).toNat :=
  if_pos inside

theorem charIf_ok {inside : Prop} [Decidable inside] (bound : inside → i < src.length) :
    charIf inside src i = .ok (if inside then (src.getD i 0).toNat else 0) := by
  unfold charIf
  split
  · next here => exact charAt_ok (bound here)
  · rfl

/-- A turn of the loop, where the bytes are there. -/
theorem b64Loop_step (enough : n ≤ src.length) (more : i < n) (fuel : Nat) :
    b64Loop src b n (fuel + 1) i = do
      let rest ← b64Loop src b n fuel (i + 3)
      return b64Group b n i (src.getD i 0).toNat
        (if i < n - 1 then (src.getD (i + 1) 0).toNat else 0)
        (if i < n - 2 then (src.getD (i + 2) 0).toNat else 0) ++ rest := by
  rw [b64Loop, if_pos more, charAt_ok (by omega), ok_bind, charIf_ok (by omega), ok_bind,
    charIf_ok (by omega), ok_bind]

theorem b64Group_letters (alphabet : b.length = 64) (a0 a1 a2 : Nat) :
    ∀ c ∈ b64Group b n i a0 a1 a2, c ∈ b ∨ c = 61 := by
  have known : ∀ k, k < 2 ^ 6 → b.getD k 0 ∈ b := by
    intro k small
    have inside : k < b.length := by omega
    rw [List.getD_eq_getElem?_getD, List.getElem?_eq_getElem inside]
    exact List.getElem_mem inside
  have low : ∀ a m : Nat, m < 2 ^ 6 → a &&& m < 2 ^ 6 := fun a m small => Nat.and_lt_two_pow a small
  intro c member
  rw [b64Group] at member
  simp only [List.mem_cons, List.not_mem_nil, or_false] at member
  rcases member with rfl | rfl | rfl | rfl
  · exact .inl (known _ (low _ _ (by omega)))
  · exact .inl (known _ (Nat.or_lt_two_pow (low _ _ (by omega)) (low _ _ (by omega))))
  · split
    · exact .inl (known _ (Nat.or_lt_two_pow (low _ _ (by omega)) (low _ _ (by omega))))
    · exact .inr rfl
  · split
    · exact .inl (known _ (low _ _ (by omega)))
    · exact .inr rfl

/-- Four characters are written for each three bytes begun, from the alphabet or to fill up. -/
theorem b64Loop_ok (alphabet : b.length = 64) (enough : n ≤ src.length) {fuel : Nat}
    (turns : n ≤ i + fuel) :
    ∃ out, b64Loop src b n fuel i = .ok out ∧ out.length = 4 * ((n - i + 2) / 3) ∧
      ∀ c ∈ out, c ∈ b ∨ c = 61 := by
  induction fuel generalizing i with
  | zero => exact ⟨[], if_neg (by omega), by simp only [List.length_nil]; omega, by simp⟩
  | succ fuel ih =>
      by_cases more : i < n
      · obtain ⟨rest, loop, length, letters⟩ := ih (i := i + 3) (by omega)
        rw [b64Loop_step enough more, loop]
        refine ⟨_, rfl, ?_, ?_⟩
        · rw [List.length_append, length]
          simp only [b64Group, List.length_cons, List.length_nil]
          omega
        · intro c member
          rcases List.mem_append.mp member with here | later
          · exact b64Group_letters alphabet _ _ _ c here
          · exact letters c later
      · exact ⟨[], by rw [b64Loop, if_neg more], by simp only [List.length_nil]; omega, by simp⟩

theorem b64cpy_ok (enough : n ≤ src.length) (fss : Bool) :
    ∃ out, b64cpy src n fss = .ok out ∧ out.length = 4 * ((n + 2) / 3) ∧
      ∀ c ∈ out, c ∈ (if fss then b64fss else b64) ∨ c = 61 := by
  have alphabet : (if fss then b64fss else b64).length = 64 := by
    cases fss <;> decide
  exact b64Loop_ok alphabet enough (by omega)

/-! The indices of the four characters. -/

theorem low_bits (a w : Nat) : a &&& (2 ^ w - 1) = a % 2 ^ w := Nat.and_two_pow_sub_one_eq_mod a w

theorem join_bits (a c w k : Nat) (small : c < 2 ^ k) :
    (a <<< k &&& (2 ^ w - 1) <<< k) ||| c = a % 2 ^ w * 2 ^ k + c := by
  rw [← Nat.shiftLeft_and_distrib, low_bits, ← Nat.shiftLeft_add_eq_or_of_lt small,
    Nat.shiftLeft_eq]

theorem index_first (a0 : Nat) : a0 >>> 2 &&& 0x3F = a0 / 4 % 64 := by
  rw [Nat.shiftRight_eq_div_pow]
  exact low_bits _ 6

theorem index_second (a0 a1 : Nat) :
    (a0 <<< 4 &&& 0x30) ||| (a1 >>> 4 &&& 0x0F) = a0 % 4 * 16 + a1 / 16 % 16 := by
  have low : a1 >>> 4 &&& 0x0F = a1 / 16 % 16 := by
    rw [Nat.shiftRight_eq_div_pow]
    exact low_bits _ 4
  rw [low]
  exact join_bits a0 _ 2 4 (by omega)

theorem index_third (a1 a2 : Nat) :
    (a1 <<< 2 &&& 0x3C) ||| (a2 >>> 6 &&& 0x03) = a1 % 16 * 4 + a2 / 64 % 4 := by
  have low : a2 >>> 6 &&& 0x03 = a2 / 64 % 4 := by
    rw [Nat.shiftRight_eq_div_pow]
    exact low_bits _ 2
  rw [low]
  exact join_bits a1 _ 4 2 (by omega)

theorem index_fourth (a2 : Nat) : a2 &&& 0x3F = a2 % 64 := low_bits _ 6

theorem b64Group_indices (b : List UInt8) (n i a0 a1 a2 : Nat) :
    b64Group b n i a0 a1 a2 = [b.getD (a0 / 4 % 64) 0, b.getD (a0 % 4 * 16 + a1 / 16 % 16) 0,
      if i < n - 1 then b.getD (a1 % 16 * 4 + a2 / 64 % 4) 0 else 61,
      if i < n - 2 then b.getD (a2 % 64) 0 else 61] := by
  rw [b64Group, index_first, index_second, index_third, index_fourth]

/-! ## Reading the characters back -/

section Decode

variable (alphabet : b.length = 64) (nodup : b.Nodup)

theorem bytes_from (enough : n ≤ src.length) (more : i < n) :
    (src.take n).drop i = src.getD i 0 :: (src.take n).drop (i + 1) := by
  have inside : i < (src.take n).length := by
    rw [List.length_take]
    omega
  rw [List.drop_eq_getElem_cons inside, List.getElem_take, List.getD_eq_getElem?_getD,
    List.getElem?_eq_getElem (by omega)]
  rfl

theorem byteOne_index (c : UInt8) (a1 : Nat) :
    Codes.byteOne (c.toNat / 4 % 64) (c.toNat % 4 * 16 + a1 / 16 % 16) = c := by
  have small := c.toNat_lt
  have value : c.toNat / 4 % 64 * 4 + (c.toNat % 4 * 16 + a1 / 16 % 16) / 16 = c.toNat := by
    omega
  rw [Codes.byteOne, value, UInt8.ofNat_toNat]

theorem byteTwo_index (a0 a2 : Nat) (c : UInt8) :
    Codes.byteTwo (a0 % 4 * 16 + c.toNat / 16 % 16) (c.toNat % 16 * 4 + a2 / 64 % 4) = c := by
  have small := c.toNat_lt
  have value : (a0 % 4 * 16 + c.toNat / 16 % 16) % 16 * 16 +
      (c.toNat % 16 * 4 + a2 / 64 % 4) / 4 = c.toNat := by
    omega
  rw [Codes.byteTwo, value, UInt8.ofNat_toNat]

theorem byteThree_index (a1 : Nat) (c : UInt8) :
    Codes.byteThree (a1 % 16 * 4 + c.toNat / 64 % 4) (c.toNat % 64) = c := by
  have small := c.toNat_lt
  have value : (a1 % 16 * 4 + c.toNat / 64 % 4) % 4 * 64 + c.toNat % 64 = c.toNat := by
    omega
  rw [Codes.byteThree, value, UInt8.ofNat_toNat]

include alphabet nodup

/-- Three bytes are read back from a group that others follow. -/
theorem b64Group_followed (inside : i < n - 2) (c0 c1 c2 : UInt8) {rest : List UInt8}
    (more : rest ≠ []) :
    Codes.decode b 61 (b64Group b n i c0.toNat c1.toNat c2.toNat ++ rest) =
      (Codes.decode b 61 rest).map ([c0, c1, c2] ++ ·) := by
  have second : i < n - 1 := by omega
  rw [b64Group_indices, if_pos second, if_pos inside, List.cons_append, List.cons_append,
    List.cons_append, List.cons_append, List.nil_append, Codes.decode, if_neg more,
    Codes.decodeFull_letters nodup (by omega) (by omega) (by omega) (by omega), byteOne_index,
    byteTwo_index, byteThree_index]
  cases Codes.decode b 61 rest with
  | none => rfl
  | some bytes => rfl

/-- The bytes that are there are read back from the last group. -/
theorem b64Group_last (other : 61 ∉ b) (enough : n ≤ src.length) (more : i < n) (last : n ≤ i + 3) :
    Codes.decode b 61 (b64Group b n i (src.getD i 0).toNat
      (if i < n - 1 then (src.getD (i + 1) 0).toNat else 0)
      (if i < n - 2 then (src.getD (i + 2) 0).toNat else 0)) = some ((src.take n).drop i) := by
  have finished : (src.take n).drop n = [] := List.drop_eq_nil_of_le (by simp)
  rw [b64Group_indices, Codes.decode, if_pos rfl, bytes_from enough more]
  by_cases second : i < n - 1
  · rw [if_pos second, if_pos second, bytes_from enough (by omega : i + 1 < n)]
    by_cases third : i < n - 2
    · rw [if_pos third, if_pos third, bytes_from enough (by omega : i + 2 < n),
        (by omega : i + 2 + 1 = n), finished,
        Codes.decodeLast_three nodup (by omega) (by omega) (by omega) (by omega) other,
        byteOne_index, byteTwo_index, byteThree_index]
    · rw [if_neg third, if_neg third, (by omega : i + 1 + 1 = n), finished,
        Codes.decodeLast_two nodup (by omega) (by omega) (by omega) other, byteOne_index,
        byteTwo_index]
  · rw [if_neg second, if_neg second, if_neg (by omega : ¬ i < n - 2), (by omega : i + 1 = n), finished,
      Codes.decodeLast_one nodup (by omega) (by omega), byteOne_index]

/-- What the loop writes from `i` on is read back as the bytes from `i` on. -/
theorem b64Loop_decodes (other : 61 ∉ b) (enough : n ≤ src.length) {fuel : Nat}
    (turns : n ≤ i + fuel) {out : List UInt8} (loop : b64Loop src b n fuel i = .ok out) :
    Codes.decode b 61 out = some ((src.take n).drop i) := by
  induction fuel generalizing i out with
  | zero =>
      rw [b64Loop, if_neg (by omega)] at loop
      cases loop
      rw [List.drop_eq_nil_of_le (by rw [List.length_take]; omega)]
      rfl
  | succ fuel ih =>
      by_cases more : i < n
      · have left : n ≤ i + 3 + fuel := by omega
        obtain ⟨rest, later, length, -⟩ := b64Loop_ok alphabet enough left
        rw [b64Loop_step enough more, later] at loop
        cases loop
        by_cases last : n ≤ i + 3
        · have nothing : rest = [] := List.eq_nil_of_length_eq_zero (by omega)
          rw [nothing, List.append_nil]
          exact b64Group_last alphabet nodup other enough more last
        · have inside : i < n - 2 := by omega
          have some_ : rest ≠ [] := fun nothing => by
            rw [nothing, List.length_nil] at length
            omega
          rw [if_pos (by omega : i < n - 1), if_pos inside,
            b64Group_followed alphabet nodup inside _ _ _ some_, ih left later,
            bytes_from enough more, bytes_from enough (by omega : i + 1 < n),
            bytes_from enough (by omega : i + 2 < n)]
          rfl
      · rw [b64Loop, if_neg more] at loop
        cases loop
        rw [List.drop_eq_nil_of_le (by rw [List.length_take]; omega)]
        rfl

end Decode

theorem alphabet_complete (fss : Bool) :
    (if fss then b64fss else b64).length = 64 ∧ (if fss then b64fss else b64).Nodup ∧
      61 ∉ (if fss then b64fss else b64) := by
  cases fss <;> decide +kernel

/-- All bytes are read back, and nothing behind them has been read. -/
theorem b64cpy_decodes (src : List UInt8) (fss : Bool) :
    ∃ out, b64cpy src src.length fss = .ok out ∧ out.length = 4 * ((src.length + 2) / 3) ∧
      Codes.decode (if fss then b64fss else b64) 61 out = some src := by
  obtain ⟨alphabet, nodup, other⟩ := alphabet_complete fss
  obtain ⟨out, copies, length, -⟩ := b64cpy_ok (Nat.le_refl src.length) fss
  refine ⟨out, copies, length, ?_⟩
  rw [b64Loop_decodes alphabet nodup other (Nat.le_refl src.length) (Nat.le_add_left _ _) copies,
    List.take_length, List.drop_zero]

end Base64

end Poplar
