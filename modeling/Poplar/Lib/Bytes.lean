import Mathlib

/-!
# Numbers in bytes, and bytes in a buffer

A number is cut into bytes at given shifts and joined again from them. A buffer is
overwritten from a position on.
-/
namespace Bytes

/-- The bytes of `n` at these shifts. -/
def cut (n : Nat) (shifts : List Nat) : List UInt8 :=
  shifts.map fun shift => UInt8.ofNat (n >>> shift)

/-- The number whose bytes at these shifts are the given ones. -/
def join : List Nat → List UInt8 → Nat
  | [], _ => 0
  | _ :: _, [] => 0
  | shift :: shifts, c :: cs => c.toNat <<< shift ||| join shifts cs

@[simp] theorem cut_length (n : Nat) (shifts : List Nat) : (cut n shifts).length = shifts.length :=
  List.length_map _

theorem testBit_byte (n shift i : Nat) :
    ((UInt8.ofNat (n >>> shift)).toNat <<< shift).testBit i =
      (decide (shift ≤ i ∧ i < shift + 8) && n.testBit i) := by
  rw [Nat.testBit_shiftLeft, UInt8.toNat_ofNat', Nat.testBit_mod_two_pow, Nat.testBit_shiftRight]
  by_cases above : shift ≤ i
  · have back : shift + (i - shift) = i := Nat.add_sub_cancel' above
    have within : i - shift < 8 ↔ i < shift + 8 := by omega
    simp [above, back, within]
  · simp [above]

/-- A bit of what is joined is a bit of the number that some shift covers. -/
theorem testBit_join_cut (n i : Nat) (shifts : List Nat) :
    (join shifts (cut n shifts)).testBit i =
      (decide (∃ shift ∈ shifts, shift ≤ i ∧ i < shift + 8) && n.testBit i) := by
  induction shifts with
  | nil => simp [join]
  | cons shift shifts ih =>
      have joined : join (shift :: shifts) (cut n (shift :: shifts)) =
          (UInt8.ofNat (n >>> shift)).toNat <<< shift ||| join shifts (cut n shifts) := rfl
      rw [joined, Nat.testBit_lor, testBit_byte, ih, ← Bool.and_or_distrib_right]
      congr 1
      rw [Bool.eq_iff_iff]
      simp

theorem join_cut {n : Nat} {shifts : List Nat}
    (covered : ∀ i, n.testBit i → ∃ shift ∈ shifts, shift ≤ i ∧ i < shift + 8) :
    join shifts (cut n shifts) = n := by
  apply Nat.eq_of_testBit_eq
  intro i
  rw [testBit_join_cut]
  cases bit : n.testBit i with
  | false => rw [Bool.and_false]
  | true => rw [Bool.and_true, decide_eq_true (covered i bit)]

/-- A number below `2 ^ bits` is covered by shifts that cover the bits. -/
theorem join_cut_of_lt (bits : Nat) {n : Nat} {shifts : List Nat} (small : n < 2 ^ bits)
    (covered : ∀ i < bits, ∃ shift ∈ shifts, shift ≤ i ∧ i < shift + 8) :
    join shifts (cut n shifts) = n := by
  apply join_cut
  intro i bit
  apply covered
  by_contra large
  have above : n < 2 ^ i := lt_of_lt_of_le small (Nat.pow_le_pow_right (by omega) (by omega))
  rw [Nat.testBit_lt_two_pow above] at bit
  cases bit

theorem join_lt {m : Nat} {shifts : List Nat} (below : ∀ shift ∈ shifts, shift + 8 ≤ m)
    (cs : List UInt8) : join shifts cs < 2 ^ m := by
  induction shifts generalizing cs with
  | nil => exact Nat.two_pow_pos m
  | cons shift shifts ih =>
      obtain ⟨here, later⟩ := List.forall_mem_cons.mp below
      cases cs with
      | nil => exact Nat.two_pow_pos m
      | cons c cs =>
          apply Nat.or_lt_two_pow _ (ih later cs)
          have byte : c.toNat < 2 ^ 8 := c.toNat_lt
          calc c.toNat <<< shift = c.toNat * 2 ^ shift := Nat.shiftLeft_eq _ _
            _ < 2 ^ 8 * 2 ^ shift := Nat.mul_lt_mul_of_pos_right byte (Nat.two_pow_pos shift)
            _ = 2 ^ (shift + 8) := by rw [← Nat.pow_add, Nat.add_comm]
            _ ≤ 2 ^ m := Nat.pow_le_pow_right (by omega) here

/-- With the highest shift first, joining is adding. -/
theorem join_cons {shift : Nat} {shifts : List Nat} (below : ∀ k ∈ shifts, k + 8 ≤ shift) (c : UInt8)
    (cs : List UInt8) :
    join (shift :: shifts) (c :: cs) = c.toNat * 2 ^ shift + join shifts cs := by
  rw [← Nat.shiftLeft_eq, Nat.shiftLeft_add_eq_or_of_lt (join_lt below cs)]
  rfl

/-! ## Buffers -/

/-- `bytes` written over what stands from `i` on. -/
def overwrite (data : List UInt8) (i : Nat) (bytes : List UInt8) : List UInt8 :=
  data.take i ++ bytes ++ data.drop (i + bytes.length)

section Overwrite

variable {data bytes : List UInt8} {i : Nat}

theorem overwrite_length (inside : i + bytes.length ≤ data.length) :
    (overwrite data i bytes).length = data.length := by
  simp only [overwrite, List.length_append, List.length_take, List.length_drop]
  omega

/-- A byte and those behind it. -/
theorem read_succ {n : Nat} (inside : i < data.length) :
    (data.drop i).take (n + 1) = data.getD i 0 :: (data.drop (i + 1)).take n := by
  rw [List.drop_eq_getElem_cons inside, List.take_succ_cons, List.getD_eq_getElem?_getD,
    List.getElem?_eq_getElem inside]
  rfl

theorem overwrite_nil (i : Nat) : overwrite data i [] = data := by
  simp [overwrite]

/-- Byte by byte. -/
theorem overwrite_cons {c : UInt8} (inside : i < data.length) :
    overwrite (data.set i c) (i + 1) bytes = overwrite data i (c :: bytes) := by
  have front : (data.set i c).take (i + 1) = data.take i ++ [c] := by
    rw [List.take_add_one, List.take_set_of_le (Nat.le_refl i), List.getElem?_set_self inside]
    rfl
  have behind : (data.set i c).drop (i + 1 + bytes.length) = data.drop (i + (c :: bytes).length) := by
    rw [List.drop_set_of_lt (by omega), List.length_cons, Nat.add_right_comm, Nat.add_assoc]
  rw [overwrite, front, behind, overwrite, List.append_assoc, List.append_assoc, List.append_assoc]
  rfl

/-- What is written is read. -/
theorem read_overwrite (inside : i ≤ data.length) :
    ((overwrite data i bytes).drop i).take bytes.length = bytes := by
  have front : (data.take i).length = i := by
    rw [List.length_take, Nat.min_eq_left inside]
  rw [overwrite, List.append_assoc, List.drop_left' front, List.take_left]

/-- All other bytes stay. -/
theorem getElem?_overwrite {j : Nat} (inside : i + bytes.length ≤ data.length)
    (outside : j < i ∨ i + bytes.length ≤ j) : (overwrite data i bytes)[j]? = data[j]? := by
  have front : (data.take i).length = i := by
    rw [List.length_take]
    omega
  cases outside with
  | inl before =>
      rw [overwrite, List.append_assoc, List.getElem?_append_left (by omega),
        List.getElem?_take_of_lt before]
  | inr behind =>
      have length : (data.take i ++ bytes).length = i + bytes.length := by
        rw [List.length_append, front]
      rw [overwrite, List.getElem?_append_right (by omega), length, List.getElem?_drop,
        Nat.add_sub_cancel' behind]

end Overwrite

end Bytes
