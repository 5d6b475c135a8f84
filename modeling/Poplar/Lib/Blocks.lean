import Mathlib

/-!
# Messages cut into blocks

A message is taken in symbol by symbol: those that are no whole block yet wait, and each
whole block goes into the state.
-/
namespace Blocks

variable {α σ : Type*} {n : Nat}

/-- The whole blocks of `n` symbols at the front of a message. -/
def whole (n : Nat) (l : List α) : List (List α) :=
  (List.range (l.length / n)).map fun k => (l.drop (n * k)).take n

/-- What stands behind the whole blocks. -/
def left (n : Nat) (l : List α) : List α := l.drop (n * (l.length / n))

theorem left_length (l : List α) : (left n l).length = l.length % n := by
  have cut := Nat.div_add_mod l.length n
  unfold left
  rw [List.length_drop]
  omega

theorem left_length_lt (positive : 0 < n) (l : List α) : (left n l).length < n := by
  rw [left_length]
  exact Nat.mod_lt _ positive

/-- The blocks that are whole already stay as they are. -/
theorem whole_extend (l m : List α) :
    (List.range (l.length / n)).map (fun k => ((l ++ m).drop (n * k)).take n) = whole n l := by
  apply List.map_congr_left
  intro k within
  have below : k + 1 ≤ l.length / n := List.mem_range.mp within
  have inside : n * (k + 1) ≤ l.length := (Nat.mul_le_mul_left n below).trans (Nat.mul_div_le _ _)
  rw [Nat.mul_succ] at inside
  rw [List.drop_append_of_le_length (by omega), List.take_append_of_le_length]
  rw [List.length_drop]
  omega

section Concat

variable {l : List α} {a : α}

theorem length_concat : (l ++ [a]).length = n * (l.length / n) + ((left n l).length + 1) := by
  have cut := Nat.div_add_mod l.length n
  rw [left_length, List.length_append, List.length_singleton]
  omega

theorem length_concat_full (full : (left n l).length + 1 = n) :
    (l ++ [a]).length = n * (l.length / n + 1) := by
  rw [length_concat, full, Nat.mul_succ]

theorem div_concat_open (positive : 0 < n) (room : (left n l).length + 1 ≠ n) :
    (l ++ [a]).length / n = l.length / n := by
  have short := left_length_lt positive l
  have none : ((left n l).length + 1) / n = 0 := Nat.div_eq_of_lt (by omega)
  rw [length_concat, Nat.mul_add_div positive, none, Nat.add_zero]

theorem left_append : (l ++ [a]).drop (n * (l.length / n)) = left n l ++ [a] :=
  List.drop_append_of_le_length (Nat.mul_div_le l.length n)

theorem whole_concat_full (positive : 0 < n) (full : (left n l).length + 1 = n) :
    whole n (l ++ [a]) = whole n l ++ [left n l ++ [a]] ∧ left n (l ++ [a]) = [] := by
  have total := length_concat_full (a := a) full
  have one : (l ++ [a]).length / n = l.length / n + 1 := by
    rw [total, Nat.mul_div_cancel_left _ positive]
  have last : ((l ++ [a]).drop (n * (l.length / n))).take n = left n l ++ [a] := by
    rw [left_append, List.take_of_length_le]
    rw [List.length_append, List.length_singleton, full]
  constructor
  · unfold whole
    rw [one, List.range_succ, List.map_append, whole_extend, List.map_singleton, last]
    rfl
  · rw [left, one, ← total, List.drop_length]

theorem whole_concat_open (positive : 0 < n) (room : (left n l).length + 1 ≠ n) :
    whole n (l ++ [a]) = whole n l ∧ left n (l ++ [a]) = left n l ++ [a] := by
  have same := div_concat_open (a := a) positive room
  constructor
  · unfold whole
    rw [same, whole_extend]
    rfl
  · rw [left, same, left_append]

end Concat

/-- One more symbol: it joins those that wait, and a whole block is taken in. -/
def push (n : Nat) (absorb : σ → List α → σ) (s : σ × List α) (a : α) : σ × List α :=
  if s.2.length + 1 = n then (absorb s.1 (s.2 ++ [a]), []) else (s.1, s.2 ++ [a])

variable {absorb : σ → List α → σ}

/-- Symbol by symbol is block by block, and what makes no block waits. -/
theorem foldl_push (positive : 0 < n) (s : σ) (l : List α) :
    l.foldl (push n absorb) (s, []) = ((whole n l).foldl absorb s, left n l) := by
  induction l using List.reverseRecOn with
  | nil => simp [whole, left]
  | append_singleton l a ih =>
    rw [List.foldl_append, ih, List.foldl_cons, List.foldl_nil]
    by_cases full : (left n l).length + 1 = n
    · obtain ⟨blocks, none⟩ := whole_concat_full (a := a) positive full
      rw [push, if_pos full, blocks, none, List.foldl_append]
      rfl
    · obtain ⟨blocks, more⟩ := whole_concat_open (a := a) positive full
      rw [push, if_neg full, blocks, more]

/-- Symbols that fill the block up. -/
theorem foldl_push_fill (s : σ) (waiting l : List α) (some : l ≠ [])
    (fills : waiting.length + l.length = n) :
    l.foldl (push n absorb) (s, waiting) = (absorb s (waiting ++ l), []) := by
  induction l generalizing waiting with
  | nil => exact absurd rfl some
  | cons a l ih =>
    rw [List.foldl_cons, push]
    dsimp only
    cases l with
    | nil =>
      rw [List.length_singleton] at fills
      rw [if_pos fills, List.foldl_nil]
    | cons b l =>
      rw [List.length_cons, List.length_cons] at fills
      have early : waiting.length + 1 ≠ n := by omega
      rw [if_neg early, ih _ (List.cons_ne_nil _ _), ← List.append_cons]
      rw [List.length_append, List.length_singleton, List.length_cons]
      omega

/-- Taking something in loses nothing if no single step does. -/
theorem bijective_foldl {β : Type*} {f : σ → β → σ} (l : List β)
    (each : ∀ b ∈ l, Function.Bijective fun s => f s b) :
    Function.Bijective fun s => l.foldl f s := by
  induction l with
  | nil => exact Function.bijective_id
  | cons b l ih =>
    obtain ⟨first, others⟩ := List.forall_mem_cons.mp each
    exact (ih others).comp first

end Blocks
