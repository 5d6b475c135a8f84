import Mathlib

/-!
# Draining a queue of blocks through partial writes

Each attempt offers the block in front. It takes all of it and the next block is
offered, or a part of it and the draining stops, or nothing is taken at all.
-/
namespace Drain

variable {α : Type}

/-- `took i` is what attempt `i` takes at most, absent when it fails. The result is what
was taken and the blocks left. -/
def drain (took : Nat → Option Nat) : Nat → List (List α) → List α × List (List α)
  | _, [] => ([], [])
  | i, block :: blocks =>
    match took i with
    | none => ([], block :: blocks)
    | some n =>
      if n < block.length then (block.take n, block.drop n :: blocks)
      else
        let (taken, left) := drain took (i + 1) blocks
        (block ++ taken, left)

variable {took : Nat → Option Nat} {i n : Nat} {block : List α} {blocks : List (List α)}

theorem drain_fails (fails : took i = none) (block : List α) (blocks : List (List α)) :
    drain took i (block :: blocks) = ([], block :: blocks) := by
  rw [drain, fails]

theorem drain_short (takes : took i = some n) (short : n < block.length) (blocks : List (List α)) :
    drain took i (block :: blocks) = (block.take n, block.drop n :: blocks) := by
  rw [drain, takes]
  exact if_pos short

theorem drain_whole (takes : took i = some n) (whole : ¬ n < block.length)
    (blocks : List (List α)) :
    drain took i (block :: blocks) =
      (block ++ (drain took (i + 1) blocks).1, (drain took (i + 1) blocks).2) := by
  rw [drain, takes]
  exact if_neg whole

/-- Nothing is lost, doubled or moved. -/
theorem drain_conserves (took : Nat → Option Nat) (i : Nat) (blocks : List (List α)) :
    (drain took i blocks).1 ++ (drain took i blocks).2.flatten = blocks.flatten := by
  induction blocks generalizing i with
  | nil => rfl
  | cons block blocks ih =>
      cases takes : took i with
      | none => rw [drain_fails takes, List.nil_append]
      | some n =>
          by_cases short : n < block.length
          · rw [drain_short takes short, List.flatten_cons, List.flatten_cons, ← List.append_assoc,
              List.take_append_drop]
          · rw [drain_whole takes short, List.append_assoc, ih (i + 1), List.flatten_cons]

end Drain
