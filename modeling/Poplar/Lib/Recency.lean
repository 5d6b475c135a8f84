import Mathlib

/-!
# Keys in the order of their last use

A queue that lists keys by the time they were last used, the oldest use first. What
takes keys away keeps the order; a key that is used goes behind all others.
-/
namespace Recency

variable {κ : Type} {lastUse : κ → Nat} {now : Nat} {keys keys' : List κ}

structure Ordered (lastUse : κ → Nat) (now : Nat) (keys : List κ) : Prop where
  order : keys.Pairwise fun a b => lastUse a < lastUse b
  past : ∀ a ∈ keys, lastUse a < now

theorem Ordered.nil (lastUse : κ → Nat) (now : Nat) : Ordered lastUse now ([] : List κ) := by
  constructor
  · exact List.Pairwise.nil
  · intro a member
    cases member

theorem Ordered.sublist (ordered : Ordered lastUse now keys) (fewer : keys'.Sublist keys) :
    Ordered lastUse now keys' := by
  constructor
  · exact ordered.order.sublist fewer
  · intro a member
    exact ordered.past a (fewer.mem member)

theorem Ordered.later (ordered : Ordered lastUse now keys) : Ordered lastUse (now + 1) keys := by
  constructor
  · exact ordered.order
  · intro a member
    exact Nat.lt_succ_of_lt (ordered.past a member)

/-- A key that is used becomes the last. -/
theorem Ordered.use [DecidableEq κ] (ordered : Ordered lastUse now keys) {a : κ} (absent : a ∉ keys) :
    Ordered (Function.update lastUse a now) (now + 1) (keys ++ [a]) := by
  have still : ∀ b ∈ keys, Function.update lastUse a now b = lastUse b := by
    intro b member
    apply Function.update_of_ne
    rintro rfl
    exact absent member
  constructor
  · apply List.pairwise_append.mpr
    refine ⟨?_, List.pairwise_singleton _ a, ?_⟩
    · apply ordered.order.imp_of_mem
      intro b c inB inC before
      rw [still b inB, still c inC]
      exact before
    · intro b member c last
      rw [List.mem_singleton.mp last, still b member, Function.update_self]
      exact ordered.past b member
  · intro b member
    rcases List.mem_append.mp member with old | last
    · rw [still b old]
      exact Nat.lt_succ_of_lt (ordered.past b old)
    · rw [List.mem_singleton.mp last, Function.update_self]
      exact Nat.lt_succ_self now

/-- The keys in front were all used before those behind. -/
theorem Ordered.cut (ordered : Ordered lastUse now keys) (n : Nat) :
    ∀ a ∈ keys.take n, ∀ b ∈ keys.drop n, lastUse a < lastUse b := by
  have order := ordered.order
  rw [← List.take_append_drop n keys] at order
  exact (List.pairwise_append.mp order).2.2

end Recency
