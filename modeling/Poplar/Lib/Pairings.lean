import Mathlib

/-!
# Pairings

A partner function sends some elements to a partner. It is a pairing when being
somebody's partner is mutual. Two elements without a partner may be joined, and a pair
may be cancelled from either side.
-/
namespace Pairings

variable {α : Type} [DecidableEq α] {m : α → Option α} {a b x y : α}

def Mutual (m : α → Option α) : Prop := ∀ a b, m a = some b → m b = some a

def join (m : α → Option α) (a b : α) : α → Option α :=
  Function.update (Function.update m a (some b)) b (some a)

def clear (m : α → Option α) (a : α) : α → Option α := Function.update m a none

/-- The partner of `a` loses its partner too, whoever that was. -/
def cancel (m : α → Option α) (a : α) : α → Option α :=
  match m a with
  | some b => clear (clear m b) a
  | none => clear m a

theorem clear_some : clear m a x = some y ↔ x ≠ a ∧ m x = some y := by
  by_cases here : x = a
  · simp [clear, here]
  · simp [clear, here]

theorem cancel_some : cancel m a x = some y ↔ x ≠ a ∧ m a ≠ some x ∧ m x = some y := by
  unfold cancel
  cases partner : m a with
  | none => simp [clear_some]
  | some b => simp only [clear_some, ne_eq, Option.some.injEq, eq_comm (a := b)]

theorem join_some : join m a b x = some y ↔
    (x = b ∧ y = a) ∨ (x ≠ b ∧ x = a ∧ y = b) ∨ (x ≠ b ∧ x ≠ a ∧ m x = some y) := by
  unfold join
  by_cases isB : x = b
  · simp [isB, eq_comm]
  · rw [Function.update_of_ne isB]
    by_cases isA : x = a
    · subst isA
      simp [isB, eq_comm]
    · simp [isA, isB]

theorem cancel_self : cancel m a a = none := by
  cases cancelled : cancel m a a with
  | none => rfl
  | some b => exact absurd rfl (cancel_some.mp cancelled).1

omit [DecidableEq α] in
theorem Mutual.none : Mutual fun _ : α => none := fun _ _ partner => by cases partner

theorem Mutual.cancel (partners : Mutual m) (a : α) : Mutual (cancel m a) := by
  intro x y partner
  obtain ⟨other, notPartner, paired⟩ := cancel_some.mp partner
  have back := partners x y paired
  refine cancel_some.mpr ⟨?_, ?_, back⟩
  · rintro rfl
    exact notPartner back
  · intro partnerOfA
    have same := (partners a y partnerOfA).symm.trans back
    exact other (Option.some.inj same).symm

/-- Joining two elements that have no partner keeps the others mutual. -/
theorem Mutual.join (partners : Mutual m) (freeA : m a = .none) (freeB : m b = .none) :
    Mutual (join m a b) := by
  have nobody (c : α) (free : m c = .none) (x : α) : m x ≠ some c := by
    intro partner
    rw [partners x c partner] at free
    cases free
  intro x y partner
  obtain ⟨rfl, rfl⟩ | ⟨_, rfl, rfl⟩ | ⟨notB, notA, paired⟩ := join_some.mp partner
  · by_cases same : y = x
    · exact join_some.mpr (.inl ⟨same, same.symm⟩)
    · exact join_some.mpr (.inr (.inl ⟨same, rfl, rfl⟩))
  · exact join_some.mpr (.inl ⟨rfl, rfl⟩)
  · refine join_some.mpr (.inr (.inr ⟨?_, ?_, partners x y paired⟩))
    · rintro rfl
      exact nobody y freeB x paired
    · rintro rfl
      exact nobody y freeA x paired

/-- Taking away an element nobody is paired with. -/
theorem Mutual.clear (partners : Mutual m) (free : m a = .none) : Mutual (clear m a) := by
  intro x y partner
  obtain ⟨_, paired⟩ := clear_some.mp partner
  refine clear_some.mpr ⟨?_, partners x y paired⟩
  rintro rfl
  rw [partners x y paired] at free
  cases free

end Pairings
