import Poplar.Lib.Runs

/-!
# Being served

A measure that no command raises, and that each command of a kind lowers, bounds how many
commands of the kind a run takes until it brings a state about. The place in a waiting line
is such a measure.
-/
namespace Runs

variable {σ ι ε : Type} {sys : System σ ι ε}

/-- Each command of the run is admitted, and `Q` holds of it. -/
def System.Obeys (sys : System σ ι ε) (Q : σ → ι → Prop) : List ι → σ → Prop
  | [], _ => True
  | op :: ops, s => sys.guard s op ∧ Q s op ∧ ∀ s', sys.exec op s = .ok s' → sys.Obeys Q ops s'

/-- The run goes through a state of `P`. -/
def System.Meets (sys : System σ ι ε) (P : σ → Prop) : List ι → σ → Prop
  | [], s => P s
  | op :: ops, s => P s ∨ ∃ s', sys.exec op s = .ok s' ∧ sys.Meets P ops s'

/-- How many commands of the run are of the kind `C` where they are executed. -/
def System.tally (sys : System σ ι ε) (C : σ → ι → Prop) [∀ s op, Decidable (C s op)] :
    List ι → σ → Nat
  | [], _ => 0
  | op :: ops, s => (if C s op then 1 else 0) +
    match sys.exec op s with
    | .ok s' => sys.tally C ops s'
    | .error _ => 0

/-- A run that a test lets pass to its end. -/
theorem System.Obeys.of_replay {Q : σ → ι → Prop} {admits : σ → ι → Bool}
    (rules : ∀ s op, admits s op = true → sys.guard s op ∧ Q s op) {ops : List ι} {s s' : σ}
    (replayed : sys.replay admits id ops s = some s') : sys.Obeys Q ops s := by
  induction ops generalizing s with
  | nil => trivial
  | cons op ops ih =>
    rw [System.replay] at replayed
    split at replayed
    · next admitted =>
      obtain ⟨guarded, quiet⟩ := rules s op admitted
      refine ⟨guarded, quiet, ?_⟩
      intro mid ran
      apply ih
      simpa only [id, ran] using replayed
    · cases replayed

theorem System.meets_start {P : σ → Prop} (ops : List ι) {s : σ} (here : P s) :
    sys.Meets P ops s := by
  cases ops with
  | nil => exact here
  | cons op ops => exact .inl here

theorem System.meets_of_measure {I P : σ → Prop} {Q C : σ → ι → Prop}
    [∀ s op, Decidable (C s op)] (place : σ → Nat)
    (runs : ∀ s op, I s → sys.guard s op → ∃ s', sys.exec op s = .ok s')
    (keep : ∀ s op s', I s → sys.guard s op → Q s op → sys.exec op s = .ok s' →
      P s' ∨ (I s' ∧ place s' + (if C s op then 1 else 0) ≤ place s))
    {ops : List ι} {s : σ} (holds : I s) (obeys : sys.Obeys Q ops s)
    (often : place s < sys.tally C ops s) : sys.Meets P ops s := by
  induction ops generalizing s with
  | nil => exact absurd often (Nat.not_lt_zero _)
  | cons op ops ih =>
    obtain ⟨guarded, quiet, later⟩ := obeys
    obtain ⟨s', ran⟩ := runs s op holds guarded
    right
    refine ⟨s', ran, ?_⟩
    rcases keep s op s' holds guarded quiet ran with served | ⟨holds', lower⟩
    · exact System.meets_start ops served
    · rw [System.tally, ran] at often
      apply ih holds' (later s' ran)
      dsimp only at often
      omega

end Runs

/-! ## Places in a line -/

namespace Line

variable {α : Type} [DecidableEq α] {a : α} {xs ys : List α}

theorem place_sublist (sublist : xs.Sublist ys) (nodup : ys.Nodup) (member : a ∈ xs) :
    xs.idxOf a ≤ ys.idxOf a := by
  induction sublist with
  | slnil => exact Nat.le_refl _
  | cons b sublist ih =>
    obtain ⟨fresh, others⟩ := List.nodup_cons.mp nodup
    have different : b ≠ a := fun same => fresh (same ▸ sublist.subset member)
    rw [List.idxOf_cons_ne _ different]
    exact Nat.le_succ_of_le (ih others member)
  | cons_cons b sublist ih =>
    obtain ⟨-, others⟩ := List.nodup_cons.mp nodup
    by_cases same : b = a
    · subst same
      rw [List.idxOf_cons_self]
      exact Nat.zero_le _
    · rw [List.idxOf_cons_ne _ same, List.idxOf_cons_ne _ same]
      exact Nat.succ_le_succ (ih others ((List.mem_cons.mp member).resolve_left (Ne.symm same)))

/-- Behind the first, everyone comes one forward. -/
theorem place_tail (nodup : xs.Nodup) (member : a ∈ xs.tail) :
    xs.tail.idxOf a + 1 = xs.idxOf a := by
  cases xs with
  | nil => cases member
  | cons b xs =>
    have different : b ≠ a := fun same => (List.nodup_cons.mp nodup).1 (same ▸ member)
    rw [List.idxOf_cons_ne _ different]
    rfl

/-- A newcomer that passes nobody up to `a` leaves the place of `a`. -/
theorem place_orderedInsert {R : α → α → Prop} [DecidableRel R] {x : α} (member : a ∈ xs)
    (behind : ∀ b ∈ xs.take (xs.idxOf a + 1), ¬ R x b) :
    (xs.orderedInsert R x).idxOf a = xs.idxOf a := by
  induction xs with
  | nil => cases member
  | cons b xs ih =>
    have first : ¬ R x b := behind b (by rw [List.take_succ_cons]; exact List.mem_cons_self)
    rw [List.orderedInsert_cons, if_neg first]
    by_cases same : b = a
    · subst same
      rw [List.idxOf_cons_self, List.idxOf_cons_self]
    · rw [List.idxOf_cons_ne _ same] at behind
      rw [List.idxOf_cons_ne _ same, List.idxOf_cons_ne _ same,
        ih ((List.mem_cons.mp member).resolve_left (Ne.symm same))]
      intro c early
      apply behind c
      rw [List.take_succ_cons]
      exact List.mem_cons_of_mem b early

/-- In a sorted line those up to `a` are `a` or before it. -/
theorem upto_sorted {R : α → α → Prop} (sorted : xs.Pairwise R) (member : a ∈ xs) :
    ∀ b ∈ xs.take (xs.idxOf a + 1), b = a ∨ R b a := by
  induction xs with
  | nil => cases member
  | cons c xs ih =>
    obtain ⟨first, rest⟩ := List.pairwise_cons.mp sorted
    intro b early
    rw [List.take_succ_cons] at early
    by_cases same : c = a
    · subst same
      rw [List.idxOf_cons_self, List.take_zero] at early
      exact .inl (List.mem_singleton.mp early)
    · have later := (List.mem_cons.mp member).resolve_left (Ne.symm same)
      rw [List.idxOf_cons_ne _ same] at early
      rcases List.mem_cons.mp early with own | among
      · exact .inr (own ▸ first a later)
      · exact ih rest later b among

end Line
