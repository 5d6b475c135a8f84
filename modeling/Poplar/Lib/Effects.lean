import Mathlib

/-!
# Effects of failing stateful programs on a view of the state

A program runs over a state and may fail. An effect relates what can be seen of the
state before and after each of its successful runs, and the result. The run of a
sequence comes apart into runs of its parts.
-/
namespace Effects

variable {σ ε τ α β : Type}

/-- A program that returns relates the views of its two states and its result by `R`. -/
def Effect (view : σ → τ) (x : StateT σ (Except ε) α) (R : τ → α → τ → Prop) : Prop :=
  ∀ s a s', x s = .ok (a, s') → R (view s) a (view s')

/-- Nothing that can be seen changes. -/
abbrev Still (view : σ → τ) (x : StateT σ (Except ε) α) : Prop :=
  Effect view x fun v _ v' => v' = v

variable {x : StateT σ (Except ε) α} {f : α → StateT σ (Except ε) β} {s s' : σ} {a : α} {b : β}

theorem runs_bind (runs : (x >>= f) s = .ok (b, s')) :
    ∃ a m, x s = .ok (a, m) ∧ f a m = .ok (b, s') := by
  simp only [Bind.bind, StateT.bind] at runs
  cases ran : x s with
  | error fault => simp [ran, Except.bind] at runs
  | ok result =>
      obtain ⟨a, m⟩ := result
      simp only [ran, Except.bind] at runs
      exact ⟨a, m, rfl, runs⟩

theorem bind_runs (ran : x s = .ok (a, s')) : (x >>= f) s = f a s' := by
  simp only [Bind.bind, StateT.bind, ran, Except.bind]

/-- From a state with `P` a program returns, with `Q` of its result and the state then. -/
def Returns (P : σ → Prop) (x : StateT σ (Except ε) α) (Q : α → σ → Prop) : Prop :=
  ∀ s, P s → ∃ a s', x s = .ok (a, s') ∧ Q a s'

theorem Returns.bind {P : σ → Prop} {Q : α → σ → Prop} {R : β → σ → Prop} (first : Returns P x Q)
    (second : ∀ a, Returns (Q a) (f a) R) : Returns P (x >>= f) R := by
  intro s before
  obtain ⟨a, m, ran, between⟩ := first s before
  obtain ⟨b, s', ran', after⟩ := second a m between
  exact ⟨b, s', (bind_runs ran).trans ran', after⟩

theorem Returns.pure {P : σ → Prop} {Q : α → σ → Prop} {a : α} (keeps : ∀ s, P s → Q a s) :
    Returns P (Pure.pure a : StateT σ (Except ε) α) Q := by
  intro s before
  exact ⟨a, s, rfl, keeps s before⟩

theorem runs_pure (runs : (Pure.pure a : StateT σ (Except ε) α) s = .ok (a', s')) :
    a' = a ∧ s' = s := by
  cases runs
  exact ⟨rfl, rfl⟩

theorem runs_modify {g : σ → σ} {u : PUnit}
    (runs : (modify g : StateT σ (Except ε) PUnit) s = .ok (u, s')) : s' = g s := by
  cases runs
  rfl

theorem runs_get (runs : (get : StateT σ (Except ε) σ) s = .ok (m, s')) : m = s ∧ s' = s := by
  cases runs
  exact ⟨rfl, rfl⟩

theorem Still.bind {view : σ → τ} {S : τ → β → τ → Prop} (first : Still view x)
    (second : ∀ a, Effect view (f a) S) : Effect view (x >>= f) S := by
  intro s b s' runs
  obtain ⟨a, m, ran, runs⟩ := runs_bind runs
  exact first s a m ran ▸ second a m b s' runs

theorem Still.within {view : σ → τ} {R : τ → τ → Prop} (refl : ∀ v, R v v) (still : Still view x) :
    Effect view x fun v _ v' => R v v' := by
  intro s a s' runs
  exact still s a s' runs ▸ refl _

theorem Still.pure {view : σ → τ} (a : α) :
    Still view (Pure.pure a : StateT σ (Except ε) α) := by
  intro s b s' runs
  rw [(runs_pure runs).2]

end Effects
