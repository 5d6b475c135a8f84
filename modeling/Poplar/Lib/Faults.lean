import Poplar.Lib.Effects

/-!
# Programs that never fail in one way

A program may fail in several ways. It spares one of them from the states with `P` if no run
from there ends in it; what the runs that return leave behind is carried along, so that the
parts of a sequence can be taken one at a time.
-/
namespace Effects

variable {σ ε α β : Type} {bad : ε}

/-- A computation does not fail with `bad`. -/
def Avoids (bad : ε) (x : Except ε α) : Prop := x ≠ .error bad

theorem Avoids.ok (a : α) : Avoids bad (.ok a : Except ε α) := by
  rintro ⟨⟩

theorem Avoids.error {other : ε} (differ : other ≠ bad) :
    Avoids bad (.error other : Except ε α) := by
  rintro ⟨⟩
  exact differ rfl

theorem Avoids.bind {x : Except ε α} {f : α → Except ε β} (first : Avoids bad x)
    (second : ∀ a, Avoids bad (f a)) : Avoids bad (x >>= f) := by
  cases x with
  | ok a => exact second a
  | error fault => exact Avoids.error fun same => first (congrArg Except.error same)

theorem bind_fails {fault : ε} {s : σ} {x : StateT σ (Except ε) α} {f : α → StateT σ (Except ε) β}
    (fails : x s = .error fault) : (x >>= f) s = .error fault := by
  simp only [Bind.bind, StateT.bind, fails, Except.bind]

/-- From a state with `P` a program does not fail with `bad`; where it returns, `Q` holds. -/
def Spares (bad : ε) (P : σ → Prop) (x : StateT σ (Except ε) α) (Q : α → σ → Prop) : Prop :=
  ∀ s, P s → Avoids bad (x s) ∧ ∀ a s', x s = .ok (a, s') → Q a s'

variable {P P' : σ → Prop} {x : StateT σ (Except ε) α} {f : α → StateT σ (Except ε) β}

theorem Spares.bind {Q : α → σ → Prop} {R : β → σ → Prop} (first : Spares bad P x Q)
    (second : ∀ a, Spares bad (Q a) (f a) R) : Spares bad P (x >>= f) R := by
  intro s before
  obtain ⟨avoids, leaves⟩ := first s before
  constructor
  · intro fails
    cases ran : x s with
    | ok result =>
        obtain ⟨a, m⟩ := result
        rw [bind_runs ran] at fails
        exact (second a m (leaves a m ran)).1 fails
    | error fault =>
        rw [bind_fails ran] at fails
        cases fails
        exact avoids ran
  · intro b s' runs
    obtain ⟨a, m, ran, rest⟩ := runs_bind runs
    exact (second a m (leaves a m ran)).2 b s' rest

theorem Spares.pure {Q : α → σ → Prop} {a : α} (keeps : ∀ s, P s → Q a s) :
    Spares bad P (Pure.pure a : StateT σ (Except ε) α) Q := by
  intro s before
  refine ⟨Avoids.ok _, fun b s' runs => ?_⟩
  obtain ⟨rfl, rfl⟩ := runs_pure runs
  exact keeps s' before

theorem Spares.mono {Q Q' : α → σ → Prop} (spares : Spares bad P x Q) (weaker : ∀ s, P' s → P s)
    (stronger : ∀ a s, Q a s → Q' a s) : Spares bad P' x Q' := by
  intro s before
  obtain ⟨avoids, leaves⟩ := spares s (weaker s before)
  exact ⟨avoids, fun a s' runs => stronger a s' (leaves a s' runs)⟩

/-- What is known of the states before and after every run that returns may be added. -/
theorem Spares.and {Q : α → σ → Prop} {R : σ → α → σ → Prop} {Q' : α → σ → Prop}
    (spares : Spares bad P x Q) (runs : ∀ s a s', x s = .ok (a, s') → R s a s')
    (joins : ∀ s a s', P s → Q a s' → R s a s' → Q' a s') : Spares bad P x Q' := by
  intro s before
  obtain ⟨avoids, leaves⟩ := spares s before
  exact ⟨avoids, fun a s' ran => joins s a s' before (leaves a s' ran) (runs s a s' ran)⟩

end Effects
