import Poplar.Lib.Effects

/-!
# Programs that keep a trace

A traced program does what a program does and writes down some of its acts. Without the
trace it is the program; what it adds to the trace is known from its parts.
-/
namespace Traces

variable {κ σ ε α β : Type}

abbrev Traced (κ σ ε α : Type) := StateT (List κ) (StateT σ (Except ε)) α

def act (k : κ) : Traced κ σ ε Unit := modify (· ++ [k])

/-- Whatever the trace so far, `x` returns what `y` returns. -/
def Erases (x : Traced κ σ ε α) (y : StateT σ (Except ε) α) : Prop :=
  ∀ trace s, (x trace s).map (fun result => (result.1.1, result.2)) = y s

/-- What `x`, run from `s`, adds to the trace is related by `R` to what it returns. -/
def Adds (x : Traced κ σ ε α) (s : σ) (R : α → List κ → σ → Prop) : Prop :=
  ∀ trace a trace' s', x trace s = .ok ((a, trace'), s') →
    ∃ acts, trace' = trace ++ acts ∧ R a acts s'

/-- The trace of a run that starts with an empty one; of a run that fails there is none. -/
def traceOf (x : Traced κ σ ε α) (s : σ) : List κ :=
  match x [] s with
  | .ok ((_, trace), _) => trace
  | .error _ => []

section Erasure

variable {x : Traced κ σ ε α} {y : StateT σ (Except ε) α} {f : α → Traced κ σ ε β}
variable {g : α → StateT σ (Except ε) β}

theorem traced_bind (trace : List κ) (s : σ) :
    (x >>= f) trace s = (x trace s >>= fun result => f result.1.1 result.1.2 result.2) := rfl

theorem traced_lift (trace : List κ) (s : σ) :
    (liftM y : Traced κ σ ε α) trace s = (y s >>= fun result => .ok ((result.1, trace), result.2)) :=
  rfl

theorem Erases.lift (y : StateT σ (Except ε) α) : Erases (liftM y : Traced κ σ ε α) y := by
  intro trace s
  rw [traced_lift]
  cases y s with
  | error e => rfl
  | ok result => rfl

theorem Erases.pure (a : α) : Erases (Pure.pure a : Traced κ σ ε α) (Pure.pure a) := by
  intro trace s
  rfl

theorem Erases.bind (first : Erases x y) (second : ∀ a, Erases (f a) (g a)) :
    Erases (x >>= f) (y >>= g) := by
  intro trace s
  rw [traced_bind, show (y >>= g) s = (y s >>= fun result => g result.1 result.2) from rfl,
    ← first trace s]
  cases x trace s with
  | error e => rfl
  | ok result => exact second result.1.1 result.1.2 result.2

/-- An act cannot be seen without the trace. -/
theorem Erases.acts (k : κ) {x : Traced κ σ ε α} (rest : Erases x y) :
    Erases (act k >>= fun _ => x) y := by
  intro trace s
  exact rest (trace ++ [k]) s

theorem Erases.ite {p : Prop} [Decidable p] {x' : Traced κ σ ε α} {y' : StateT σ (Except ε) α}
    (yes : Erases x y) (no : Erases x' y') :
    Erases (if p then x else x') (if p then y else y') := by
  split
  · exact yes
  · exact no

/-- A run of the program is a run with a trace. -/
theorem Erases.runs (erases : Erases x y) {s s' : σ} {a : α} (ran : y s = .ok (a, s')) :
    x [] s = .ok ((a, traceOf x s), s') := by
  have same := erases [] s
  rw [ran] at same
  unfold traceOf
  cases traced : x [] s with
  | error e =>
      rw [traced] at same
      cases same
  | ok result =>
      rw [traced] at same
      cases same
      rfl

end Erasure

section Added

variable {x : Traced κ σ ε α} {y : StateT σ (Except ε) α} {f : α → Traced κ σ ε β} {s : σ}
variable {R R' : α → List κ → σ → Prop} {S : β → List κ → σ → Prop}

theorem Adds.mono (adds : Adds x s R) (weaker : ∀ a acts s', R a acts s' → R' a acts s') :
    Adds x s R' := by
  intro trace a trace' s' runs
  obtain ⟨acts, grown, holds⟩ := adds trace a trace' s' runs
  exact ⟨acts, grown, weaker a acts s' holds⟩

theorem Adds.lift (known : ∀ a s', y s = .ok (a, s') → R a [] s') :
    Adds (liftM y : Traced κ σ ε α) s R := by
  intro trace a trace' s' runs
  rw [traced_lift] at runs
  cases ran : y s with
  | error e =>
      rw [ran] at runs
      cases runs
  | ok result =>
      rw [ran] at runs
      cases runs
      exact ⟨[], (List.append_nil trace).symm, known _ _ ran⟩

theorem Adds.pure {a : α} (holds : R a [] s) : Adds (Pure.pure a : Traced κ σ ε α) s R := by
  intro trace b trace' s' runs
  cases runs
  exact ⟨[], (List.append_nil trace).symm, holds⟩

theorem Adds.act {k : κ} {R : Unit → List κ → σ → Prop} (holds : R () [k] s) :
    Adds (Traces.act k : Traced κ σ ε Unit) s R := by
  intro trace u trace' s' runs
  cases runs
  exact ⟨[k], rfl, holds⟩

theorem Adds.bind (first : Adds x s R)
    (second : ∀ a acts m, R a acts m → Adds (f a) m fun b later s' => S b (acts ++ later) s') :
    Adds (x >>= f) s S := by
  intro trace b trace' s' runs
  rw [traced_bind] at runs
  cases ran : x trace s with
  | error e =>
      rw [ran] at runs
      cases runs
  | ok result =>
      obtain ⟨⟨a, mid⟩, m⟩ := result
      rw [ran] at runs
      obtain ⟨acts, grown, between⟩ := first trace a mid m ran
      obtain ⟨later, grown', after⟩ := second a acts m between mid b trace' s' runs
      refine ⟨acts ++ later, ?_, after⟩
      rw [grown', grown, List.append_assoc]

/-- A part without a trace only moves the state. -/
theorem Adds.step {f : α → Traced κ σ ε β} (rest : ∀ a m, y s = .ok (a, m) → Adds (f a) m S) :
    Adds (liftM y >>= f) s S := by
  intro trace b trace' s' runs
  rw [traced_bind, traced_lift] at runs
  cases ran : y s with
  | error e =>
      rw [ran] at runs
      cases runs
  | ok result =>
      rw [ran] at runs
      exact rest result.1 result.2 ran trace b trace' s' runs

/-- A run with a trace is a run of the program. -/
theorem Adds.erased (erases : Erases x y) (adds : Adds x s R) :
    Adds x s fun a acts s' => y s = .ok (a, s') ∧ R a acts s' := by
  intro trace a trace' s' runs
  obtain ⟨acts, grown, holds⟩ := adds trace a trace' s' runs
  have same := erases trace s
  rw [runs] at same
  exact ⟨acts, grown, same.symm, holds⟩

end Added

end Traces
