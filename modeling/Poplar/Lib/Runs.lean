import Mathlib

/-!
# Runs of a guarded system

A system executes one command at a time; a guard says which commands its
environment may issue in which states, and a command may fail.
-/
namespace Runs

variable {σ ι ε : Type}

structure System (σ ι ε : Type) where
  start : σ → Prop
  guard : σ → ι → Prop
  exec : ι → σ → Except ε σ

inductive System.Reachable (sys : System σ ι ε) : σ → Prop
  | start {s : σ} : sys.start s → sys.Reachable s
  | step {s s' : σ} {op : ι} : sys.Reachable s → sys.guard s op → sys.exec op s = .ok s' →
      sys.Reachable s'

/-- What holds at the start and survives each guarded command holds in every run. -/
theorem System.Reachable.invariant {sys : System σ ι ε} {motive : σ → Prop}
    (base : ∀ s, sys.start s → motive s)
    (keep : ∀ s op s', motive s → sys.guard s op → sys.exec op s = .ok s' → motive s')
    {s : σ} (reachable : sys.Reachable s) : motive s := by
  induction reachable with
  | start starts => exact base _ starts
  | step _ guarded executes ih => exact keep _ _ _ ih guarded executes

/-- Execute commands in turn as long as they succeed and `admits` lets them pass. A
command may come with a hint that `admits` needs and the system does not. -/
def System.replay {κ : Type} (sys : System σ ι ε) (admits : σ → κ → Bool) (op : κ → ι) :
    List κ → σ → Option σ
  | [], s => some s
  | k :: ks, s =>
    if admits s k then
      match sys.exec (op k) s with
      | .ok s' => sys.replay admits op ks s'
      | .error _ => none
    else none

theorem System.Reachable.replay {κ : Type} {sys : System σ ι ε} {admits : σ → κ → Bool}
    {op : κ → ι} (guards : ∀ s k, admits s k = true → sys.guard s (op k)) {ks : List κ} {s s' : σ}
    (reachable : sys.Reachable s) (replayed : sys.replay admits op ks s = some s') :
    sys.Reachable s' := by
  induction ks generalizing s with
  | nil => exact Option.some.inj replayed ▸ reachable
  | cons k ks ih =>
      unfold System.replay at replayed
      split at replayed
      next admitted =>
        cases executes : sys.exec (op k) s with
        | ok mid =>
            rw [executes] at replayed
            exact ih (.step reachable (guards s k admitted) executes) replayed
        | error fault => simp [executes] at replayed
      next => cases replayed

theorem System.replay_append {κ : Type} (sys : System σ ι ε) (admits : σ → κ → Bool) (op : κ → ι)
    (ks more : List κ) (s : σ) :
    sys.replay admits op (ks ++ more) s =
      (sys.replay admits op ks s).bind (sys.replay admits op more) := by
  induction ks generalizing s with
  | nil => rfl
  | cons k ks ih =>
      rw [List.cons_append, System.replay, System.replay]
      split
      · cases sys.exec (op k) s with
        | ok mid => exact ih mid
        | error fault => rfl
      · rfl

/-- `P` holds of each state a run that executes `ops` goes through. -/
def System.Every (sys : System σ ι ε) (P : σ → Prop) : List ι → σ → Prop
  | [], s => P s
  | op :: ops, s => P s ∧ ∀ s', sys.guard s op → sys.exec op s = .ok s' → sys.Every P ops s'

/-- `Q` holds of each command of a run that executes `ops`, in the state that finds it. -/
def System.Each (sys : System σ ι ε) (Q : σ → ι → Prop) : List ι → σ → Prop
  | [], _ => True
  | op :: ops, s => ∀ s', sys.guard s op → sys.exec op s = .ok s' → Q s op ∧ sys.Each Q ops s'

theorem System.Every.start {sys : System σ ι ε} {P : σ → Prop} {ops : List ι} {s : σ}
    (every : sys.Every P ops s) : P s := by
  cases ops with
  | nil => exact every
  | cons => exact every.1

theorem System.Every.replay {κ : Type} {sys : System σ ι ε} {P : σ → Prop} {admits : σ → κ → Bool}
    {op : κ → ι} (guards : ∀ s k, admits s k = true → sys.guard s (op k)) {ks : List κ} {s s' : σ}
    (every : sys.Every P (ks.map op) s) (replayed : sys.replay admits op ks s = some s') : P s' := by
  induction ks generalizing s with
  | nil => exact Option.some.inj replayed ▸ every
  | cons k ks ih =>
      rw [System.replay] at replayed
      split at replayed
      next admitted =>
        cases executes : sys.exec (op k) s with
        | ok mid =>
            rw [executes] at replayed
            exact ih (every.2 mid (guards s k admitted) executes) replayed
        | error fault => simp [executes] at replayed
      next => cases replayed

/-- What is the same of every command executed is the same of whole runs. -/
theorem System.each_iff {sys : System σ ι ε} {Q Q' : σ → ι → Prop}
    (same : ∀ s op s', sys.guard s op → sys.exec op s = .ok s' → (Q s op ↔ Q' s op))
    (ops : List ι) (s : σ) : sys.Each Q ops s ↔ sys.Each Q' ops s := by
  induction ops generalizing s with
  | nil => exact Iff.rfl
  | cons op ops ih =>
      constructor
      · intro each s' guarded ran
        obtain ⟨here, later⟩ := each s' guarded ran
        exact ⟨(same s op s' guarded ran).mp here, (ih s').mp later⟩
      · intro each s' guarded ran
        obtain ⟨here, later⟩ := each s' guarded ran
        exact ⟨(same s op s' guarded ran).mpr here, (ih s').mpr later⟩

/-- Where one command keeps `P` exactly if `Q` holds of it, whole runs do. -/
theorem System.Reachable.every_iff {sys : System σ ι ε} {P : σ → Prop} {Q : σ → ι → Prop}
    (exact : ∀ s op s', sys.Reachable s → P s → sys.guard s op → sys.exec op s = .ok s' →
      (P s' ↔ Q s op))
    {s : σ} (reachable : sys.Reachable s) (holds : P s) (ops : List ι) :
    sys.Every P ops s ↔ sys.Each Q ops s := by
  induction ops generalizing s with
  | nil => exact iff_of_true holds trivial
  | cons op ops ih =>
      constructor
      · rintro ⟨_, every⟩ s' guarded ran
        have later := every s' guarded ran
        have kept := later.start
        refine ⟨(exact s op s' reachable holds guarded ran).mp kept, ?_⟩
        exact (ih (reachable.step guarded ran) kept).mp later
      · intro each
        refine ⟨holds, fun s' guarded ran => ?_⟩
        obtain ⟨here, later⟩ := each s' guarded ran
        have kept := (exact s op s' reachable holds guarded ran).mpr here
        exact (ih (reachable.step guarded ran) kept).mpr later

/-- Where `Q` keeps an invariant, what the invariant shows holds all along. -/
theorem System.every_of_each {sys : System σ ι ε} {I P : σ → Prop} {Q : σ → ι → Prop}
    (shows : ∀ s, I s → P s)
    (keep : ∀ s op s', I s → sys.guard s op → Q s op → sys.exec op s = .ok s' → I s')
    {s : σ} (holds : I s) {ops : List ι} (each : sys.Each Q ops s) : sys.Every P ops s := by
  induction ops generalizing s with
  | nil => exact shows s holds
  | cons op ops ih =>
      constructor
      · exact shows s holds
      · intro s' guarded ran
        obtain ⟨here, later⟩ := each s' guarded ran
        exact ih (keep s op s' holds guarded here ran) later

/-- Where `P` and `P'` are the same in the states of an invariant, runs that keep it do not tell
them apart. -/
theorem System.every_congr {sys : System σ ι ε} {I P P' : σ → Prop} {Q : σ → ι → Prop}
    (same : ∀ s, I s → (P s ↔ P' s))
    (keep : ∀ s op s', I s → sys.guard s op → Q s op → sys.exec op s = .ok s' → I s')
    {s : σ} (holds : I s) {ops : List ι} (each : sys.Each Q ops s) :
    sys.Every P ops s ↔ sys.Every P' ops s := by
  induction ops generalizing s with
  | nil => exact same s holds
  | cons op ops ih =>
      refine and_congr (same s holds) ?_
      refine forall_congr' fun s' => forall_congr' fun guarded => forall_congr' fun ran => ?_
      obtain ⟨here, later⟩ := each s' guarded ran
      exact ih (keep s op s' holds guarded here ran) later

/-- Execute `ops` and test the states passed, and the commands where they are executed. -/
def System.tested (sys : System σ ι ε) (p : σ → Bool) (q : σ → ι → Bool) : List ι → σ → Bool
  | [], s => p s
  | op :: ops, s => p s &&
    match sys.exec op s with
    | .ok s' => q s op && sys.tested p q ops s'
    | .error _ => true

theorem System.of_tested {sys : System σ ι ε} {P : σ → Prop} {Q : σ → ι → Prop} {p : σ → Bool}
    {q : σ → ι → Bool} (state : ∀ s, p s = true → P s) (command : ∀ s op, q s op = true → Q s op)
    {ops : List ι} {s : σ} (tested : sys.tested p q ops s = true) :
    sys.Every P ops s ∧ sys.Each Q ops s := by
  induction ops generalizing s with
  | nil => exact ⟨state s tested, trivial⟩
  | cons op ops ih =>
      rw [System.tested, Bool.and_eq_true] at tested
      obtain ⟨here, later⟩ := tested
      refine ⟨⟨state s here, fun s' _ ran => ?_⟩, fun s' _ ran => ?_⟩
      · rw [ran, Bool.and_eq_true] at later
        exact (ih later.2).1
      · rw [ran, Bool.and_eq_true] at later
        exact ⟨command s op later.1, (ih later.2).2⟩

/-- `Q` holds of each command issued, also of one that fails. -/
def System.Throughout (sys : System σ ι ε) (Q : σ → ι → Prop) : List ι → σ → Prop
  | [], _ => True
  | op :: ops, s => sys.guard s op →
      Q s op ∧ ∀ s', sys.exec op s = .ok s' → sys.Throughout Q ops s'

/-- Where `R` is the same as `Q` in the states of an invariant and keeps it, so it is in whole runs. -/
theorem System.throughout_iff {sys : System σ ι ε} {I : σ → Prop} {R Q : σ → ι → Prop}
    (exact : ∀ s op, I s → sys.guard s op → (R s op ↔ Q s op))
    (keep : ∀ s op s', I s → sys.guard s op → R s op → sys.exec op s = .ok s' → I s')
    {s : σ} (holds : I s) (ops : List ι) : sys.Throughout R ops s ↔ sys.Throughout Q ops s := by
  induction ops generalizing s with
  | nil => exact Iff.rfl
  | cons op ops ih =>
      constructor
      · intro run guarded
        obtain ⟨right, later⟩ := run guarded
        refine ⟨(exact s op holds guarded).mp right, fun s' ran => ?_⟩
        exact (ih (keep s op s' holds guarded right ran)).mp (later s' ran)
      · intro run guarded
        obtain ⟨careful, later⟩ := run guarded
        have right := (exact s op holds guarded).mpr careful
        refine ⟨right, fun s' ran => ?_⟩
        exact (ih (keep s op s' holds guarded right ran)).mpr (later s' ran)

end Runs
