import Mathlib

/-!
# Ways a run of the daemon stops being defined
-/
namespace Poplar

/-- What ends a C computation other than by returning. -/
inductive Fault where
  /-- an `assert` fails, or the code calls `abort` itself -/
  | assertFail
  /-- an access outside the object it is made through -/
  | outOfObject
  /-- an access to an object that was freed -/
  | useAfterFree
  /-- a loop that never ends -/
  | diverge
  /-- an object of the caller is entered in the lists of the event engine -/
  | strayNode
  deriving DecidableEq, Repr

variable {α β : Type}

@[simp] theorem ok_bind (a : α) (f : α → Except Fault β) : (Except.ok a >>= f) = f a := rfl

@[simp] theorem error_bind (fault : Fault) (f : α → Except Fault β) :
    ((Except.error fault : Except Fault α) >>= f) = .error fault := rfl

theorem bind_eq_ok {x : Except Fault α} {f : α → Except Fault β} {b : β}
    (returns : (x >>= f) = .ok b) : ∃ a, x = .ok a ∧ f a = .ok b := by
  cases x with
  | error fault => cases returns
  | ok a => exact ⟨a, rfl, returns⟩

theorem toOption_some {x : Except Fault α} {a : α} (same : x.toOption = some a) : x = .ok a := by
  cases x with
  | error fault => cases same
  | ok b => exact congrArg Except.ok (Option.some.inj same)

theorem pure_ok (a : α) : (pure a : Except Fault α) = .ok a := rfl

end Poplar
