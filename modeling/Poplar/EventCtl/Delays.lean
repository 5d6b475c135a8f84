import Poplar.EventCtl.Partition

/-!
# The expiries of timers

The four adders differ in the unit of the delay and in the type of the node. The two loops of
`timespec_adjust` keep the value, and what is negative becomes 0.
-/
namespace Poplar.EventCtl

def nanos (t : Timespec) : Int := t.tvSec * TIMER_SECOND_MICRO + t.tvNsec

structure Timespec.Normal (t : Timespec) : Prop where
  sec : 0 ≤ t.tvSec
  nonneg : 0 ≤ t.tvNsec
  below : t.tvNsec < TIMER_SECOND_MICRO

/-! ## The two loops -/

section Loops

variable {a b : Timespec} {fuel : Nat}

theorem carryNsec_nanos (a : Timespec) (fuel : Nat) : nanos (carryNsec fuel a) = nanos a := by
  induction fuel generalizing a with
  | zero => rfl
  | succ fuel ih =>
      rw [carryNsec]
      split
      · rw [ih, nanos, nanos]
        dsimp only
        rw [TIMER_SECOND_MICRO]
        omega
      · rfl

theorem carryNsec_below (enough : (a.tvNsec / TIMER_SECOND_MICRO).toNat ≤ fuel) :
    (carryNsec fuel a).tvNsec < TIMER_SECOND_MICRO := by
  induction fuel generalizing a with
  | zero =>
      rw [carryNsec]
      rw [TIMER_SECOND_MICRO] at enough ⊢
      omega
  | succ fuel ih =>
      rw [carryNsec]
      split
      · apply ih
        dsimp only
        rw [TIMER_SECOND_MICRO] at enough ⊢
        omega
      · next small => exact Int.not_le.mp small

theorem borrowNsec_nanos (a : Timespec) (fuel : Nat) : nanos (borrowNsec fuel a) = nanos a := by
  induction fuel generalizing a with
  | zero => rfl
  | succ fuel ih =>
      rw [borrowNsec]
      split
      · rw [ih, nanos, nanos]
        dsimp only
        rw [TIMER_SECOND_MICRO]
        omega
      · rfl

theorem borrowNsec_within (below : a.tvNsec < TIMER_SECOND_MICRO)
    (enough : (-(a.tvNsec / TIMER_SECOND_MICRO)).toNat ≤ fuel) :
    0 ≤ (borrowNsec fuel a).tvNsec ∧ (borrowNsec fuel a).tvNsec < TIMER_SECOND_MICRO := by
  induction fuel generalizing a with
  | zero =>
      rw [borrowNsec]
      refine ⟨?_, below⟩
      rw [TIMER_SECOND_MICRO] at enough
      omega
  | succ fuel ih =>
      rw [borrowNsec]
      split
      · next negative =>
        apply ih
        · dsimp only
          omega
        · dsimp only
          rw [TIMER_SECOND_MICRO] at enough ⊢
          omega
      · next positive => exact ⟨Int.not_lt.mp positive, below⟩

/-- The loops leave the same value with its nanoseconds in range. -/
theorem timespecAdjust_eq (a : Timespec) :
    ∃ b, nanos b = nanos a ∧ (0 ≤ b.tvNsec ∧ b.tvNsec < TIMER_SECOND_MICRO) ∧
      timespecAdjust a = if b.tvSec < 0 then ⟨0, 0⟩ else b := by
  have below := carryNsec_below (Nat.le_refl (a.tvNsec / TIMER_SECOND_MICRO).toNat)
  refine ⟨_, ?_, borrowNsec_within below (Nat.le_refl _), rfl⟩
  rw [borrowNsec_nanos, carryNsec_nanos]

/-- What is not negative is kept, and the rest becomes 0. -/
theorem timespecAdjust_nanos (a : Timespec) : nanos (timespecAdjust a) = max 0 (nanos a) := by
  obtain ⟨b, same, ⟨nonneg, below⟩, adjusts⟩ := timespecAdjust_eq a
  rw [adjusts, ← same]
  rw [TIMER_SECOND_MICRO] at below
  split
  · next negative =>
    have small : nanos b ≤ 0 := by
      rw [nanos, TIMER_SECOND_MICRO]
      omega
    rw [max_eq_left small]
    rfl
  · next positive =>
    have large : 0 ≤ nanos b := by
      rw [nanos, TIMER_SECOND_MICRO]
      omega
    rw [max_eq_right large]

theorem timespecAdjust_normal (a : Timespec) : (timespecAdjust a).Normal := by
  obtain ⟨b, -, ⟨nonneg, below⟩, adjusts⟩ := timespecAdjust_eq a
  rw [adjusts]
  split
  · exact ⟨Int.le_refl 0, Int.le_refl 0, by decide⟩
  · next positive => exact ⟨Int.not_lt.mp positive, nonneg, below⟩

/-- Only 0 is all zeros. -/
theorem Timespec.Normal.zero_iff (normal : a.Normal) : a = .zero ↔ nanos a = 0 := by
  constructor
  · intro same
    rw [same]
    rfl
  · intro none_
    obtain ⟨sec, nonneg, below⟩ := normal
    rw [nanos] at none_
    rw [TIMER_SECOND_MICRO] at none_ below
    have seconds : a.tvSec = 0 := by omega
    have nanoseconds : a.tvNsec = 0 := by omega
    cases a
    cases seconds
    cases nanoseconds
    rfl

end Loops

/-! ## The adders -/

theorem eventAddAt_eq (s : Engine) (now : Timespec) (func : Nat) (type : EventType) (arg : Nat)
    (sec nsec : Int) (settimeOk : Bool) :
    eventAddAt s (some now) func type arg sec nsec settimeOk =
      (eventTimerAddItimerspec s func type arg
        ⟨⟨0, 0⟩, timespecAdjust ⟨now.tvSec + sec, now.tvNsec + nsec⟩⟩ settimeOk).map
        fun ran => (some ran.1, ran.2) := by
  rw [eventAddAt]
  dsimp only
  cases eventTimerAddItimerspec s func type arg
      ⟨⟨0, 0⟩, timespecAdjust ⟨now.tvSec + sec, now.tvNsec + nsec⟩⟩ settimeOk with
  | error fault => rfl
  | ok ran => rfl

namespace Adder

/-- The unit of the delay in nanoseconds. -/
def unit : Adder → Int
  | timer | rear => 1000000000
  | timerMsec | rearMsec => 1000000

/-- `now.tv_sec + time / 1000` and `now.tv_nsec + (time % 1000) * 1000000`, or the seconds alone -/
def sum (adder : Adder) (now : Timespec) (time : Int) : Timespec :=
  match adder with
  | timer | rear => ⟨now.tvSec + time, now.tvNsec + 0⟩
  | timerMsec | rearMsec =>
    ⟨now.tvSec + time.tdiv 1000, now.tvNsec + time.tmod 1000 * 1000000⟩

def expiry (adder : Adder) (now : Timespec) (time : Int) : Timespec :=
  timespecAdjust (adder.sum now time)

/-- The expiry is what is passed on. -/
def Passes (adder : Adder) (now : Timespec) (time : Int) (value : Timespec) : Prop :=
  ∀ s func arg settimeOk, adder.run s (some now) func arg time settimeOk =
    (eventTimerAddItimerspec s func adder.list.type arg ⟨⟨0, 0⟩, value⟩ settimeOk).map
      fun ran => (some ran.1, ran.2)

/-- What is asked of the expiry that an adder passes on. -/
structure Right (adder : Adder) (now : Timespec) (time : Int) : Prop where
  normal : (adder.expiry now time).Normal
  kept : nanos (adder.expiry now time) = nanos now + time * adder.unit ↔
    0 ≤ nanos now + time * adder.unit
  later : ∀ time', time ≤ time' →
    nanos (adder.expiry now time) ≤ nanos (adder.expiry now time')
  sooner : ∀ time', time' ≤ time →
    nanos (adder.expiry now time') ≤ nanos (adder.expiry now time)
  arms : adder.expiry now time ≠ .zero

theorem passes_expiry (adder : Adder) (now : Timespec) (time : Int) :
    adder.Passes now time (adder.expiry now time) := by
  intro s func arg settimeOk
  cases adder with
  | timer => exact eventAddAt_eq s now func .timer arg time 0 settimeOk
  | timerMsec => exact eventAddAt_eq s now func .timer arg _ _ settimeOk
  | rear => exact eventAddAt_eq s now func .rear arg time 0 settimeOk
  | rearMsec => exact eventAddAt_eq s now func .rear arg _ _ settimeOk

theorem nanos_sum (adder : Adder) (now : Timespec) (time : Int) :
    nanos (adder.sum now time) = nanos now + time * adder.unit := by
  have split := Int.mul_tdiv_add_tmod time 1000
  cases adder <;>
    · rw [nanos, nanos, sum, unit]
      dsimp only
      rw [TIMER_SECOND_MICRO]
      omega

theorem expiry_nanos (adder : Adder) (now : Timespec) (time : Int) :
    nanos (adder.expiry now time) = max 0 (nanos now + time * adder.unit) := by
  rw [expiry, timespecAdjust_nanos, nanos_sum]

theorem expiry_mono (adder : Adder) (now : Timespec) {time time' : Int} (sooner : time ≤ time') :
    nanos (adder.expiry now time) ≤ nanos (adder.expiry now time') := by
  rw [expiry_nanos, expiry_nanos]
  apply max_le_max (Int.le_refl 0)
  apply Int.add_le_add_left
  apply Int.mul_le_mul_of_nonneg_right sooner
  cases adder <;> decide

end Adder

/-- Whatever the clock and the delay, an adder passes on the sum, or 0 for a negative one; the
expiry is right if and only if the sum is positive. -/
theorem expiry_right_iff (adder : Adder) (now : Timespec) (time : Int) :
    adder.Passes now time (adder.expiry now time) ∧
      (adder.Right now time ↔ 0 < nanos now + time * adder.unit) := by
  have value := adder.expiry_nanos now time
  have normal : (adder.expiry now time).Normal := timespecAdjust_normal (adder.sum now time)
  refine ⟨adder.passes_expiry now time, ?_⟩
  constructor
  · intro right
    by_contra past
    have none_ : nanos (adder.expiry now time) = 0 := by
      rw [value]
      exact max_eq_left (Int.not_lt.mp past)
    exact right.arms (normal.zero_iff.mpr none_)
  · intro future
    rw [max_eq_right (Int.le_of_lt future)] at value
    constructor
    · exact normal
    · exact iff_of_true value (Int.le_of_lt future)
    · intro time' later
      exact adder.expiry_mono now later
    · intro time' sooner
      exact adder.expiry_mono now sooner
    · intro zero
      rw [normal.zero_iff.mp zero] at value
      exact Int.ne_of_lt future value

/-- At five seconds of the clock, nine seconds ago. -/
theorem past_delay_disarms : (⟨5, 0⟩ : Timespec).Normal ∧
    Adder.timer.expiry ⟨5, 0⟩ (-9) = .zero ∧ ¬ Adder.timer.Right ⟨5, 0⟩ (-9) := by
  have zero : Adder.timer.expiry ⟨5, 0⟩ (-9) = .zero := by decide
  refine ⟨⟨by decide, by decide, by decide⟩, zero, ?_⟩
  intro right
  exact right.arms zero

end Poplar.EventCtl
