import Poplar.Lib.Runs
import Poplar.Apps.RawStream

/-!
# The bounds of streams

Operations that take a position or a length, in any order. A stream stays within its
bounds until a sum of a `size_t` wraps around, or a stream longer than an `int` is read.
-/
namespace Poplar

inductive StreamOp where
  | setGetp (pos : Nat)
  | forwardGetp (n : Nat)
  | forwardEndp (n : Nat)
  | get (n : Nat)
  | getc
  | getcFrom (i : Nat)
  | getw
  | getwFrom (i : Nat)
  | getl
  | getlFrom (i : Nat)
  | getq
  | getqFrom (i : Nat)
  | getIpv4
  | put (src : Option (List UInt8)) (n : Nat)
  | write (src : List UInt8) (n : Nat)
  | putc (c : UInt8)
  | putcAt (putp : Nat) (c : UInt8)
  | putw (w : UInt16)
  | putwAt (putp : Nat) (w : UInt16)
  | putl (l : UInt32)
  | putlAt (putp : Nat) (l : UInt32)
  | putq (q : UInt64)
  | putqAt (putp : Nat) (q : UInt64)
  | putIpv4 (l : UInt32)
  | putInAddr (addr : UInt32)
  | resize (newsize : Nat) (newdata : Option (List UInt8))
  | reset
  deriving DecidableEq, Repr

/-- The stream that an operation leaves. -/
def streamExec : StreamOp → RawStream → Except Fault RawStream
  | .setGetp pos, s => s.setGetp pos
  | .forwardGetp n, s => s.forwardGetp n
  | .forwardEndp n, s => s.forwardEndp n
  | .get n, s => Prod.snd <$> s.get n
  | .getc, s => Prod.snd <$> s.getc
  | .getcFrom i, s => (fun _ => s) <$> s.getcFrom i
  | .getw, s => Prod.snd <$> s.getw
  | .getwFrom i, s => (fun _ => s) <$> s.getwFrom i
  | .getl, s => Prod.snd <$> s.getl
  | .getlFrom i, s => (fun _ => s) <$> s.getlFrom i
  | .getq, s => Prod.snd <$> s.getq
  | .getqFrom i, s => (fun _ => s) <$> s.getqFrom i
  | .getIpv4, s => Prod.snd <$> s.getIpv4
  | .put src n, s => s.put src n
  | .write src n, s => Prod.snd <$> s.write src n
  | .putc c, s => Prod.snd <$> s.putc c
  | .putcAt putp c, s => Prod.snd <$> s.putcAt putp c
  | .putw w, s => Prod.snd <$> s.putw w
  | .putwAt putp w, s => Prod.snd <$> s.putwAt putp w
  | .putl l, s => Prod.snd <$> s.putl l
  | .putlAt putp l, s => Prod.snd <$> s.putlAt putp l
  | .putq q, s => Prod.snd <$> s.putq q
  | .putqAt putp q, s => Prod.snd <$> s.putqAt putp q
  | .putIpv4 l, s => Prod.snd <$> s.putIpv4 l
  | .putInAddr addr, s => Prod.snd <$> s.putInAddr addr
  | .resize _ newdata, s => Prod.snd <$> s.resize newdata
  | .reset, s => s.reset

/-- What `realloc` answers holds the front of the old data. -/
def Reallocated (data : List UInt8) (newsize : Nat) (newdata : List UInt8) : Prop :=
  newdata.length = newsize ∧
    newdata.take (min data.length newsize) = data.take (min data.length newsize)

/-- Positions and lengths are of type `size_t`, a source has the length given, and no stream
is resized to nothing. -/
def StreamOp.Typed (s : RawStream) : StreamOp → Prop
  | .setGetp n | .forwardGetp n | .forwardEndp n | .get n => n < 2 ^ 64
  | .getcFrom i | .getwFrom i | .getlFrom i | .getqFrom i => i < 2 ^ 64
  | .putcAt putp _ | .putwAt putp _ | .putlAt putp _ | .putqAt putp _ => putp < 2 ^ 64
  | .put src n => n < 2 ^ 64 ∧ ∀ bytes ∈ src, bytes.length = n
  | .write src n => n < 2 ^ 64 ∧ src.length = n
  | .resize newsize newdata => newsize ≠ 0 ∧ newsize < 2 ^ 64 ∧
      ∀ data ∈ newdata, Reallocated s.data newsize data
  | .getc | .getw | .getl | .getq | .getIpv4 | .putc _ | .putw _ | .putl _ | .putq _
  | .putIpv4 _ | .putInAddr _ | .reset => True

def streamSystem : Runs.System RawStream StreamOp Fault where
  start s := s.Sane ∧ s.size < 2 ^ 64
  guard s op := op.Typed s
  exec := streamExec

/-- The marker that is forwarded moves by what was asked. -/
def StreamOp.Forwards (s s' : RawStream) : StreamOp → Prop
  | .forwardGetp n => s'.getp = s.getp + n
  | .forwardEndp n => s'.endp = s.endp + n
  | _ => True

/-- An operation hits its bound warning, or touches only the data of the stream and leaves
the markers in order. -/
def StreamOp.Right (s : RawStream) (op : StreamOp) : Prop :=
  match streamExec op s with
  | .error fault => fault = .assertFail
  | .ok s' => s'.Sane ∧ op.Forwards s s'

/-- No sum wraps around into what the bound admits, and what `STREAM_READABLE` admits is
there. -/
def StreamOp.Careful (s : RawStream) : StreamOp → Prop
  | .forwardGetp n => s.getp + n < 2 ^ 64
  | .forwardEndp n => s.endp + n < 2 ^ 64
  | .get n => n ≤ s.endp - s.getp ∨ s.readable < n
  | .getcFrom i | .putcAt i _ => i + 1 < 2 ^ 64 ∨ s.endp < sizeAdd i 1
  | .getwFrom i | .putwAt i _ => i + 2 < 2 ^ 64 ∨ s.endp < sizeAdd i 2
  | .getlFrom i | .putlAt i _ => i + 4 < 2 ^ 64 ∨ s.endp < sizeAdd i 4
  | .getqFrom i | .putqAt i _ => i + 8 < 2 ^ 64 ∨ s.endp < sizeAdd i 8
  | _ => True

namespace RawStream

/-- A stream in order whose size is a `size_t`. -/
structure Within (s : RawStream) : Prop where
  sane : s.Sane
  small : s.size < 2 ^ 64

/-- The bound warning, or a stream in order. -/
def Outcome : Except Fault RawStream → Prop
  | .error fault => fault = .assertFail
  | .ok s' => s'.Within

section Families

variable {s : RawStream} {shifts : List Nat} {i n w : Nat} (within : s.Within)
include within

theorem getShifts_outcome (short : shifts.length ≤ 2 ^ 31) :
    Outcome (Prod.snd <$> s.getShifts shifts) := by
  rw [getShifts_eq within.sane within.small short]
  split
  · rfl
  · next enough =>
    have room := readable_ge short enough
    have front := within.sane.1
    refine ⟨⟨?_, within.sane.2⟩, within.small⟩
    dsimp only
    omega

theorem putShifts_outcome : Outcome (Prod.snd <$> s.putShifts shifts w) := by
  rw [putShifts_eq within.sane within.small]
  split
  · rfl
  · next enough =>
    have order := within.sane.2
    have inside : s.endp + (Bytes.cut w shifts).length ≤ s.data.length := by
      rw [Bytes.cut_length]
      unfold writeable size at enough
      unfold size at order
      omega
    have length : (Bytes.overwrite s.data s.endp (Bytes.cut w shifts)).length = s.size :=
      Bytes.overwrite_length inside
    rw [Bytes.cut_length] at inside
    refine ⟨⟨Nat.le_trans within.sane.1 (Nat.le_add_right _ _), ?_⟩, ?_⟩
    · rw [size, length]
      exact inside
    · rw [size, length]
      exact within.small

theorem getShiftsFrom_outcome
    (careful : i + shifts.length < 2 ^ 64 ∨ s.endp < sizeAdd i shifts.length) :
    Outcome ((fun _ => s) <$> s.getShiftsFrom shifts i) := by
  cases careful with
  | inl fits =>
      rw [getShiftsFrom_eq within.sane within.small fits]
      split
      · exact within
      · rfl
  | inr refused =>
      rw [getShiftsFrom, verifySane_ok within.sane, ok_bind, if_neg (Nat.not_le.mpr refused)]
      rfl

theorem getShiftsFrom_wraps (start : i < 2 ^ 64)
    (careless : ¬ (i + shifts.length < 2 ^ 64 ∨ s.endp < sizeAdd i shifts.length)) :
    s.getShiftsFrom shifts i = .error .outOfObject := by
  obtain ⟨wraps, admitted⟩ := not_or.mp careless
  rw [getShiftsFrom, verifySane_ok within.sane, ok_bind, if_pos (Nat.not_lt.mp admitted)]
  exact gatherFrom_outside within.small start (Nat.not_lt.mp wraps)

theorem putShiftsAt_outcome
    (careful : i + shifts.length < 2 ^ 64 ∨ s.endp < sizeAdd i shifts.length) :
    Outcome (Prod.snd <$> s.putShiftsAt shifts i w) := by
  cases careful with
  | inl fits =>
      rw [putShiftsAt_eq within.sane within.small fits]
      split
      · next inside =>
        have written : i + (Bytes.cut w shifts).length ≤ s.data.length := by
          rw [Bytes.cut_length]
          exact Nat.le_trans inside within.sane.2
        have length : (Bytes.overwrite s.data i (Bytes.cut w shifts)).length = s.size :=
          Bytes.overwrite_length written
        refine ⟨⟨within.sane.1, ?_⟩, ?_⟩
        · rw [size, length]
          exact within.sane.2
        · rw [size, length]
          exact within.small
      · rfl
  | inr refused =>
      rw [putShiftsAt, verifySane_ok within.sane, ok_bind, if_neg (Nat.not_le.mpr refused)]
      rfl

theorem putShiftsAt_wraps (start : i < 2 ^ 64)
    (careless : ¬ (i + shifts.length < 2 ^ 64 ∨ s.endp < sizeAdd i shifts.length)) :
    s.putShiftsAt shifts i w = .error .outOfObject := by
  obtain ⟨wraps, admitted⟩ := not_or.mp careless
  rw [putShiftsAt, verifySane_ok within.sane, ok_bind, if_pos (Nat.not_lt.mp admitted),
    scatterAt_outside within.small start (Nat.not_lt.mp wraps)]
  rfl

theorem put_outcome {src : Option (List UInt8)} (enough : ∀ bytes ∈ src, bytes.length = n) :
    Outcome (s.put src n) := by
  have cut : ∀ bytes ∈ src, n ≤ bytes.length := fun bytes member => (enough bytes member).ge
  have length : (putBytes src (s.checkSize n)).length = s.checkSize n :=
    putBytes_length fun bytes member =>
      Nat.le_trans (checkSize_le within.sane) (cut bytes member)
  rw [put_eq within.sane within.small cut]
  split
  · rfl
  · next room =>
    have order := within.sane.2
    have inside : s.endp + s.checkSize n ≤ s.size := by
      unfold writeable at room
      omega
    have same : (Bytes.overwrite s.data s.endp (putBytes src (s.checkSize n))).length = s.size := by
      apply Bytes.overwrite_length
      rw [length]
      exact inside
    refine ⟨⟨Nat.le_trans within.sane.1 (Nat.le_add_right _ _), ?_⟩, ?_⟩
    · rw [size, same]
      exact inside
    · rw [size, same]
      exact within.small

theorem resize_outcome {newsize : Nat} {newdata : Option (List UInt8)} (small : newsize < 2 ^ 64)
    (answers : ∀ data ∈ newdata, Reallocated s.data newsize data) :
    Outcome (Prod.snd <$> s.resize newdata) := by
  cases newdata with
  | none =>
      unfold resize
      rw [verifySane_ok within.sane]
      rfl
  | some data =>
      have length := (answers data rfl).1
      rw [resize_some within.sane]
      refine ⟨clamp_sane _, ?_⟩
      dsimp only
      rw [size, clamp_data, length]
      exact small

theorem setGetp_outcome (pos : Nat) : Outcome (s.setGetp pos) := by
  rw [setGetp, verifySane_ok within.sane, ok_bind]
  split
  · next inside => exact ⟨⟨inside, within.sane.2⟩, within.small⟩
  · rfl

theorem reset_outcome : Outcome s.reset := by
  rw [reset, verifySane_ok within.sane]
  exact ⟨⟨Nat.le_refl 0, Nat.zero_le _⟩, within.small⟩

theorem forwardGetp_eq (fits : s.getp + n < 2 ^ 64) : s.forwardGetp n =
    if s.getp + n ≤ s.endp then .ok { s with getp := s.getp + n } else .error .assertFail := by
  rw [forwardGetp, verifySane_ok within.sane, ok_bind, sizeAdd_small fits]
  rfl

theorem forwardEndp_eq (fits : s.endp + n < 2 ^ 64) : s.forwardEndp n =
    if s.endp + n ≤ s.size then .ok { s with endp := s.endp + n } else .error .assertFail := by
  rw [forwardEndp, verifySane_ok within.sane, ok_bind, sizeAdd_small fits]
  rfl

/-- A marker that wraps around stands before where it was. -/
theorem forwardGetp_wraps (typed : n < 2 ^ 64) (wraps : ¬ s.getp + n < 2 ^ 64) :
    ∃ getp, s.forwardGetp n = .ok { s with getp := getp } ∧ getp ≠ s.getp + n := by
  have front := within.sane.1
  have order := within.sane.2
  have small := within.small
  have sum : sizeAdd s.getp n = s.getp + n - 2 ^ 64 := by
    unfold sizeAdd
    omega
  refine ⟨sizeAdd s.getp n, ?_, by omega⟩
  rw [forwardGetp, verifySane_ok within.sane, ok_bind, if_pos (by omega)]
  rfl

theorem forwardEndp_wraps (typed : n < 2 ^ 64) (wraps : ¬ s.endp + n < 2 ^ 64) :
    ∃ endp, s.forwardEndp n = .ok { s with endp := endp } ∧ endp ≠ s.endp + n := by
  have order := within.sane.2
  have small := within.small
  have sum : sizeAdd s.endp n = s.endp + n - 2 ^ 64 := by
    unfold sizeAdd
    omega
  refine ⟨sizeAdd s.endp n, ?_, by omega⟩
  rw [forwardEndp, verifySane_ok within.sane, ok_bind, if_pos (by omega)]
  rfl

theorem get_outcome (careful : n ≤ s.endp - s.getp ∨ s.readable < n) :
    Outcome (Prod.snd <$> s.get n) := by
  have front := within.sane.1
  have order := within.sane.2
  have small := within.small
  rw [get, verifySane_ok within.sane, ok_bind]
  split
  · rfl
  · next enough =>
    have room : s.getp + n ≤ s.endp := by omega
    have next : sizeAdd s.getp n = s.getp + n := sizeAdd_small (by omega)
    have inside : s.getp + n ≤ s.size := Nat.le_trans room order
    rw [copyFrom, if_pos inside, next]
    exact ⟨⟨room, order⟩, small⟩

/-- What is not there is read, or the marker passes the end. -/
theorem get_careless (careless : ¬ (n ≤ s.endp - s.getp ∨ s.readable < n)) :
    s.get n = .error .outOfObject ∨
      ∃ bytes getp, s.get n = .ok (bytes, { s with getp := getp }) ∧ s.endp < getp := by
  obtain ⟨short, admitted⟩ := not_or.mp careless
  have front := within.sane.1
  have small := within.small
  rw [get, verifySane_ok within.sane, ok_bind, if_neg admitted, copyFrom]
  split
  · next inside =>
    have next : sizeAdd s.getp n = s.getp + n := sizeAdd_small (by omega)
    rw [next]
    exact .inr ⟨_, _, rfl, by omega⟩
  · exact .inl rfl

end Families

end RawStream

namespace StreamOp

open RawStream

variable {α β : Type} {s s' : RawStream} {op : StreamOp}

/-- Only the stream counts, whatever the type of the value read. -/
theorem value_typed (f : α → β) (result : Except Fault (α × RawStream)) :
    Prod.snd <$> (do let (a, s') ← result; return (f a, s')) = Prod.snd <$> result := by
  cases result <;> rfl

theorem value_unused (f : α → β) (result : Except Fault α) :
    (fun _ => s) <$> (do return f (← result)) = (fun _ => s) <$> result := by
  cases result <;> rfl

theorem outcome (within : s.Within) (typed : op.Typed s) (careful : op.Careful s) :
    Outcome (streamExec op s) := by
  cases op with
  | setGetp pos => exact setGetp_outcome within pos
  | forwardGetp n =>
      rw [streamExec, forwardGetp_eq within careful]
      split
      · next inside => exact ⟨⟨inside, within.sane.2⟩, within.small⟩
      · rfl
  | forwardEndp n =>
      rw [streamExec, forwardEndp_eq within careful]
      split
      · next inside =>
        exact ⟨⟨Nat.le_trans within.sane.1 (Nat.le_add_right _ _), inside⟩, within.small⟩
      · rfl
  | get n => exact get_outcome within careful
  | getc | getw | getl | getq | getIpv4 =>
      exact (congrArg Outcome (value_typed _ _)).mpr (getShifts_outcome within (by simp))
  | getcFrom i | getwFrom i | getlFrom i | getqFrom i =>
      exact (congrArg Outcome (value_unused _ _)).mpr (getShiftsFrom_outcome within careful)
  | put src n => exact put_outcome within typed.2
  | write src n =>
      have sized : ∀ bytes ∈ some src, bytes.length = n := by
        intro bytes same
        exact Option.some.inj same ▸ typed.2
      have writes := put_outcome within sized
      rw [streamExec, write_eq]
      cases result : s.put (some src) n with
      | error fault =>
          rw [result] at writes
          exact writes
      | ok s' =>
          rw [result] at writes
          exact writes
  | putc | putw | putl | putq | putIpv4 | putInAddr => exact putShifts_outcome within
  | putcAt | putwAt | putlAt | putqAt => exact putShiftsAt_outcome within careful
  | resize newsize newdata => exact resize_outcome within typed.2.1 typed.2.2
  | reset => exact reset_outcome within

theorem forwards (within : s.Within) (careful : op.Careful s) (ran : streamExec op s = .ok s') :
    op.Forwards s s' := by
  cases op with
  | forwardGetp n =>
      rw [streamExec, forwardGetp_eq within careful] at ran
      split at ran
      · cases ran
        rfl
      · cases ran
  | forwardEndp n =>
      rw [streamExec, forwardEndp_eq within careful] at ran
      split at ran
      · cases ran
        rfl
      · cases ran
  | _ => trivial

theorem right_of_careful (within : s.Within) (typed : op.Typed s) (careful : op.Careful s) :
    op.Right s := by
  have result := outcome within typed careful
  unfold StreamOp.Right
  cases ran : streamExec op s with
  | error fault =>
      rw [ran] at result
      exact result
  | ok s' =>
      rw [ran] at result
      exact ⟨result.sane, forwards within careful ran⟩

/-- An access outside the data is not right. -/
theorem not_right_of_outside (ran : streamExec op s = .error .outOfObject) : ¬ op.Right s := by
  unfold StreamOp.Right
  rw [ran]
  exact Fault.noConfusion

theorem not_right_of_wrapped_read {shifts : List Nat} {i : Nat} {f : Nat → α}
    (within : s.Within)
    (ran : streamExec op s = (fun _ => s) <$> (do return f (← s.getShiftsFrom shifts i)))
    (start : i < 2 ^ 64)
    (careless : ¬ (i + shifts.length < 2 ^ 64 ∨ s.endp < sizeAdd i shifts.length)) :
    ¬ op.Right s := by
  apply not_right_of_outside
  rw [ran, value_unused, getShiftsFrom_wraps within start careless]
  rfl

theorem not_right_of_wrapped_write {shifts : List Nat} {i w : Nat} (within : s.Within)
    (ran : streamExec op s = Prod.snd <$> s.putShiftsAt shifts i w) (start : i < 2 ^ 64)
    (careless : ¬ (i + shifts.length < 2 ^ 64 ∨ s.endp < sizeAdd i shifts.length)) :
    ¬ op.Right s := by
  apply not_right_of_outside
  rw [ran, putShiftsAt_wraps within start careless]
  rfl

theorem careful_of_right (within : s.Within) (typed : op.Typed s) (right : op.Right s) :
    op.Careful s := by
  by_contra careless
  cases op with
  | forwardGetp n =>
      obtain ⟨getp, ran, other⟩ := forwardGetp_wraps within typed careless
      unfold StreamOp.Right at right
      rw [streamExec, ran] at right
      exact other right.2
  | forwardEndp n =>
      obtain ⟨endp, ran, other⟩ := forwardEndp_wraps within typed careless
      unfold StreamOp.Right at right
      rw [streamExec, ran] at right
      exact other right.2
  | get n =>
      cases get_careless within careless with
      | inl outside =>
          refine not_right_of_outside ?_ right
          rw [streamExec, outside]
          rfl
      | inr passes =>
          obtain ⟨bytes, getp, ran, behind⟩ := passes
          unfold StreamOp.Right at right
          rw [streamExec, ran] at right
          exact Nat.not_le.mpr behind right.1.1
  | getcFrom i | getwFrom i | getlFrom i | getqFrom i =>
      exact not_right_of_wrapped_read within rfl typed (by exact careless) right
  | putcAt | putwAt | putlAt | putqAt =>
      exact not_right_of_wrapped_write within rfl typed (by exact careless) right
  | _ => exact careless trivial

end StreamOp

/-- A run keeps within the bounds exactly if each operation is careful. -/
theorem stream_right_iff {s : RawStream} (start : streamSystem.start s) (ops : List StreamOp) :
    streamSystem.Throughout (fun s op => op.Right s) ops s ↔
      streamSystem.Throughout (fun s op => op.Careful s) ops s := by
  apply Runs.System.throughout_iff
  · intro s op within typed
    exact ⟨StreamOp.careful_of_right within typed, StreamOp.right_of_careful within typed⟩
  · intro s op s' within typed right ran
    have result := StreamOp.outcome within typed (StreamOp.careful_of_right within typed right)
    rw [show streamExec op s = .ok s' from ran] at result
    exact result
  · exact RawStream.Within.mk start.1 start.2

/-- A byte read from a stream of two, and one written in its place. -/
theorem stream_right_sample :
    streamSystem.Throughout (fun s op => op.Right s) [.getc, .putcAt 0 7, .forwardGetp 1]
      ⟨[1, 2], 0, 2⟩ := by
  have start : streamSystem.start ⟨[1, 2], 0, 2⟩ := ⟨by decide, by decide⟩
  apply (stream_right_iff start _).mpr
  refine fun _ => ⟨trivial, fun read ran => ?_⟩
  cases ran
  refine fun _ => ⟨.inl (by decide), fun written ran => ?_⟩
  cases ran
  exact fun _ => ⟨show 1 + 1 < 2 ^ 64 by decide, fun _ _ => trivial⟩

/-- A marker forwarded by almost 2^64 moves back. -/
theorem forward_wraps :
    ¬ ∀ s, streamSystem.start s → ∀ ops,
      streamSystem.Throughout (fun s op => op.Right s) ops s := by
  intro all
  have forwarded := (all ⟨[1], 1, 1⟩ ⟨by decide, by decide⟩ [.forwardGetp (2 ^ 64 - 1)]
    (show 2 ^ 64 - 1 < 2 ^ 64 by decide)).1
  have moved : 0 = 1 + (2 ^ 64 - 1) := forwarded.2
  cases moved

end Poplar
