import Poplar.Apps.StreamBounds

/-!
# Copies of streams: stream_dup and stream_resize

A copy is as large as what is in it, so of a stream with nothing in it there is none. What is
read of a copy, or of a stream resized, is what stands in the stream: while what is unread is
shorter than an `int` can say.
-/
namespace Poplar

namespace RawStream

/-- `stream_new`; `data` is what `malloc` answers. -/
def new (size : Nat) (data : List UInt8) : Except Fault RawStream :=
  if 0 < size then .ok { data, getp := 0, endp := 0 } else .error .assertFail

/-- `stream_copy` -/
def copy (new src : RawStream) : Except Fault RawStream := do
  src.verifySane
  if src.endp ≤ new.size then
    let bytes ← src.copyFrom 0 src.endp
    { new with endp := src.endp, getp := src.getp }.copyTo 0 bytes
  else .error .assertFail

/-- `stream_dup` -/
def dup (s : RawStream) (data : List UInt8) : Except Fault RawStream := do
  s.verifySane
  let new ← RawStream.new s.endp data
  copy new s

end RawStream

/-- The functions that read a stream. -/
inductive GetOp where
  | get (n : Nat)
  | getc
  | getcFrom (i : Nat)
  | getw
  | getwFrom (i : Nat)
  | getl
  | getlFrom (i : Nat)
  | getq
  | getqFrom (i : Nat)
  | getIpv4

/-- What one of them returns. -/
inductive Got where
  | bytes (bytes : List UInt8)
  | word (w : Nat)

def GetOp.exec (s : RawStream) : GetOp → Except Fault (Got × RawStream)
  | .get n => Prod.map Got.bytes id <$> s.get n
  | .getc => Prod.map (fun c => Got.word c.toNat) id <$> s.getc
  | .getcFrom i => (fun c => (Got.word c.toNat, s)) <$> s.getcFrom i
  | .getw => Prod.map (fun w => Got.word w.toNat) id <$> s.getw
  | .getwFrom i => (fun w => (Got.word w.toNat, s)) <$> s.getwFrom i
  | .getl => Prod.map (fun l => Got.word l.toNat) id <$> s.getl
  | .getlFrom i => (fun l => (Got.word l.toNat, s)) <$> s.getlFrom i
  | .getq => Prod.map (fun q => Got.word q.toNat) id <$> s.getq
  | .getqFrom i => (fun q => (Got.word q.toNat, s)) <$> s.getqFrom i
  | .getIpv4 => Prod.map (fun l => Got.word l.toNat) id <$> s.getIpv4

def GetOp.run (s : RawStream) : List GetOp → Except Fault (List Got × RawStream)
  | [] => .ok ([], s)
  | op :: ops => do
    let (got, s) ← op.exec s
    let (rest, s) ← GetOp.run s ops
    return (got :: rest, s)

/-- Lengths and positions are of type `size_t`. -/
def GetOp.Typed : GetOp → Prop
  | .get n => n < 2 ^ 64
  | .getcFrom i | .getwFrom i | .getlFrom i | .getqFrom i => i < 2 ^ 64
  | _ => True

namespace RawStream

/-- `t` is what is left of `s`: reading it goes on where reading `s` does, or it is read up. -/
structure Follows (s t : RawStream) : Prop where
  left : s.Within
  right : t.Within
  ends : t.endp ≤ s.endp
  same : t.data.take t.endp = s.data.take t.endp
  place : t.getp = s.getp ∨ t.getp = t.endp
  short : s.endp - s.getp < 2 ^ 31

section Following

variable {s t t' : RawStream} {shifts : List Nat} {i n w : Nat}

theorem Follows.bytes (follows : Follows s t) (inside : i + n ≤ t.endp) :
    (t.data.drop i).take n = (s.data.drop i).take n := by
  have front := congrArg (fun bytes => (bytes.drop i).take n) follows.same
  simp only [List.drop_take, List.take_take] at front
  rwa [Nat.min_eq_left (by omega)] at front

theorem Follows.short_right (follows : Follows s t) : t.endp - t.getp < 2 ^ 31 := by
  have ends := follows.ends
  have short := follows.short
  rcases follows.place with here | up
  · omega
  · omega

/-- Both read on by `n`. -/
theorem Follows.advance (follows : Follows s t) (room : n ≤ t.endp - t.getp) :
    n ≤ s.endp - s.getp ∧ (t.data.drop t.getp).take n = (s.data.drop s.getp).take n ∧
      Follows { s with getp := s.getp + n } { t with getp := t.getp + n } := by
  have frontS := follows.left.sane.1
  have frontT := follows.right.sane.1
  have ends := follows.ends
  have short := follows.short
  have enough : n ≤ s.endp - s.getp := by
    rcases follows.place with here | up <;> omega
  refine ⟨enough, ?_, ?_⟩
  · rcases follows.place with here | up
    · rw [here]
      exact follows.bytes (by omega)
    · have none_ : n = 0 := by omega
      rw [none_, List.take_zero, List.take_zero]
  · constructor
    · refine ⟨⟨?_, follows.left.sane.2⟩, follows.left.small⟩
      dsimp only
      omega
    · refine ⟨⟨?_, follows.right.sane.2⟩, follows.right.small⟩
      dsimp only
      omega
    · exact ends
    · exact follows.same
    · dsimp only
      rcases follows.place with here | up <;> omega
    · dsimp only
      omega

/-- What a function that reads answers of `t` it answers of `s`. -/
def Reads {V : Type} (read : RawStream → Except Fault (V × RawStream)) : Prop :=
  ∀ s t, Follows s t → ∀ v t', read t = .ok (v, t') →
    ∃ s', read s = .ok (v, s') ∧ Follows s' t'

theorem get_eq (within : s.Within) (short : s.endp - s.getp < 2 ^ 31) : s.get n =
    if s.endp - s.getp < n then .error .assertFail
    else .ok ((s.data.drop s.getp).take n, { s with getp := s.getp + n }) := by
  have front := within.sane.1
  have order := within.sane.2
  have small := within.small
  rw [get, verifySane_ok within.sane, ok_bind, readable_eq short]
  split
  · rfl
  · next enough =>
    have inside : s.getp + n ≤ s.size := by omega
    rw [copyFrom, if_pos inside, ok_bind, sizeAdd_small (by omega)]
    rfl

theorem reads_get (n : Nat) : Reads fun s => s.get n := by
  intro s t follows v t' ran
  dsimp only at ran ⊢
  rw [get_eq follows.right follows.short_right] at ran
  split at ran
  · cases ran
  · next enough =>
    obtain ⟨room, bytes, after⟩ := follows.advance (Nat.not_lt.mp enough)
    cases ran
    refine ⟨_, ?_, after⟩
    rw [get_eq follows.left follows.short, if_neg (Nat.not_lt.mpr room), bytes]

theorem reads_getShifts (short : shifts.length ≤ 2 ^ 31) : Reads fun s => s.getShifts shifts := by
  intro s t follows v t' ran
  dsimp only at ran ⊢
  rw [getShifts_eq follows.right.sane follows.right.small short,
    readable_eq follows.short_right] at ran
  split at ran
  · cases ran
  · next enough =>
    obtain ⟨room, bytes, after⟩ := follows.advance (Nat.not_lt.mp enough)
    cases ran
    refine ⟨_, ?_, after⟩
    rw [getShifts_eq follows.left.sane follows.left.small short, readable_eq follows.short,
      if_neg (Nat.not_lt.mpr room), bytes]

/-- A value that is read from a position lies before the end. -/
theorem getShiftsFrom_inside (within : t.Within) (typed : i < 2 ^ 64)
    (ran : t.getShiftsFrom shifts i = .ok w) :
    i + shifts.length ≤ t.endp ∧ w = Bytes.join shifts ((t.data.drop i).take shifts.length) := by
  by_cases fits : i + shifts.length < 2 ^ 64
  · rw [getShiftsFrom_eq within.sane within.small fits] at ran
    split at ran
    · next inside =>
      cases ran
      exact ⟨inside, rfl⟩
    · cases ran
  · rw [getShiftsFrom, verifySane_ok within.sane, ok_bind] at ran
    split at ran
    · rw [gatherFrom_outside within.small typed (Nat.not_lt.mp fits)] at ran
      cases ran
    · cases ran

theorem Follows.getShiftsFrom (follows : Follows s t) (typed : i < 2 ^ 64)
    (ran : t.getShiftsFrom shifts i = .ok w) : s.getShiftsFrom shifts i = .ok w := by
  obtain ⟨inside, value⟩ := getShiftsFrom_inside follows.right typed ran
  have ends := follows.ends
  have order := follows.left.sane.2
  have small := follows.left.small
  rw [getShiftsFrom_eq follows.left.sane small (by omega), if_pos (by omega), value,
    follows.bytes inside]

/-- The value is a function of what was read. -/
theorem Reads.map {V W : Type} {read : RawStream → Except Fault (V × RawStream)}
    (reads : Reads read) (g : V → W) : Reads fun s => Prod.map g id <$> read s := by
  intro s t follows v t' ran
  dsimp only at ran ⊢
  cases answer : read t with
  | error fault =>
      rw [answer] at ran
      cases ran
  | ok got =>
      rw [answer] at ran
      cases ran
      obtain ⟨s', same, after⟩ := reads s t follows got.1 got.2 answer
      refine ⟨s', ?_, after⟩
      rw [same]
      rfl

/-- The functions that read a value at `getp` -/
theorem reads_value {V : Type} (value : Nat → V) (g : V → Got) (short : shifts.length ≤ 2 ^ 31) :
    Reads fun s =>
      Prod.map g id <$> (s.getShifts shifts >>= fun read => pure (value read.1, read.2)) := by
  have reads := (reads_getShifts short).map fun w => g (value w)
  intro s t follows v t' ran
  obtain ⟨s', same, after⟩ := reads s t follows v t' (by
    dsimp only at ran ⊢
    rw [← ran]
    cases t.getShifts shifts <;> rfl)
  refine ⟨s', ?_, after⟩
  dsimp only at same ⊢
  rw [← same]
  cases s.getShifts shifts <;> rfl

/-- The functions that read a value from a position -/
theorem reads_valueFrom {V : Type} (value : Nat → V) (g : V → Got) (typed : i < 2 ^ 64) :
    Reads fun s =>
      (fun v => (g v, s)) <$> (s.getShiftsFrom shifts i >>= fun w => pure (value w)) := by
  intro s t follows v t' ran
  dsimp only at ran ⊢
  cases answer : t.getShiftsFrom shifts i with
  | error fault =>
      rw [answer] at ran
      cases ran
  | ok w =>
      rw [answer] at ran
      cases ran
      refine ⟨s, ?_, follows⟩
      rw [follows.getShiftsFrom typed answer]
      rfl

end Following

end RawStream

open RawStream

/-- One read. -/
theorem GetOp.reads (op : GetOp) (typed : op.Typed) : Reads fun s => op.exec s := by
  cases op with
  | get n => exact (reads_get n).map Got.bytes
  | getc => exact reads_value UInt8.ofNat _ (by decide)
  | getcFrom i => exact reads_valueFrom UInt8.ofNat _ typed
  | getw => exact reads_value UInt16.ofNat _ (by decide)
  | getwFrom i => exact reads_valueFrom UInt16.ofNat _ typed
  | getl => exact reads_value UInt32.ofNat _ (by decide)
  | getlFrom i => exact reads_valueFrom UInt32.ofNat _ typed
  | getq => exact reads_value UInt64.ofNat _ (by decide)
  | getqFrom i => exact reads_valueFrom UInt64.ofNat _ typed
  | getIpv4 => exact reads_value UInt32.ofNat _ (by decide)

/-- Any row of reads. -/
theorem GetOp.run_reads (ops : List GetOp) (typed : ∀ op ∈ ops, op.Typed) :
    Reads fun s => GetOp.run s ops := by
  induction ops with
  | nil =>
      intro s t follows v t' ran
      cases ran
      exact ⟨s, rfl, follows⟩
  | cons op ops ih =>
      intro s t follows v t' ran
      have later := ih fun other member => typed other (List.mem_cons_of_mem op member)
      dsimp only at ran ⊢
      rw [GetOp.run] at ran ⊢
      cases here : op.exec t with
      | error fault =>
          rw [here] at ran
          cases ran
      | ok got =>
          obtain ⟨got, t₁⟩ := got
          rw [here, ok_bind] at ran
          dsimp only at ran
          obtain ⟨s₁, same, follows₁⟩ := op.reads (typed op (by simp)) s t follows got t₁ here
          cases there : GetOp.run t₁ ops with
          | error fault =>
              rw [there] at ran
              cases ran
          | ok rest =>
              rw [there] at ran
              cases ran
              obtain ⟨s₂, sameRest, follows₂⟩ := later s₁ t₁ follows₁ rest.1 rest.2 there
              refine ⟨s₂, ?_, follows₂⟩
              dsimp only at same sameRest
              rw [same, ok_bind]
              dsimp only
              rw [sameRest]
              rfl

namespace RawStream

variable {s t : RawStream} {newsize : Nat} {data : List UInt8}

/-- A copy has the markers of the stream, and reads as it does. -/
def DupRight (s : RawStream) : Prop :=
  ∀ data : List UInt8, data.length = s.endp → ∃ t, s.dup data = .ok t ∧ t.getp = s.getp ∧
    t.endp = s.endp ∧ ∀ ops : List GetOp, (∀ op ∈ ops, op.Typed) →
      (GetOp.run t ops).toOption.map Prod.fst = (GetOp.run s ops).toOption.map Prod.fst

/-- The stream at its new size: what was in it and has room, and nothing else to be read. -/
structure Resized (s : RawStream) (newsize : Nat) (t : RawStream) : Prop where
  sized : t.size = newsize
  kept : t.data.take (min s.endp newsize) = s.data.take (min s.endp newsize)
  endp : t.endp = min s.endp newsize
  getp : t.getp = min s.getp t.endp
  reads : ∀ ops : List GetOp, (∀ op ∈ ops, op.Typed) → ∀ got t', GetOp.run t ops = .ok (got, t') →
    ∃ s', GetOp.run s ops = .ok (got, s')

/-- `data` is what `realloc` answers. -/
def ResizeRight (s : RawStream) : Prop :=
  ∀ newsize data, newsize ≠ 0 → newsize < 2 ^ 64 → Reallocated s.data newsize data →
    ∃ t, s.resize (some data) = .ok (newsize, t) ∧ s.Resized newsize t

theorem dup_some (sane : s.Sane) (some_ : 0 < s.endp) (allocated : data.length = s.endp) :
    s.dup data = .ok { s with data := s.data.take s.endp } := by
  have order := sane.2
  have length : (s.data.take s.endp).length = s.endp := List.length_take_of_le order
  have whole : Bytes.overwrite data 0 (s.data.take s.endp) = s.data.take s.endp := by
    rw [Bytes.overwrite, List.take_zero, Nat.zero_add, length, ← allocated, List.drop_length,
      List.nil_append, List.append_nil]
  have room : s.endp ≤ data.length := allocated.ge
  rw [dup, verifySane_ok sane, ok_bind, new, if_pos some_, ok_bind, copy, verifySane_ok sane,
    ok_bind, size, if_pos room, copyFrom, Nat.zero_add, if_pos order, ok_bind, List.drop_zero,
    copyTo, Nat.zero_add, length, size, if_pos room, whole]

theorem dup_empty (sane : s.Sane) (nothing : s.endp = 0) : s.dup data = .error .assertFail := by
  rw [dup, verifySane_ok sane, ok_bind, new, nothing]
  rfl

theorem follows_dup (within : s.Within) (short : s.endp - s.getp < 2 ^ 31) :
    Follows s { s with data := s.data.take s.endp } ∧
      Follows { s with data := s.data.take s.endp } s := by
  have order := within.sane.2
  have length : (s.data.take s.endp).length = s.endp := List.length_take_of_le order
  have copied : Within { s with data := s.data.take s.endp } := by
    constructor
    · refine ⟨within.sane.1, ?_⟩
      rw [size]
      exact length.ge
    · rw [size, length]
      exact Nat.lt_of_le_of_lt order within.small
  have same : (s.data.take s.endp).take s.endp = s.data.take s.endp := by
    rw [List.take_take, Nat.min_self]
  constructor
  · exact ⟨within, copied, Nat.le_refl _, same, .inl rfl, short⟩
  · exact ⟨copied, within, Nat.le_refl _, same.symm, .inl rfl, short⟩

/-- Two streams that follow each other read alike. -/
theorem Follows.alike (there : Follows s t) (back : Follows t s) (ops : List GetOp)
    (typed : ∀ op ∈ ops, op.Typed) :
    (GetOp.run t ops).toOption.map Prod.fst = (GetOp.run s ops).toOption.map Prod.fst := by
  cases ran : GetOp.run t ops with
  | ok got =>
      obtain ⟨s', same, _⟩ := GetOp.run_reads ops typed s t there got.1 got.2 ran
      dsimp only at same
      rw [same]
      rfl
  | error fault =>
      cases other : GetOp.run s ops with
      | error fault => rfl
      | ok got =>
          obtain ⟨t', same, _⟩ := GetOp.run_reads ops typed t s back got.1 got.2 other
          dsimp only at same
          rw [ran] at same
          cases same

theorem dupRight (within : s.Within) (some_ : 0 < s.endp) (short : s.endp - s.getp < 2 ^ 31) :
    s.DupRight := by
  intro data allocated
  obtain ⟨there, back⟩ := follows_dup within short
  refine ⟨_, dup_some within.sane some_ allocated, rfl, rfl, ?_⟩
  intro ops typed
  exact there.alike back ops typed

theorem Reallocated.take (re : Reallocated s.data newsize data) (sane : s.Sane) :
    data.take (min s.endp newsize) = s.data.take (min s.endp newsize) := by
  have order := sane.2
  unfold size at order
  have front := congrArg (List.take (min s.endp newsize)) re.2
  rw [List.take_take, List.take_take] at front
  rwa [Nat.min_eq_left (by omega)] at front

theorem resizeRight (within : s.Within) (short : s.endp - s.getp < 2 ^ 31) : s.ResizeRight := by
  intro newsize data _ typed re
  have length := re.1
  have kept := Reallocated.take re within.sane
  have front := within.sane.1
  have clamped := clamp_eq { s with data := data }
  dsimp only [size] at clamped
  rw [length] at clamped
  refine ⟨_, by rw [resize_some within.sane, length], ?_⟩
  rw [clamped]
  have follows : Follows s { data, getp := min s.getp (min s.endp newsize)
                             endp := min s.endp newsize } := by
    constructor
    · exact within
    · constructor
      · refine ⟨Nat.min_le_right _ _, ?_⟩
        rw [size, length]
        exact Nat.min_le_right _ _
      · rw [size, length]
        exact typed
    · exact Nat.min_le_left _ _
    · exact kept
    · dsimp only
      omega
    · exact short
  constructor
  · exact length
  · exact kept
  · rfl
  · rfl
  · intro ops typedOps got t' ran
    obtain ⟨s', same, _⟩ := GetOp.run_reads ops typedOps s _ follows got t' ran
    exact ⟨s', same⟩

/-! What is wrong where more than an `int` is unread. -/

theorem get_cases (sane : s.Sane) (n : Nat) : s.get n =
    if s.readable < n then .error .assertFail
    else if s.getp + n ≤ s.size
      then .ok ((s.data.drop s.getp).take n, { s with getp := sizeAdd s.getp n })
      else .error .outOfObject := by
  rw [get, verifySane_ok sane, ok_bind, copyFrom]
  by_cases short : s.readable < n
  · rw [if_pos short, if_pos short]
  · rw [if_neg short, if_neg short]
    by_cases inside : s.getp + n ≤ s.size
    · rw [if_pos inside, if_pos inside]
      rfl
    · rw [if_neg inside, if_neg inside]
      rfl

theorem run_get (s : RawStream) (n : Nat) :
    GetOp.run s [.get n] = (fun got => ([Got.bytes got.1], got.2)) <$> s.get n := by
  rw [GetOp.run, GetOp.exec]
  cases s.get n <;> rfl

/-- A block that is read after the resize was there to be read before. -/
theorem Resized.get (resized : s.Resized newsize t) (sane : s.Sane) {n : Nat} (typed : n < 2 ^ 64)
    (admitted : ¬ t.readable < n) (inside : t.getp + n ≤ t.size) :
    ¬ s.readable < n ∧ s.getp + n ≤ s.size := by
  have saneT : t.Sane := by
    have getp := resized.getp
    have endp := resized.endp
    have sized := resized.sized
    constructor <;> omega
  have ran := run_get t n
  rw [get_cases saneT, if_neg admitted, if_pos inside] at ran
  obtain ⟨s', same⟩ := resized.reads [.get n] (by
    intro op member
    rw [List.mem_singleton.mp member]
    exact typed) _ _ ran
  rw [run_get, get_cases sane] at same
  by_cases short : s.readable < n
  · rw [if_pos short] at same
    cases same
  · refine ⟨short, ?_⟩
    rw [if_neg short] at same
    by_contra outside
    rw [if_neg outside] at same
    cases same

theorem readable_wrapped (wraps : 2 ^ 31 ≤ (s.endp - s.getp) % 2 ^ 32) :
    2 ^ 63 < s.readable := by
  simp only [readable]
  rw [if_neg (Nat.not_lt.mpr wraps)]
  omega

/-- Where the `int` is negative, the stream enlarged by a byte can be read through to it. -/
theorem ResizeRight.not_wrapped (right : s.ResizeRight) (sane : s.Sane) (small : s.size < 2 ^ 63)
    (wraps : 2 ^ 31 ≤ (s.endp - s.getp) % 2 ^ 32) : False := by
  have front := sane.1
  have order := sane.2
  have re : Reallocated s.data (s.size + 1) (s.data ++ [0]) := by
    have bound : min s.data.length (s.size + 1) = s.data.length :=
      Nat.min_eq_left (Nat.le_succ _)
    constructor
    · rw [List.length_append]
      rfl
    · rw [bound, List.take_left', List.take_length]
      rfl
  obtain ⟨t, _, resized⟩ := right (s.size + 1) _ (by omega) (by omega) re
  have endp : t.endp = s.endp := by
    have := resized.endp
    omega
  have getp : t.getp = s.getp := by
    have := resized.getp
    omega
  have sized := resized.sized
  have admits := readable_wrapped (s := t) (by rw [endp, getp]; exact wraps)
  obtain ⟨_, inside⟩ := resized.get sane (n := s.size + 1 - s.getp) (by omega) (by omega) (by omega)
  omega

/-- Where the `int` is too small, the stream cut down to 2^31 unread bytes has more to read. -/
theorem ResizeRight.not_cut (right : s.ResizeRight) (sane : s.Sane) (small : s.size < 2 ^ 63)
    (long : 2 ^ 31 ≤ s.endp - s.getp) (cut : (s.endp - s.getp) % 2 ^ 32 < 2 ^ 31) : False := by
  have front := sane.1
  have order := sane.2
  unfold size at order small
  have length : (s.data.take (s.getp + 2 ^ 31)).length = s.getp + 2 ^ 31 :=
    List.length_take_of_le (by omega)
  have re : Reallocated s.data (s.getp + 2 ^ 31) (s.data.take (s.getp + 2 ^ 31)) := by
    constructor
    · exact length
    · rw [List.take_take]
      congr 1
      omega
  obtain ⟨t, _, resized⟩ := right (s.getp + 2 ^ 31) _ (by omega) (by omega) re
  have endp : t.endp = s.getp + 2 ^ 31 := by
    have := resized.endp
    omega
  have getp : t.getp = s.getp := by
    have := resized.getp
    omega
  have sized := resized.sized
  have admits := readable_wrapped (s := t) (by rw [endp, getp]; omega)
  obtain ⟨before, _⟩ := resized.get sane (n := (s.endp - s.getp) % 2 ^ 32 + 1) (by omega) (by omega)
    (by omega)
  apply before
  simp only [readable]
  rw [if_pos cut]
  exact Nat.lt_succ_self _

end RawStream

/-- Copying and resizing are right if and only if something is in the stream and what is unread
is shorter than an `int` can say. -/
theorem copies_right_iff {s : RawStream} (sane : s.Sane) (small : s.size < 2 ^ 63) :
    (s.DupRight ∧ s.ResizeRight) ↔ 0 < s.endp ∧ s.endp - s.getp < 2 ^ 31 := by
  have within : s.Within := ⟨sane, Nat.lt_trans small (by decide)⟩
  constructor
  · rintro ⟨dup, resize⟩
    constructor
    · by_contra none_
      have nothing : s.endp = 0 := Nat.eq_zero_of_not_pos none_
      obtain ⟨t, copied, _⟩ := dup [] nothing.symm
      rw [dup_empty sane nothing] at copied
      cases copied
    · by_contra long
      by_cases wraps : 2 ^ 31 ≤ (s.endp - s.getp) % 2 ^ 32
      · exact resize.not_wrapped sane small wraps
      · exact resize.not_cut sane small (Nat.not_lt.mp long) (Nat.not_le.mp wraps)
  · rintro ⟨some_, short⟩
    exact ⟨dupRight within some_ short, resizeRight within short⟩

/-- Two bytes, one of them read. -/
theorem copies_right_sample :
    (⟨[7, 8, 9], 1, 2⟩ : RawStream).DupRight ∧ (⟨[7, 8, 9], 1, 2⟩ : RawStream).ResizeRight :=
  (copies_right_iff (s := ⟨[7, 8, 9], 1, 2⟩) (by decide) (by decide)).mpr (by decide)

/-- A stream that nothing was put in has no copy: `stream_new` is called with 0. -/
theorem empty_dup_fails : (⟨[7], 0, 0⟩ : RawStream).Sane ∧
    RawStream.dup ⟨[7], 0, 0⟩ [] = .error .assertFail ∧ ¬ (⟨[7], 0, 0⟩ : RawStream).DupRight := by
  refine ⟨by decide, rfl, ?_⟩
  intro right
  obtain ⟨t, copied, _⟩ := right [] rfl
  cases copied

end Poplar
