import Poplar.Apps.Stream
import Poplar.Lib.Bytes

/-!
# The streams of apps/pop_stream.c with the markers as they are

Positions and lengths are `size_t`. `STREAM_VERIFY_SANE` asserts that the markers are in
order, `STREAM_BOUND_WARN` is an assertion that fails, and an access from `size` on is one
outside the object.
-/
namespace Poplar

/-- The sum of two `size_t` -/
def sizeAdd (a b : Nat) : Nat := (a + b) % 2 ^ 64

theorem sizeAdd_small {a b : Nat} (small : a + b < 2 ^ 64) : sizeAdd a b = a + b :=
  Nat.mod_eq_of_lt small

/-- `size` is the length of `data`. -/
structure RawStream where
  data : List UInt8
  getp : Nat
  endp : Nat
  deriving DecidableEq, Repr

namespace RawStream

def size (s : RawStream) : Nat := s.data.length

def Sane (s : RawStream) : Prop := s.getp ≤ s.endp ∧ s.endp ≤ s.size

instance (s : RawStream) : Decidable s.Sane := inferInstanceAs (Decidable (_ ∧ _))

def verifySane (s : RawStream) : Except Fault Unit :=
  if s.Sane then .ok () else .error .assertFail

/-- `STREAM_READABLE` is an `int` that its users compare with a `size_t`. -/
def readable (s : RawStream) : Nat :=
  let n := (s.endp - s.getp) % 2 ^ 32
  if n < 2 ^ 31 then n else n + (2 ^ 64 - 2 ^ 32)

def writeable (s : RawStream) : Nat := s.size - s.endp

/-- `s->data[i]` -/
def load (s : RawStream) (i : Nat) : Except Fault UInt8 :=
  if inside : i < s.data.length then .ok s.data[i] else .error .outOfObject

/-- `s->data[i] = c` -/
def store (s : RawStream) (i : Nat) (c : UInt8) : Except Fault RawStream :=
  if i < s.size then .ok { s with data := s.data.set i c } else .error .outOfObject

/-- `memcpy` of `n` bytes from `s->data + i` -/
def copyFrom (s : RawStream) (i n : Nat) : Except Fault (List UInt8) :=
  if i + n ≤ s.size then .ok ((s.data.drop i).take n) else .error .outOfObject

/-- `memcpy` or `memset` to `s->data + i` -/
def copyTo (s : RawStream) (i : Nat) (bytes : List UInt8) : Except Fault RawStream :=
  if i + bytes.length ≤ s.size then .ok { s with data := Bytes.overwrite s.data i bytes }
  else .error .outOfObject

/-! ## The markers -/

def setGetp (s : RawStream) (pos : Nat) : Except Fault RawStream := do
  s.verifySane
  if pos ≤ s.endp then return { s with getp := pos } else .error .assertFail

def forwardGetp (s : RawStream) (n : Nat) : Except Fault RawStream := do
  s.verifySane
  if sizeAdd s.getp n ≤ s.endp then return { s with getp := sizeAdd s.getp n }
  else .error .assertFail

def forwardEndp (s : RawStream) (n : Nat) : Except Fault RawStream := do
  s.verifySane
  if sizeAdd s.endp n ≤ s.size then return { s with endp := sizeAdd s.endp n }
  else .error .assertFail

def reset (s : RawStream) : Except Fault RawStream := do
  s.verifySane
  return { s with getp := 0, endp := 0 }

/-- The markers moved back into the data. -/
def clamp (s : RawStream) : RawStream :=
  let s := if s.endp > s.size then { s with endp := s.size } else s
  if s.getp > s.endp then { s with getp := s.endp } else s

/-- `newdata` is what `realloc` answers; `_realloc` aborts where it answers `NULL`. -/
def resize (s : RawStream) (newdata : Option (List UInt8)) : Except Fault (Nat × RawStream) := do
  s.verifySane
  match newdata with
  | none => .error .assertFail
  | some data =>
    let s := { s with data := data }.clamp
    s.verifySane
    return (s.size, s)

/-! ## Reading -/

def get (s : RawStream) (n : Nat) : Except Fault (List UInt8 × RawStream) := do
  s.verifySane
  if s.readable < n then .error .assertFail
  else
    let bytes ← s.copyFrom s.getp n
    return (bytes, { s with getp := sizeAdd s.getp n })

/-- `w = s->data[s->getp++] << shift; w |= …`, one byte for each shift -/
def gather : List Nat → RawStream → Except Fault (Nat × RawStream)
  | [], s => .ok (0, s)
  | shift :: shifts, s => do
    let c ← s.load s.getp
    let (w, s) ← gather shifts { s with getp := sizeAdd s.getp 1 }
    return (c.toNat <<< shift ||| w, s)

/-- `w = s->data[i++] << shift; w |= …` -/
def gatherFrom (s : RawStream) : List Nat → Nat → Except Fault Nat
  | [], _ => .ok 0
  | shift :: shifts, i => do
    let c ← s.load i
    let w ← s.gatherFrom shifts (sizeAdd i 1)
    return c.toNat <<< shift ||| w

/-- What the functions that read a value at `getp` share. -/
def getShifts (s : RawStream) (shifts : List Nat) : Except Fault (Nat × RawStream) := do
  s.verifySane
  if s.readable < shifts.length then .error .assertFail else gather shifts s

/-- What the functions that read a value from a position share. -/
def getShiftsFrom (s : RawStream) (shifts : List Nat) (i : Nat) : Except Fault Nat := do
  s.verifySane
  if sizeAdd i shifts.length ≤ s.endp then s.gatherFrom shifts i else .error .assertFail

def getc (s : RawStream) : Except Fault (UInt8 × RawStream) := do
  let (c, s) ← s.getShifts [0]
  return (UInt8.ofNat c, s)

def getcFrom (s : RawStream) (i : Nat) : Except Fault UInt8 := do
  return UInt8.ofNat (← s.getShiftsFrom [0] i)

def getw (s : RawStream) : Except Fault (UInt16 × RawStream) := do
  let (w, s) ← s.getShifts [8, 0]
  return (UInt16.ofNat w, s)

def getwFrom (s : RawStream) (i : Nat) : Except Fault UInt16 := do
  return UInt16.ofNat (← s.getShiftsFrom [8, 0] i)

def getl (s : RawStream) : Except Fault (UInt32 × RawStream) := do
  let (l, s) ← s.getShifts [24, 16, 8, 0]
  return (UInt32.ofNat l, s)

def getlFrom (s : RawStream) (i : Nat) : Except Fault UInt32 := do
  return UInt32.ofNat (← s.getShiftsFrom [24, 16, 8, 0] i)

def getq (s : RawStream) : Except Fault (UInt64 × RawStream) := do
  let (q, s) ← s.getShifts [56, 48, 40, 32, 24, 16, 8, 0]
  return (UInt64.ofNat q, s)

def getqFrom (s : RawStream) (i : Nat) : Except Fault UInt64 := do
  return UInt64.ofNat (← s.getShiftsFrom [56, 48, 40, 32, 24, 16, 8, 0] i)

/-- The bytes are copied as the host has them: the lowest comes first. -/
def getIpv4 (s : RawStream) : Except Fault (UInt32 × RawStream) := do
  let (l, s) ← s.getShifts [0, 8, 16, 24]
  return (UInt32.ofNat l, s)

/-! ## Writing -/

/-- `CHECK_SIZE` -/
def checkSize (s : RawStream) (n : Nat) : Nat :=
  if sizeAdd s.endp n > s.size then s.size - s.endp else n

/-- Without a source, zeros are written. -/
def put (s : RawStream) (src : Option (List UInt8)) (n : Nat) : Except Fault RawStream := do
  let n := s.checkSize n
  s.verifySane
  if s.writeable < n then .error .assertFail
  else
    let s ← match src with
      | some src => s.copyTo s.endp (src.take n)
      | none => s.copyTo s.endp (List.replicate n 0)
    return { s with endp := sizeAdd s.endp n }

def write (s : RawStream) (src : List UInt8) (n : Nat) : Except Fault (Nat × RawStream) := do
  let n := s.checkSize n
  s.verifySane
  if s.writeable < n then .error .assertFail
  else
    let s ← s.copyTo s.endp (src.take n)
    return (n, { s with endp := sizeAdd s.endp n })

/-- `s->data[s->endp++] = (u_char)(w >> shift); …` -/
def scatter (w : Nat) : List Nat → RawStream → Except Fault RawStream
  | [], s => .ok s
  | shift :: shifts, s => do
    let s ← s.store s.endp (UInt8.ofNat (w >>> shift))
    scatter w shifts { s with endp := sizeAdd s.endp 1 }

/-- `s->data[putp] = (u_char)(w >> shift); s->data[putp + 1] = …` -/
def scatterAt (w : Nat) : List Nat → Nat → RawStream → Except Fault RawStream
  | [], _, s => .ok s
  | shift :: shifts, putp, s => do
    let s ← s.store putp (UInt8.ofNat (w >>> shift))
    scatterAt w shifts (sizeAdd putp 1) s

/-- What the functions that write a value at `endp` share. -/
def putShifts (s : RawStream) (shifts : List Nat) (w : Nat) : Except Fault (Nat × RawStream) := do
  s.verifySane
  if s.writeable < shifts.length then .error .assertFail
  else
    let s ← scatter w shifts s
    return (shifts.length, s)

/-- What the functions that write a value at a position share. -/
def putShiftsAt (s : RawStream) (shifts : List Nat) (putp w : Nat) :
    Except Fault (Nat × RawStream) := do
  s.verifySane
  if sizeAdd putp shifts.length ≤ s.endp then
    let s ← scatterAt w shifts putp s
    return (shifts.length, s)
  else .error .assertFail

def putc (s : RawStream) (c : UInt8) : Except Fault (Nat × RawStream) :=
  s.putShifts [0] c.toNat

def putw (s : RawStream) (w : UInt16) : Except Fault (Nat × RawStream) :=
  s.putShifts [8, 0] w.toNat

def putl (s : RawStream) (l : UInt32) : Except Fault (Nat × RawStream) :=
  s.putShifts [24, 16, 8, 0] l.toNat

def putq (s : RawStream) (q : UInt64) : Except Fault (Nat × RawStream) :=
  s.putShifts [56, 48, 40, 32, 24, 16, 8, 0] q.toNat

def putcAt (s : RawStream) (putp : Nat) (c : UInt8) : Except Fault (Nat × RawStream) :=
  s.putShiftsAt [0] putp c.toNat

def putwAt (s : RawStream) (putp : Nat) (w : UInt16) : Except Fault (Nat × RawStream) :=
  s.putShiftsAt [8, 0] putp w.toNat

def putlAt (s : RawStream) (putp : Nat) (l : UInt32) : Except Fault (Nat × RawStream) :=
  s.putShiftsAt [24, 16, 8, 0] putp l.toNat

def putqAt (s : RawStream) (putp : Nat) (q : UInt64) : Except Fault (Nat × RawStream) :=
  s.putShiftsAt [56, 48, 40, 32, 24, 16, 8, 0] putp q.toNat

/-- The bytes are copied as the host has them. -/
def putIpv4 (s : RawStream) (l : UInt32) : Except Fault (Nat × RawStream) :=
  s.putShifts [0, 8, 16, 24] l.toNat

/-- The address is a word like the one `getIpv4` reads. -/
def putInAddr (s : RawStream) (addr : UInt32) : Except Fault (Nat × RawStream) :=
  s.putShifts [0, 8, 16, 24] addr.toNat

/-! ## Streams that are sane -/

section Sane

variable {s : RawStream} {shifts : List Nat} {i n w : Nat}

theorem verifySane_ok (sane : s.Sane) : s.verifySane = .ok () := if_pos sane

theorem load_ok (inside : i < s.size) : s.load i = .ok (s.data.getD i 0) := by
  have there : i < s.data.length := inside
  rw [load, dif_pos there, List.getD_eq_getElem?_getD, List.getElem?_eq_getElem there]
  rfl

theorem readable_ge (small : n ≤ 2 ^ 31) (enough : ¬ s.readable < n) : n ≤ s.endp - s.getp := by
  simp only [readable] at enough
  split at enough <;> omega

theorem readable_eq (small : s.endp - s.getp < 2 ^ 31) : s.readable = s.endp - s.getp := by
  simp only [readable]
  split <;> omega

/-- The bytes that stand from `i` on, joined. -/
theorem gatherFrom_ok (small : s.size < 2 ^ 64) (inside : i + shifts.length ≤ s.size) :
    s.gatherFrom shifts i = .ok (Bytes.join shifts ((s.data.drop i).take shifts.length)) := by
  induction shifts generalizing i with
  | nil => rfl
  | cons shift shifts ih =>
      rw [List.length_cons] at inside
      have here : i < s.size := by omega
      have next : sizeAdd i 1 = i + 1 := sizeAdd_small (by omega)
      rw [gatherFrom, load_ok here, ok_bind, next, ih (by omega), ok_bind, List.length_cons,
        Bytes.read_succ here]
      rfl

theorem gather_ok (small : s.size < 2 ^ 64) (inside : s.getp + shifts.length ≤ s.size) :
    gather shifts s = .ok (Bytes.join shifts ((s.data.drop s.getp).take shifts.length),
      { s with getp := s.getp + shifts.length }) := by
  induction shifts generalizing s with
  | nil => rfl
  | cons shift shifts ih =>
      rw [List.length_cons] at inside
      have here : s.getp < s.size := by omega
      have next : sizeAdd s.getp 1 = s.getp + 1 := sizeAdd_small (by omega)
      have behind : s.getp + 1 + shifts.length ≤ s.size := by omega
      have later := ih (s := { s with getp := s.getp + 1 }) small behind
      rw [gather, load_ok here, ok_bind, next, later, ok_bind, List.length_cons,
        Bytes.read_succ here]
      simp only [pure_ok, Bytes.join, Nat.add_assoc, Nat.add_comm 1]

/-- Positions that wrap around leave the object before they do. -/
theorem gatherFrom_outside (small : s.size < 2 ^ 64) (start : i < 2 ^ 64)
    (outside : 2 ^ 64 ≤ i + shifts.length) : s.gatherFrom shifts i = .error .outOfObject := by
  induction shifts generalizing i with
  | nil => exact absurd outside (Nat.not_le.mpr start)
  | cons shift shifts ih =>
      rw [List.length_cons] at outside
      by_cases here : i < s.size
      · have next : sizeAdd i 1 = i + 1 := sizeAdd_small (by omega)
        rw [gatherFrom, load_ok here, ok_bind, next, ih (by omega) (by omega)]
        rfl
      · have refused : s.load i = .error .outOfObject := dif_neg here
        rw [gatherFrom, refused]
        rfl

theorem store_ok {c : UInt8} (inside : i < s.size) :
    s.store i c = .ok { s with data := s.data.set i c } := if_pos inside

theorem scatterAt_ok (small : s.size < 2 ^ 64) (inside : i + shifts.length ≤ s.size) :
    scatterAt w shifts i s = .ok { s with
      data := Bytes.overwrite s.data i (Bytes.cut w shifts) } := by
  induction shifts generalizing i s with
  | nil => simp only [scatterAt, Bytes.cut, List.map_nil, Bytes.overwrite_nil]
  | cons shift shifts ih =>
      rw [List.length_cons] at inside
      have here : i < s.size := by omega
      have next : sizeAdd i 1 = i + 1 := sizeAdd_small (by omega)
      have same : (s.data.set i (UInt8.ofNat (w >>> shift))).length = s.size := List.length_set
      have later := ih (i := i + 1) (s := { s with data := s.data.set i (UInt8.ofNat (w >>> shift)) })
        (by rwa [size, same]) (by rw [size, same]; omega)
      rw [scatterAt, store_ok here, ok_bind, next, later]
      dsimp only
      rw [Bytes.overwrite_cons here]
      rfl

theorem scatter_ok (small : s.size < 2 ^ 64) (inside : s.endp + shifts.length ≤ s.size) :
    scatter w shifts s = .ok { s with
      data := Bytes.overwrite s.data s.endp (Bytes.cut w shifts)
      endp := s.endp + shifts.length } := by
  induction shifts generalizing s with
  | nil => simp only [scatter, Bytes.cut, List.map_nil, Bytes.overwrite_nil, List.length_nil,
      Nat.add_zero]
  | cons shift shifts ih =>
      rw [List.length_cons] at inside
      have here : s.endp < s.size := by omega
      have next : sizeAdd s.endp 1 = s.endp + 1 := sizeAdd_small (by omega)
      have same : (s.data.set s.endp (UInt8.ofNat (w >>> shift))).length = s.size := List.length_set
      have later := ih (s := { s with
          data := s.data.set s.endp (UInt8.ofNat (w >>> shift)), endp := s.endp + 1 })
        (by rwa [size, same]) (by rw [size, same]; dsimp only; omega)
      rw [scatter, store_ok here, ok_bind]
      dsimp only
      rw [next, later]
      dsimp only
      rw [Bytes.overwrite_cons here, List.length_cons, Nat.add_assoc, Nat.add_comm 1]
      rfl

theorem scatterAt_outside (small : s.size < 2 ^ 64) (start : i < 2 ^ 64)
    (outside : 2 ^ 64 ≤ i + shifts.length) : scatterAt w shifts i s = .error .outOfObject := by
  induction shifts generalizing i s with
  | nil => exact absurd outside (Nat.not_le.mpr start)
  | cons shift shifts ih =>
      rw [List.length_cons] at outside
      by_cases here : i < s.size
      · have next : sizeAdd i 1 = i + 1 := sizeAdd_small (by omega)
        have same : (s.data.set i (UInt8.ofNat (w >>> shift))).length = s.size := List.length_set
        rw [scatterAt, store_ok here, ok_bind, next]
        exact ih (by rwa [size, same]) (by omega) (by omega)
      · have refused : s.store i (UInt8.ofNat (w >>> shift)) = .error .outOfObject := if_neg here
        rw [scatterAt, refused]
        rfl

/-! What each family does. -/

theorem getShifts_eq (sane : s.Sane) (small : s.size < 2 ^ 64) (short : shifts.length ≤ 2 ^ 31) :
    s.getShifts shifts = if s.readable < shifts.length then .error .assertFail
      else .ok (Bytes.join shifts ((s.data.drop s.getp).take shifts.length),
        { s with getp := s.getp + shifts.length }) := by
  rw [getShifts, verifySane_ok sane, ok_bind]
  split
  · rfl
  · next enough =>
    have room := readable_ge short enough
    have order := sane.2
    have front := sane.1
    exact gather_ok small (by omega)

theorem getShiftsFrom_eq (sane : s.Sane) (small : s.size < 2 ^ 64)
    (fits : i + shifts.length < 2 ^ 64) :
    s.getShiftsFrom shifts i = if i + shifts.length ≤ s.endp
      then .ok (Bytes.join shifts ((s.data.drop i).take shifts.length))
      else .error .assertFail := by
  rw [getShiftsFrom, verifySane_ok sane, ok_bind, sizeAdd_small fits]
  split
  · next inside => exact gatherFrom_ok small (Nat.le_trans inside sane.2)
  · rfl

theorem putShifts_eq (sane : s.Sane) (small : s.size < 2 ^ 64) :
    s.putShifts shifts w = if s.writeable < shifts.length then .error .assertFail
      else .ok (shifts.length, { s with
        data := Bytes.overwrite s.data s.endp (Bytes.cut w shifts)
        endp := s.endp + shifts.length }) := by
  rw [putShifts, verifySane_ok sane, ok_bind]
  split
  · rfl
  · next enough =>
    have order := sane.2
    unfold writeable at enough
    rw [scatter_ok small (by omega)]
    rfl

theorem putShiftsAt_eq (sane : s.Sane) (small : s.size < 2 ^ 64)
    (fits : i + shifts.length < 2 ^ 64) :
    s.putShiftsAt shifts i w = if i + shifts.length ≤ s.endp
      then .ok (shifts.length, { s with
        data := Bytes.overwrite s.data i (Bytes.cut w shifts) })
      else .error .assertFail := by
  rw [putShiftsAt, verifySane_ok sane, ok_bind, sizeAdd_small fits]
  split
  · next inside =>
    rw [scatterAt_ok small (Nat.le_trans inside sane.2)]
    rfl
  · rfl

theorem clamp_eq (s : RawStream) : s.clamp = { s with
    getp := min s.getp (min s.endp s.size)
    endp := min s.endp s.size } := by
  unfold clamp
  by_cases beyond : s.endp > s.size
  · rw [if_pos beyond, Nat.min_eq_right (Nat.le_of_lt beyond)]
    dsimp only
    split
    · next behind => rw [Nat.min_eq_right (Nat.le_of_lt behind)]
    · next inside => rw [Nat.min_eq_left (Nat.not_lt.mp inside)]
  · rw [if_neg beyond, Nat.min_eq_left (Nat.not_lt.mp beyond)]
    dsimp only
    split
    · next behind => rw [Nat.min_eq_right (Nat.le_of_lt behind)]
    · next inside => rw [Nat.min_eq_left (Nat.not_lt.mp inside)]

theorem clamp_sane (s : RawStream) : s.clamp.Sane := by
  rw [clamp_eq]
  exact ⟨Nat.min_le_right _ _, Nat.min_le_right _ _⟩

theorem clamp_data (s : RawStream) : s.clamp.data = s.data := by
  rw [clamp_eq]

theorem resize_some (sane : s.Sane) (data : List UInt8) :
    s.resize (some data) = .ok (data.length, { s with data := data }.clamp) := by
  unfold resize
  rw [verifySane_ok sane, ok_bind]
  dsimp only
  rw [verifySane_ok (clamp_sane _), ok_bind, size, clamp_data]
  rfl

theorem checkSize_le (sane : s.Sane) : s.checkSize n ≤ n := by
  have order := sane.2
  rw [checkSize]
  split
  · next beyond =>
    have whole : sizeAdd s.endp n ≤ s.endp + n := Nat.mod_le _ _
    omega
  · exact Nat.le_refl n

theorem checkSize_fits (fits : s.endp + n ≤ s.size) : s.checkSize n = n := by
  have whole : sizeAdd s.endp n ≤ s.endp + n := Nat.mod_le _ _
  exact if_neg (by omega)

/-- The bytes that `put` writes. -/
def putBytes (src : Option (List UInt8)) (n : Nat) : List UInt8 :=
  match src with
  | some src => src.take n
  | none => List.replicate n 0

theorem putBytes_length {src : Option (List UInt8)} (enough : ∀ bytes ∈ src, n ≤ bytes.length) :
    (putBytes src n).length = n := by
  cases src with
  | none => exact List.length_replicate
  | some bytes =>
      have := enough bytes rfl
      rw [putBytes, List.length_take, Nat.min_eq_left this]

theorem copyTo_ok {bytes : List UInt8} (inside : i + bytes.length ≤ s.size) :
    s.copyTo i bytes = .ok { s with data := Bytes.overwrite s.data i bytes } := if_pos inside

theorem put_eq {src : Option (List UInt8)} (sane : s.Sane) (small : s.size < 2 ^ 64)
    (enough : ∀ bytes ∈ src, n ≤ bytes.length) :
    s.put src n = if s.writeable < s.checkSize n then .error .assertFail
      else .ok { s with
        data := Bytes.overwrite s.data s.endp (putBytes src (s.checkSize n))
        endp := s.endp + s.checkSize n } := by
  have cut : ∀ bytes ∈ src, s.checkSize n ≤ bytes.length := fun bytes member =>
    Nat.le_trans (checkSize_le sane) (enough bytes member)
  have length := putBytes_length cut
  have order := sane.2
  rw [put, verifySane_ok sane, ok_bind]
  split
  · rfl
  · next room =>
    unfold writeable at room
    have inside : s.endp + (putBytes src (s.checkSize n)).length ≤ s.size := by omega
    have next : sizeAdd s.endp (s.checkSize n) = s.endp + s.checkSize n :=
      sizeAdd_small (by omega)
    have copies := copyTo_ok inside
    cases src with
    | none =>
        dsimp only [putBytes] at copies
        simp only [copies, ok_bind, next]
        rfl
    | some bytes =>
        dsimp only [putBytes] at copies
        simp only [copies, ok_bind, next]
        rfl

/-- `write` does what `put` does with a source, and returns the length written. -/
theorem write_eq (src : List UInt8) (n : Nat) :
    s.write src n = do
      let s' ← s.put (some src) n
      return (s.checkSize n, s') := by
  rw [write, put]
  cases s.verifySane with
  | error fault => rfl
  | ok checked =>
      simp only [ok_bind]
      split
      · rfl
      · cases s.copyTo s.endp (src.take (s.checkSize n)) <;> rfl

end Sane

end RawStream

/-! ## Streams whose markers are in order by their type -/

namespace Stream

def raw (s : Stream) : RawStream where
  data := s.data
  getp := s.getp
  endp := s.endp

variable {s : Stream} {i n : Nat}

theorem raw_sane (s : Stream) : s.raw.Sane := ⟨s.getpValid, s.endpValid⟩

theorem raw_readable (s : Stream) : s.raw.readable = s.readable := rfl

theorem raw_forwardGetp (fits : s.getp + n < 2 ^ 64) :
    s.raw.forwardGetp n = raw <$> streamForwardGetp s n := by
  rw [RawStream.forwardGetp, RawStream.verifySane_ok s.raw_sane, ok_bind,
    show sizeAdd s.raw.getp n = s.getp + n from sizeAdd_small fits]
  by_cases room : s.getp + n ≤ s.endp
  · rw [streamForwardGetp, dif_pos room, if_pos (show s.getp + n ≤ s.raw.endp from room)]
    rfl
  · rw [streamForwardGetp, dif_neg room, if_neg (show ¬ s.getp + n ≤ s.raw.endp from room)]
    rfl

/-- The word that stands at `i`. -/
theorem word_at (room : i + 2 ≤ s.endp) :
    (UInt16.ofNat (Bytes.join [8, 0] ((s.data.drop i).take 2))).toNat =
      s.byte i * 2 ^ 8 + s.byte (i + 1) := by
  have order := s.endpValid
  have joined : Bytes.join [8, 0] ((s.data.drop i).take 2) =
      s.byte i * 2 ^ 8 + s.byte (i + 1) := by
    rw [Bytes.read_succ (by omega), Bytes.read_succ (by omega), Bytes.join_cons (by simp),
      Bytes.join_cons (by simp)]
    simp only [Bytes.join, byte, Nat.pow_zero, Nat.mul_one, Nat.add_zero]
  have small : Bytes.join [8, 0] ((s.data.drop i).take 2) < 2 ^ 16 := Bytes.join_lt (by simp) _
  rw [UInt16.toNat_ofNat_of_lt' small, joined]

theorem long_at (room : i + 4 ≤ s.endp) :
    (UInt32.ofNat (Bytes.join [24, 16, 8, 0] ((s.data.drop i).take 4))).toNat =
      s.byte i * 2 ^ 24 + s.byte (i + 1) * 2 ^ 16 + s.byte (i + 2) * 2 ^ 8 + s.byte (i + 3) := by
  have order := s.endpValid
  have joined : Bytes.join [24, 16, 8, 0] ((s.data.drop i).take 4) =
      s.byte i * 2 ^ 24 + (s.byte (i + 1) * 2 ^ 16 + (s.byte (i + 2) * 2 ^ 8 + s.byte (i + 3))) := by
    rw [Bytes.read_succ (by omega), Bytes.read_succ (by omega), Bytes.read_succ (by omega),
      Bytes.read_succ (by omega), Bytes.join_cons (by simp), Bytes.join_cons (by simp),
      Bytes.join_cons (by simp), Bytes.join_cons (by simp)]
    simp only [Bytes.join, byte, Nat.pow_zero, Nat.mul_one, Nat.add_zero]
  have small : Bytes.join [24, 16, 8, 0] ((s.data.drop i).take 4) < 2 ^ 32 :=
    Bytes.join_lt (by simp) _
  rw [UInt32.toNat_ofNat_of_lt' small, joined, Nat.add_assoc, Nat.add_assoc]

theorem raw_getwFrom (small : s.size < 2 ^ 64) (fits : i + 2 < 2 ^ 64) :
    UInt16.toNat <$> s.raw.getwFrom i = streamGetwFrom s i := by
  rw [RawStream.getwFrom, RawStream.getShiftsFrom_eq s.raw_sane small fits, streamGetwFrom]
  by_cases room : i + 2 ≤ s.endp
  · rw [if_pos room, if_pos (show i + [8, 0].length ≤ s.raw.endp from room), ← word_at room]
    rfl
  · rw [if_neg room, if_neg (show ¬ i + [8, 0].length ≤ s.raw.endp from room)]
    rfl

theorem raw_getw (small : s.size < 2 ^ 64) :
    Prod.map UInt16.toNat id <$> s.raw.getw = Prod.map id raw <$> streamGetw s := by
  rw [RawStream.getw, RawStream.getShifts_eq s.raw_sane small (by simp), streamGetw]
  by_cases short : s.readable < 2
  · rw [dif_pos short, if_pos (show s.raw.readable < [8, 0].length from short)]
    rfl
  · have room := readable_ge (by omega) short
    rw [dif_neg short, if_neg (show ¬ s.raw.readable < [8, 0].length from short), ← word_at room]
    rfl

theorem raw_getl (small : s.size < 2 ^ 64) :
    Prod.map UInt32.toNat id <$> s.raw.getl = Prod.map id raw <$> streamGetl s := by
  rw [RawStream.getl, RawStream.getShifts_eq s.raw_sane small (by simp), streamGetl]
  by_cases short : s.readable < 4
  · rw [dif_pos short, if_pos (show s.raw.readable < [24, 16, 8, 0].length from short)]
    rfl
  · have room := readable_ge (by omega) short
    rw [dif_neg short, if_neg (show ¬ s.raw.readable < [24, 16, 8, 0].length from short),
      ← long_at room]
    rfl

/-- What `streamPut` writes of the source. -/
def cutSource (s : Stream) (src : List UInt8) : List UInt8 :=
  if s.endp + src.length > s.size then src.take (s.size - s.endp) else src

theorem cutSource_fits (s : Stream) (src : List UInt8) :
    s.endp + (s.cutSource src).length ≤ s.size := by
  have order := s.endpValid
  unfold cutSource
  split
  · rw [List.length_take]
    unfold size
    omega
  · next inside => exact Nat.not_lt.mp inside

theorem streamPut_raw (s : Stream) (src : List UInt8) : (streamPut s src).raw = {
    data := Bytes.overwrite s.data s.endp (s.cutSource src)
    getp := s.getp
    endp := s.endp + (s.cutSource src).length } := by
  have fits := s.cutSource_fits src
  unfold cutSource at fits
  rw [streamPut, dif_pos fits]
  rfl

/-- The bytes put are the source, as far as the buffer goes. -/
theorem raw_put {src : List UInt8} (small : s.size < 2 ^ 64) (fits : s.endp + src.length < 2 ^ 64) :
    s.raw.put (some src) src.length = .ok (streamPut s src).raw := by
  have order := s.endpValid
  have enough : ∀ bytes ∈ some src, src.length ≤ bytes.length := fun bytes same =>
    (Option.some.inj same) ▸ Nat.le_refl _
  have sum : sizeAdd s.raw.endp src.length = s.endp + src.length := sizeAdd_small fits
  have checked : s.raw.checkSize src.length = (s.cutSource src).length ∧
      src.take (s.raw.checkSize src.length) = s.cutSource src := by
    rw [RawStream.checkSize, sum, cutSource]
    by_cases beyond : s.endp + src.length > s.size
    · rw [if_pos beyond, if_pos (show s.endp + src.length > s.raw.size from beyond),
        List.length_take, Nat.min_eq_left (by omega)]
      exact ⟨rfl, rfl⟩
    · rw [if_neg beyond, if_neg (show ¬ s.endp + src.length > s.raw.size from beyond)]
      exact ⟨rfl, List.take_length⟩
  have room : ¬ s.raw.writeable < (s.cutSource src).length := by
    have inside := s.cutSource_fits src
    show ¬ s.size - s.endp < _
    omega
  rw [RawStream.put_eq s.raw_sane small enough, RawStream.putBytes, checked.1, if_neg room,
    ← checked.1, checked.2, checked.1, streamPut_raw]
  rfl

theorem raw_putw {w : UInt16} (small : s.size < 2 ^ 64) :
    Prod.snd <$> s.raw.putw w = raw <$> streamPutw s w.toNat := by
  rw [RawStream.putw, RawStream.putShifts_eq s.raw_sane small, streamPutw]
  by_cases short : s.writeable < 2
  · rw [if_pos short, if_pos (show s.raw.writeable < [8, 0].length from short)]
    rfl
  · have inside : ¬ s.endp + [UInt8.ofNat (w.toNat / 256), UInt8.ofNat w.toNat].length > s.size := by
      unfold writeable at short
      show ¬ s.endp + 2 > s.size
      omega
    have whole : s.cutSource [UInt8.ofNat (w.toNat / 256), UInt8.ofNat w.toNat] =
        Bytes.cut w.toNat [8, 0] := by
      rw [cutSource, if_neg inside]
      simp [Bytes.cut, Nat.shiftRight_eq_div_pow]
    rw [if_neg short, if_neg (show ¬ s.raw.writeable < [8, 0].length from short)]
    show Except.ok _ = Except.ok (streamPut s _).raw
    rw [streamPut_raw, whole]
    rfl

end Stream

end Poplar
