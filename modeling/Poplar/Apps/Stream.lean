import Poplar.Fault

/-!
# The byte streams of apps/pop_stream.c

`STREAM_VERIFY_SANE` asserts what the markers of a `Stream` satisfy by their type;
`STREAM_BOUND_WARN` is the assertion that fails.
-/
namespace Poplar

/-- The size is the length of `data`. -/
structure Stream where
  data : List UInt8
  getp : Nat
  endp : Nat
  getpValid : getp ≤ endp
  endpValid : endp ≤ data.length

namespace Stream

def size (s : Stream) : Nat := s.data.length

/-- `STREAM_READABLE` is an `int` that its users compare with a `size_t`. -/
def readable (s : Stream) : Nat :=
  let n := (s.endp - s.getp) % 2 ^ 32
  if n < 2 ^ 31 then n else n + (2 ^ 64 - 2 ^ 32)

def writeable (s : Stream) : Nat := s.size - s.endp

/-- `s->data[i]` -/
def byte (s : Stream) (i : Nat) : Nat := (s.data.getD i 0).toNat

/-- The bytes from `getp` to `endp`. -/
def unread (s : Stream) : List UInt8 := (s.data.drop s.getp).take (s.endp - s.getp)

/-- The buffer behind `endp`. -/
def beyond (s : Stream) : List UInt8 := s.data.drop s.endp

/-- `s->getp += n` within the data. -/
def advance (s : Stream) (n : Nat) (room : s.getp + n ≤ s.endp) : Stream :=
  { s with getp := s.getp + n, getpValid := room }

theorem readable_ge {s : Stream} {n : Nat} (small : n ≤ 2 ^ 31) (enough : ¬ s.readable < n) :
    s.getp + n ≤ s.endp := by
  have := s.getpValid
  simp only [readable] at enough
  split at enough <;> omega

theorem readable_eq {s : Stream} (small : s.endp - s.getp < 2 ^ 31) :
    s.readable = s.endp - s.getp := by
  simp only [readable]
  split <;> omega

theorem data_drop (s : Stream) : s.data.drop s.getp = s.unread ++ s.beyond := by
  have valid := s.getpValid
  have split := List.take_append_drop (s.endp - s.getp) (s.data.drop s.getp)
  rw [List.drop_drop, Nat.add_sub_cancel' valid] at split
  exact split.symm

theorem unread_length (s : Stream) : s.unread.length = s.endp - s.getp := by
  have := s.getpValid
  have := s.endpValid
  simp only [unread, List.length_take, List.length_drop]
  omega

theorem unread_advance (s : Stream) (n : Nat) (room : s.getp + n ≤ s.endp) :
    (s.advance n room).unread = s.unread.drop n := by
  simp only [unread, advance, List.drop_take, List.drop_drop]
  congr 1
  omega

end Stream

/-- The memory of a new stream is whatever `malloc` answers. -/
def streamNew (memory : List UInt8) : Except Fault Stream :=
  if 0 < memory.length then .ok ⟨memory, 0, 0, Nat.le_refl 0, Nat.zero_le _⟩
  else .error .assertFail

/-- `CHECK_SIZE` cuts the source off at the end of the buffer. -/
def streamPut (s : Stream) (src : List UInt8) : Stream :=
  let src := if s.endp + src.length > s.size then src.take (s.size - s.endp) else src
  if room : s.endp + src.length ≤ s.size then
    { data := s.data.take s.endp ++ src ++ s.data.drop (s.endp + src.length)
      getp := s.getp
      endp := s.endp + src.length
      getpValid := Nat.le_trans s.getpValid (Nat.le_add_right _ _)
      endpValid := by
        have := s.endpValid
        unfold Stream.size at room
        simp only [List.length_append, List.length_take, List.length_drop]
        omega }
  else s

def streamPutw (s : Stream) (w : Nat) : Except Fault Stream :=
  if s.writeable < 2 then .error .assertFail
  else .ok (streamPut s [UInt8.ofNat (w / 256), UInt8.ofNat w])

def streamForwardGetp (s : Stream) (n : Nat) : Except Fault Stream :=
  if room : s.getp + n ≤ s.endp then .ok (s.advance n room) else .error .assertFail

def streamGetw (s : Stream) : Except Fault (Nat × Stream) :=
  if short : s.readable < 2 then .error .assertFail
  else .ok (s.byte s.getp * 2 ^ 8 + s.byte (s.getp + 1),
    s.advance 2 (Stream.readable_ge (by omega) short))

def streamGetl (s : Stream) : Except Fault (Nat × Stream) :=
  if short : s.readable < 4 then .error .assertFail
  else .ok (s.byte s.getp * 2 ^ 24 + s.byte (s.getp + 1) * 2 ^ 16 +
      s.byte (s.getp + 2) * 2 ^ 8 + s.byte (s.getp + 3),
    s.advance 4 (Stream.readable_ge (by omega) short))

def streamGetwFrom (s : Stream) (i : Nat) : Except Fault Nat :=
  if i + 2 ≤ s.endp then .ok (s.byte i * 2 ^ 8 + s.byte (i + 1)) else .error .assertFail

def MAX_RECV_PACKET_SIZE : Nat := 102400

/-- `recv_buffer` after a read: zeroed, with the bytes read in front. -/
def received (payload : List UInt8) : Stream where
  data := payload ++ List.replicate (MAX_RECV_PACKET_SIZE - payload.length) 0
  getp := 0
  endp := payload.length
  getpValid := Nat.zero_le _
  endpValid := by simp

/-- `strlen` of the string at `i` of an object: no NUL in it is an access outside. -/
def strlen (object : List UInt8) (i : Nat) : Except Fault Nat :=
  match (object.drop i).findIdx? (· == 0) with
  | some len => .ok len
  | none => .error .outOfObject

/-- The string an object starts with. -/
def cString (object : List UInt8) : List UInt8 := object.takeWhile (· != 0)

theorem cString_append {text rest : List UInt8} (nonzero : ∀ c ∈ text, c ≠ 0) :
    cString (text ++ 0 :: rest) = text := by
  rw [cString, List.takeWhile_append_of_pos (by simpa using nonzero)]
  simp

/-- The string before the first NUL has the length `strlen` answers. -/
theorem strlen_append {object text rest : List UInt8} {i : Nat} (nonzero : ∀ c ∈ text, c ≠ 0)
    (split : object.drop i = text ++ 0 :: rest) : strlen object i = .ok text.length := by
  have found : (text ++ 0 :: rest).findIdx? (· == 0) = some text.length := by
    rw [List.findIdx?_append]
    have none : text.findIdx? (· == 0) = none :=
      List.findIdx?_eq_none_iff.mpr fun c member => by simpa using nonzero c member
    simp [none, List.findIdx?_cons]
  rw [strlen, split, found]

/-- Bytes up to their first NUL, if there is one. -/
theorem exists_text {object : List UInt8} {i : Nat} (member : 0 ∈ object.drop i) :
    ∃ text rest, (∀ c ∈ text, c ≠ 0) ∧ object.drop i = text ++ 0 :: rest := by
  obtain ⟨text, rest, split, fresh⟩ := List.eq_append_cons_of_mem member
  exact ⟨text, rest, fun c inside same => fresh (same ▸ inside), split⟩

end Poplar
