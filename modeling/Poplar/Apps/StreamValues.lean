import Poplar.Apps.RawStream

/-!
# Values in streams

What is put into a stream is read back, in the same order and by the matching functions.
-/
namespace Poplar

def INT_MAX : Nat := 2 ^ 31 - 1

inductive Value where
  | char (c : UInt8)
  | word (w : UInt16)
  | long (l : UInt32)
  | quad (q : UInt64)
  | ipv4 (l : UInt32)
  | block (bytes : List UInt8)
  deriving DecidableEq, Repr

/-- What a function that reads has to know of a value. -/
inductive ValueKind where
  | char
  | word
  | long
  | quad
  | ipv4
  | block (n : Nat)
  deriving DecidableEq, Repr

namespace Value

def kind : Value → ValueKind
  | .char _ => .char
  | .word _ => .word
  | .long _ => .long
  | .quad _ => .quad
  | .ipv4 _ => .ipv4
  | .block bytes => .block bytes.length

/-- A value as it stands in a stream. -/
def encoded : Value → List UInt8
  | .char c => Bytes.cut c.toNat [0]
  | .word w => Bytes.cut w.toNat [8, 0]
  | .long l => Bytes.cut l.toNat [24, 16, 8, 0]
  | .quad q => Bytes.cut q.toNat [56, 48, 40, 32, 24, 16, 8, 0]
  | .ipv4 l => Bytes.cut l.toNat [0, 8, 16, 24]
  | .block bytes => bytes

end Value

def encodedLength (values : List Value) : Nat := (values.map fun v => v.encoded.length).sum

namespace RawStream

def putValue (s : RawStream) : Value → Except Fault RawStream
  | .char c => Prod.snd <$> s.putc c
  | .word w => Prod.snd <$> s.putw w
  | .long l => Prod.snd <$> s.putl l
  | .quad q => Prod.snd <$> s.putq q
  | .ipv4 l => Prod.snd <$> s.putIpv4 l
  | .block bytes => s.put (some bytes) bytes.length

def getValue (s : RawStream) : ValueKind → Except Fault (Value × RawStream)
  | .char => Prod.map Value.char id <$> s.getc
  | .word => Prod.map Value.word id <$> s.getw
  | .long => Prod.map Value.long id <$> s.getl
  | .quad => Prod.map Value.quad id <$> s.getq
  | .ipv4 => Prod.map Value.ipv4 id <$> s.getIpv4
  | .block n => Prod.map Value.block id <$> s.get n

end RawStream

/-- A value is put, or one of a kind is read. -/
inductive Move where
  | put (v : Value)
  | get (k : ValueKind)
  deriving DecidableEq, Repr

/-- The values read, in order, and the stream afterwards. -/
def runMoves : List Move → RawStream → Except Fault (List Value × RawStream)
  | [], s => .ok ([], s)
  | .put v :: moves, s => do
    let s ← s.putValue v
    runMoves moves s
  | .get k :: moves, s => do
    let (v, s) ← s.getValue k
    let (values, s) ← runMoves moves s
    return (v :: values, s)

def putsOf : List Move → List Value
  | [] => []
  | .put v :: moves => v :: putsOf moves
  | .get _ :: moves => putsOf moves

/-- Each value is read once, after it was put, by the function that matches it. -/
def Matched : List Value → List Move → Prop
  | pending, [] => pending = []
  | pending, .put v :: moves => Matched (pending ++ [v]) moves
  | [], .get _ :: _ => False
  | v :: pending, .get k :: moves => v.kind = k ∧ Matched pending moves

/-- All are put, and then all are read. -/
def putsThenGets (values : List Value) : List Move :=
  values.map .put ++ values.map fun v => .get v.kind

/-- Where a function reads, the one that reads from a position does. -/
structure RawStream.GetsAgree (s : RawStream) : Prop where
  char : Prod.fst <$> s.getc = s.getcFrom s.getp
  word : Prod.fst <$> s.getw = s.getwFrom s.getp
  long : Prod.fst <$> s.getl = s.getlFrom s.getp
  quad : Prod.fst <$> s.getq = s.getqFrom s.getp

/-- All but the bytes from `p` to `p + width` are kept. -/
structure RawStream.KeptOutside (s s' : RawStream) (p width : Nat) : Prop where
  getp : s'.getp = s.getp
  endp : s'.endp = s.endp
  size : s'.size = s.size
  data : ∀ j, j < p ∨ p + width ≤ j → s'.data[j]? = s.data[j]?

/-- What is put at a position is read from it, and all else is kept. -/
structure RawStream.PutsAt (s : RawStream) (p : Nat) : Prop where
  char : ∀ c, p + 1 ≤ s.endp →
    ∃ s', s.putcAt p c = .ok (1, s') ∧ s'.getcFrom p = .ok c ∧ s.KeptOutside s' p 1
  word : ∀ w, p + 2 ≤ s.endp →
    ∃ s', s.putwAt p w = .ok (2, s') ∧ s'.getwFrom p = .ok w ∧ s.KeptOutside s' p 2
  long : ∀ l, p + 4 ≤ s.endp →
    ∃ s', s.putlAt p l = .ok (4, s') ∧ s'.getlFrom p = .ok l ∧ s.KeptOutside s' p 4
  quad : ∀ q, p + 8 ≤ s.endp →
    ∃ s', s.putqAt p q = .ok (8, s') ∧ s'.getqFrom p = .ok q ∧ s.KeptOutside s' p 8

/-! ## The bytes of a value -/

section Encoding

theorem join_char (c : UInt8) : UInt8.ofNat (Bytes.join [0] (Bytes.cut c.toNat [0])) = c := by
  rw [Bytes.join_cut_of_lt 8 c.toNat_lt (by decide), UInt8.ofNat_toNat]

theorem join_word (w : UInt16) : UInt16.ofNat (Bytes.join [8, 0] (Bytes.cut w.toNat [8, 0])) = w := by
  rw [Bytes.join_cut_of_lt 16 w.toNat_lt (by decide), UInt16.ofNat_toNat]

theorem join_long (l : UInt32) :
    UInt32.ofNat (Bytes.join [24, 16, 8, 0] (Bytes.cut l.toNat [24, 16, 8, 0])) = l := by
  rw [Bytes.join_cut_of_lt 32 l.toNat_lt (by decide), UInt32.ofNat_toNat]

theorem join_quad (q : UInt64) : UInt64.ofNat (Bytes.join [56, 48, 40, 32, 24, 16, 8, 0]
    (Bytes.cut q.toNat [56, 48, 40, 32, 24, 16, 8, 0])) = q := by
  rw [Bytes.join_cut_of_lt 64 q.toNat_lt (by decide), UInt64.ofNat_toNat]

theorem join_ipv4 (l : UInt32) :
    UInt32.ofNat (Bytes.join [0, 8, 16, 24] (Bytes.cut l.toNat [0, 8, 16, 24])) = l := by
  rw [Bytes.join_cut_of_lt 32 l.toNat_lt (by decide), UInt32.ofNat_toNat]

end Encoding

namespace RawStream

/-- The bytes from `getp` to `endp`. -/
def unread (s : RawStream) : List UInt8 := (s.data.drop s.getp).take (s.endp - s.getp)

section Values

variable {s : RawStream} {bytes rest : List UInt8} {shifts : List Nat}

theorem unread_length (sane : s.Sane) : s.unread.length = s.endp - s.getp := by
  have order := sane.2
  unfold size at order
  rw [unread, List.length_take, List.length_drop]
  omega

theorem room_of_unread (sane : s.Sane) (stands : s.unread = bytes ++ rest) :
    s.getp + bytes.length ≤ s.endp := by
  have front := sane.1
  have length := unread_length sane
  rw [stands, List.length_append] at length
  omega

theorem front_of_unread (sane : s.Sane) (stands : s.unread = bytes ++ rest) :
    (s.data.drop s.getp).take bytes.length = bytes := by
  have room := room_of_unread sane stands
  have taken := congrArg (List.take bytes.length) stands
  rwa [unread, List.take_take, Nat.min_eq_left (by omega), List.take_left] at taken

theorem unread_behind (stands : s.unread = bytes ++ rest) :
    ({ s with getp := s.getp + bytes.length } : RawStream).unread = rest := by
  have dropped := congrArg (List.drop bytes.length) stands
  rw [unread, List.drop_take, List.drop_drop, List.drop_left, Nat.sub_sub] at dropped
  exact dropped

theorem readable_all (sane : s.Sane) (small : s.size ≤ INT_MAX) : s.readable = s.endp - s.getp := by
  have order := sane.2
  unfold INT_MAX at small
  exact readable_eq (by omega)

theorem getShifts_front (sane : s.Sane) (small : s.size ≤ INT_MAX)
    (stands : s.unread = bytes ++ rest) (length : bytes.length = shifts.length)
    (short : shifts.length ≤ 8) :
    s.getShifts shifts =
      .ok (Bytes.join shifts bytes, { s with getp := s.getp + bytes.length }) := by
  have room := room_of_unread sane stands
  have enough : ¬ s.readable < shifts.length := by
    rw [readable_all sane small]
    omega
  unfold INT_MAX at small
  rw [getShifts_eq sane (by omega) (by omega), if_neg enough, ← length,
    front_of_unread sane stands]

theorem get_front (sane : s.Sane) (small : s.size ≤ INT_MAX) (stands : s.unread = bytes ++ rest) :
    s.get bytes.length = .ok (bytes, { s with getp := s.getp + bytes.length }) := by
  have room := room_of_unread sane stands
  have enough : ¬ s.readable < bytes.length := by
    rw [readable_all sane small]
    omega
  have order := sane.2
  have next : sizeAdd s.getp bytes.length = s.getp + bytes.length :=
    sizeAdd_small (by unfold INT_MAX at small; omega)
  rw [get, verifySane_ok sane, ok_bind, if_neg enough, copyFrom, if_pos (by omega), ok_bind, next,
    front_of_unread sane stands]
  rfl

/-- The value in front, at its type. -/
theorem typed_front {α : Type} {f : Nat → α} {a : α} (make : α → Value) (sane : s.Sane)
    (small : s.size ≤ INT_MAX) (stands : s.unread = bytes ++ rest)
    (length : bytes.length = shifts.length) (short : shifts.length ≤ 8)
    (joined : f (Bytes.join shifts bytes) = a) :
    Prod.map make id <$> (do let (w, s) ← s.getShifts shifts; return (f w, s)) =
      .ok (make a, { s with getp := s.getp + bytes.length }) := by
  rw [getShifts_front sane small stands length short, ok_bind, ← joined]
  rfl

/-- The value in front is read by the function that matches it. -/
theorem getValue_front {v : Value} (sane : s.Sane) (small : s.size ≤ INT_MAX)
    (stands : s.unread = v.encoded ++ rest) :
    s.getValue v.kind = .ok (v, { s with getp := s.getp + v.encoded.length }) := by
  cases v with
  | char c => exact typed_front .char sane small stands rfl (by decide) (join_char c)
  | word w => exact typed_front .word sane small stands rfl (by decide) (join_word w)
  | long l => exact typed_front .long sane small stands rfl (by decide) (join_long l)
  | quad q => exact typed_front .quad sane small stands rfl (by decide) (join_quad q)
  | ipv4 l => exact typed_front .ipv4 sane small stands rfl (by decide) (join_ipv4 l)
  | block bytes =>
      have reads : s.get bytes.length = .ok (bytes, { s with getp := s.getp + bytes.length }) :=
        get_front sane small stands
      rw [Value.kind, getValue, reads]
      rfl

theorem putShifts_end {w : Nat} (sane : s.Sane) (small : s.size ≤ INT_MAX)
    (room : s.endp + shifts.length ≤ s.size) :
    Prod.snd <$> s.putShifts shifts w = .ok { s with
      data := Bytes.overwrite s.data s.endp (Bytes.cut w shifts)
      endp := s.endp + (Bytes.cut w shifts).length } := by
  have enough : ¬ s.writeable < shifts.length := by
    unfold writeable
    omega
  unfold INT_MAX at small
  rw [putShifts_eq sane (by omega), if_neg enough, Bytes.cut_length]
  rfl

/-- A value that fits is put at the end. -/
theorem putValue_end {v : Value} (sane : s.Sane) (small : s.size ≤ INT_MAX)
    (room : s.endp + v.encoded.length ≤ s.size) :
    s.putValue v = .ok { s with
      data := Bytes.overwrite s.data s.endp v.encoded
      endp := s.endp + v.encoded.length } := by
  cases v with
  | char | word | long | quad | ipv4 => exact putShifts_end sane small room
  | block bytes =>
      have whole : s.checkSize bytes.length = bytes.length := checkSize_fits room
      have enough : ¬ s.writeable < bytes.length := by
        dsimp only [Value.encoded] at room
        unfold writeable
        omega
      have source : ∀ src ∈ some bytes, bytes.length ≤ src.length := fun src same =>
        (Option.some.inj same) ▸ Nat.le_refl _
      unfold INT_MAX at small
      rw [putValue, put_eq sane (by omega) source, whole, if_neg enough, putBytes, List.take_length]
      rfl

theorem unread_put (sane : s.Sane) (bytes : List UInt8) :
    RawStream.unread { s with
      data := Bytes.overwrite s.data s.endp bytes
      endp := s.endp + bytes.length } = s.unread ++ bytes := by
  have front := sane.1
  have order := sane.2
  have skipped : s.getp ≤ (s.data.take s.endp).length := by
    rw [List.length_take]
    unfold size at order
    omega
  have split : (Bytes.overwrite s.data s.endp bytes).drop s.getp =
      s.unread ++ bytes ++ s.data.drop (s.endp + bytes.length) := by
    rw [Bytes.overwrite, List.append_assoc, List.drop_append_of_le_length skipped, List.drop_take,
      unread, List.append_assoc]
  have length : (s.unread ++ bytes).length = s.endp + bytes.length - s.getp := by
    rw [List.length_append, unread_length sane]
    omega
  dsimp only [unread]
  rw [split]
  exact List.take_left' length

theorem put_sane (sane : s.Sane) (room : s.endp + bytes.length ≤ s.size) :
    RawStream.Sane { s with
      data := Bytes.overwrite s.data s.endp bytes
      endp := s.endp + bytes.length } := by
  constructor
  · exact Nat.le_trans sane.1 (Nat.le_add_right _ _)
  · rw [size, Bytes.overwrite_length room]
    exact room

end Values

section Agreement

variable {s : RawStream} {shifts : List Nat} {p w : Nat}

/-- What stands at `getp` is read alike with and without moving it. -/
theorem getShifts_value (sane : s.Sane) (small : s.size ≤ INT_MAX) (short : shifts.length ≤ 8) :
    Prod.fst <$> s.getShifts shifts = s.getShiftsFrom shifts s.getp := by
  have front := sane.1
  have order := sane.2
  have readable := readable_all sane small
  unfold INT_MAX at small
  rw [getShifts_eq sane (by omega) (by omega), getShiftsFrom_eq sane (by omega) (by omega), readable]
  by_cases room : s.getp + shifts.length ≤ s.endp
  · rw [if_neg (by omega), if_pos room]
    rfl
  · rw [if_pos (by omega), if_neg room]
    rfl

theorem value_fst {α : Type} (f : Nat → α) {result : Except Fault (Nat × RawStream)}
    {value : Except Fault Nat} (same : Prod.fst <$> result = value) :
    Prod.fst <$> (do let (w, s) ← result; return (f w, s)) = (do return f (← value)) := by
  rw [← same]
  cases result <;> rfl

theorem getsAgree (sane : s.Sane) (small : s.size ≤ INT_MAX) : s.GetsAgree where
  char := value_fst _ (getShifts_value sane small (by decide))
  word := value_fst _ (getShifts_value sane small (by decide))
  long := value_fst _ (getShifts_value sane small (by decide))
  quad := value_fst _ (getShifts_value sane small (by decide))

/-- A value put in range is read back, and the rest of the stream is kept. -/
theorem putShiftsAt_value (shifts : List Nat) (w : Nat) (sane : s.Sane) (small : s.size ≤ INT_MAX)
    (inside : p + shifts.length ≤ s.endp) :
    ∃ s', s.putShiftsAt shifts p w = .ok (shifts.length, s') ∧
      s'.getShiftsFrom shifts p = .ok (Bytes.join shifts (Bytes.cut w shifts)) ∧
      s.KeptOutside s' p shifts.length := by
  have order := sane.2
  unfold INT_MAX at small
  have fits : p + (Bytes.cut w shifts).length ≤ s.data.length := by
    rw [Bytes.cut_length]
    exact Nat.le_trans inside order
  have length : (Bytes.overwrite s.data p (Bytes.cut w shifts)).length = s.size :=
    Bytes.overwrite_length fits
  refine ⟨{ s with data := Bytes.overwrite s.data p (Bytes.cut w shifts) }, ?_, ?_, ?_⟩
  · rw [putShiftsAt_eq sane (by omega) (by omega), if_pos inside]
  · have sane' : RawStream.Sane { s with data := Bytes.overwrite s.data p (Bytes.cut w shifts) } := by
      refine ⟨sane.1, ?_⟩
      rw [size, length]
      exact order
    have read : ((Bytes.overwrite s.data p (Bytes.cut w shifts)).drop p).take shifts.length =
        Bytes.cut w shifts := by
      rw [← Bytes.cut_length w shifts]
      exact Bytes.read_overwrite (Nat.le_trans (Nat.le_add_right _ _) fits)
    rw [getShiftsFrom_eq sane' (by rw [size, length]; omega) (by omega), if_pos inside, read]
  · refine ⟨rfl, rfl, length, fun j outside => ?_⟩
    rw [← Bytes.cut_length w] at outside
    exact Bytes.getElem?_overwrite fits outside

theorem putsAt (sane : s.Sane) (small : s.size ≤ INT_MAX) (p : Nat) : s.PutsAt p where
  char c inside := by
    obtain ⟨s', puts, reads, kept⟩ := putShiftsAt_value [0] c.toNat sane small inside
    refine ⟨s', puts, ?_, kept⟩
    rw [getcFrom, reads, ok_bind, join_char]
    rfl
  word w inside := by
    obtain ⟨s', puts, reads, kept⟩ := putShiftsAt_value [8, 0] w.toNat sane small inside
    refine ⟨s', puts, ?_, kept⟩
    rw [getwFrom, reads, ok_bind, join_word]
    rfl
  long l inside := by
    obtain ⟨s', puts, reads, kept⟩ := putShiftsAt_value [24, 16, 8, 0] l.toNat sane small inside
    refine ⟨s', puts, ?_, kept⟩
    rw [getlFrom, reads, ok_bind, join_long]
    rfl
  quad q inside := by
    obtain ⟨s', puts, reads, kept⟩ :=
      putShiftsAt_value [56, 48, 40, 32, 24, 16, 8, 0] q.toNat sane small inside
    refine ⟨s', puts, ?_, kept⟩
    rw [getqFrom, reads, ok_bind, join_quad]
    rfl

end Agreement

end RawStream

/-! ## Puts and gets -/

section Moves

variable {s : RawStream}

theorem matched_puts (pending values : List Value) (moves : List Move) :
    Matched pending (values.map .put ++ moves) ↔ Matched (pending ++ values) moves := by
  induction values generalizing pending with
  | nil => rw [List.map_nil, List.nil_append, List.append_nil]
  | cons v values ih =>
      rw [List.map_cons, List.cons_append, Matched, ih, List.append_assoc]
      rfl

theorem matched_gets (values : List Value) :
    Matched values (values.map fun v => .get v.kind) := by
  induction values with
  | nil => rfl
  | cons v values ih => exact ⟨rfl, ih⟩

theorem matched_putsThenGets (values : List Value) : Matched [] (putsThenGets values) := by
  rw [putsThenGets, matched_puts]
  exact matched_gets values

theorem putsOf_putsThenGets (values : List Value) : putsOf (putsThenGets values) = values := by
  have none_of_gets : ∀ kinds : List Value, putsOf (kinds.map fun v => .get v.kind) = [] := by
    intro kinds
    induction kinds with
    | nil => rfl
    | cons v kinds ih => exact ih
  have puts : ∀ (front : List Value) (moves : List Move),
      putsOf (front.map .put ++ moves) = front ++ putsOf moves := by
    intro front moves
    induction front with
    | nil => rfl
    | cons v front ih => exact congrArg (v :: ·) ih
  rw [putsThenGets, puts, none_of_gets, List.append_nil]

/-- What is pending is the unread part of the stream, and it is read before what is put later. -/
theorem runMoves_matched {moves : List Move} {pending : List Value} (sane : s.Sane)
    (small : s.size ≤ INT_MAX) (stands : s.unread = pending.flatMap Value.encoded)
    (fits : s.endp + encodedLength (putsOf moves) ≤ s.size) (matched : Matched pending moves) :
    ∃ s', runMoves moves s = .ok (pending ++ putsOf moves, s') ∧ s'.getp = s'.endp := by
  induction moves generalizing s pending with
  | nil =>
      cases matched
      have nothing := RawStream.unread_length sane
      rw [stands] at nothing
      have front := sane.1
      exact ⟨s, rfl, by simp only [List.flatMap_nil, List.length_nil] at nothing; omega⟩
  | cons move moves ih =>
      cases move with
      | put v =>
          have total : encodedLength (putsOf (.put v :: moves)) =
              v.encoded.length + encodedLength (putsOf moves) := List.sum_cons
          have room : s.endp + v.encoded.length ≤ s.size := by omega
          have size : (Bytes.overwrite s.data s.endp v.encoded).length = s.size :=
            Bytes.overwrite_length room
          have stands' : RawStream.unread { s with
                data := Bytes.overwrite s.data s.endp v.encoded
                endp := s.endp + v.encoded.length } =
              (pending ++ [v]).flatMap Value.encoded := by
            rw [RawStream.unread_put sane, stands, List.flatMap_append, List.flatMap_singleton]
          obtain ⟨s', runs, ends⟩ := ih (RawStream.put_sane sane room)
            (by rw [RawStream.size, size]; exact small) stands'
            (by rw [RawStream.size, size]; dsimp only; omega) matched
          refine ⟨s', ?_, ends⟩
          rw [runMoves, RawStream.putValue_end sane small room, ok_bind, runs, putsOf,
            List.append_assoc]
          rfl
      | get k =>
          cases pending with
          | nil => cases matched
          | cons v pending =>
              obtain ⟨rfl, later⟩ := matched
              rw [List.flatMap_cons] at stands
              have room := RawStream.room_of_unread sane stands
              have reads := RawStream.getValue_front sane small stands
              obtain ⟨s', runs, ends⟩ := ih (s := { s with getp := s.getp + v.encoded.length })
                ⟨room, sane.2⟩ small (RawStream.unread_behind stands) fits later
              refine ⟨s', ?_, ends⟩
              rw [runMoves, reads, ok_bind]
              dsimp only
              rw [runs]
              rfl

/-- A stream read to its end gives back what is put into it, in any interleaving; its other
ways to read and write agree. -/
theorem stream_values (sane : s.Sane) (small : s.size ≤ INT_MAX) :
    (s.getp = s.endp → ∀ values, s.endp + encodedLength values ≤ s.size →
      (∃ s', runMoves (putsThenGets values) s = .ok (values, s') ∧ s'.getp = s'.endp) ∧
      ∀ moves, putsOf moves = values → Matched [] moves →
        ∃ s', runMoves moves s = .ok (values, s') ∧ s'.getp = s'.endp) ∧
    s.GetsAgree ∧ ∀ p, s.PutsAt p := by
  refine ⟨fun done values fits => ?_, RawStream.getsAgree sane small, RawStream.putsAt sane small⟩
  have nothing : s.unread = [].flatMap Value.encoded := by
    rw [RawStream.unread, done, Nat.sub_self]
    rfl
  have any : ∀ moves, putsOf moves = values → Matched [] moves →
      ∃ s', runMoves moves s = .ok (values, s') ∧ s'.getp = s'.endp := by
    rintro moves rfl matched
    exact runMoves_matched sane small nothing fits matched
  exact ⟨any _ (putsOf_putsThenGets values) (matched_putsThenGets values), any⟩

theorem stream_values_sample :
    ∃ s', runMoves (putsThenGets [.word 513, .block [7]]) ⟨[0, 0, 0, 0], 1, 1⟩ =
      .ok ([.word 513, .block [7]], s') ∧ s'.getp = s'.endp := by
  have sane : RawStream.Sane ⟨[0, 0, 0, 0], 1, 1⟩ := by decide
  exact ((stream_values sane (by decide)).1 rfl _ (by decide)).1

end Moves

end Poplar
