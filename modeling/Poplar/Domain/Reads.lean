import Poplar.Domain.Message

/-!
# What the reads of a message see

A stream that is being parsed keeps its buffer and its end; what a read answers
depends on the bytes left before the end alone.
-/
namespace Poplar

namespace Stream

/-- The stream `t`, read until the bytes `left` are left. -/
structure Shows (s t : Stream) (left : List UInt8) : Prop where
  data : s.data = t.data
  endp : s.endp = t.endp
  unread : s.unread = left
  small : t.endp < 2 ^ 32

variable {s t : Stream} {left : List UInt8}

theorem Shows.drop (shows : s.Shows t left) :
    t.data.drop s.getp = left ++ s.beyond := by
  rw [← shows.data, ← shows.unread, data_drop]

theorem Shows.length (shows : s.Shows t left) : left.length = s.endp - s.getp := by
  rw [← shows.unread, unread_length]

theorem Shows.byte (shows : s.Shows t left) {i : Nat} {c : UInt8} (at_ : left[i]? = some c) :
    s.byte (s.getp + i) = c.toNat := by
  have found : (t.data.drop s.getp)[i]? = some c := by
    rw [shows.drop, List.getElem?_append_left (List.getElem?_eq_some_iff.mp at_).choose, at_]
  rw [List.getElem?_drop] at found
  simp [Stream.byte, shows.data, List.getD, found]

theorem Shows.two {a b : UInt8} {rest : List UInt8} (shows : s.Shows t (a :: b :: rest)) :
    s.getp + 2 ≤ s.endp := by
  have := shows.length
  rw [List.length_cons, List.length_cons] at this
  omega

theorem Shows.head {a b : UInt8} {rest : List UInt8} (shows : s.Shows t (a :: b :: rest)) :
    s.byte s.getp = a.toNat :=
  shows.byte (i := 0) rfl

theorem Shows.advance (shows : s.Shows t left) {n : Nat} (room : s.getp + n ≤ s.endp) :
    (s.advance n room).Shows t (left.drop n) :=
  ⟨shows.data, shows.endp, by rw [unread_advance, shows.unread], shows.small⟩

theorem Shows.readable (shows : s.Shows t left) {n : Nat} (small : n ≤ 2 ^ 31) :
    s.readable < n ↔ left.length < n := by
  have := shows.small
  have := shows.endp
  have := shows.length
  simp only [Stream.readable]
  split <;> omega

end Stream

variable {s t : Stream} {left rest : List UInt8}

theorem streamGetw_word {a b : UInt8} (shows : s.Shows t (a :: b :: rest)) :
    ∃ s', streamGetw s = .ok (a.toNat * 2 ^ 8 + b.toNat, s') ∧ s'.Shows t rest := by
  have enough : ¬ s.readable < 2 := by
    rw [shows.readable (by omega)]
    simp
  have high : s.byte s.getp = a.toNat := shows.byte (i := 0) rfl
  have low : s.byte (s.getp + 1) = b.toNat := shows.byte rfl
  refine ⟨_, ?_, shows.advance (n := 2) (Stream.readable_ge (by omega) enough)⟩
  simp only [streamGetw, dif_neg enough, high, low]

theorem streamGetw_short (shows : s.Shows t left) (short : left.length < 2) :
    streamGetw s = .error .assertFail := by
  rw [streamGetw, dif_pos ((shows.readable (by omega)).mpr short)]

theorem streamGetl_long {a b c d : UInt8} (shows : s.Shows t (a :: b :: c :: d :: rest)) :
    ∃ s', streamGetl s = .ok (a.toNat * 2 ^ 24 + b.toNat * 2 ^ 16 + c.toNat * 2 ^ 8 + d.toNat, s') ∧
      s'.Shows t rest := by
  have enough : ¬ s.readable < 4 := by
    rw [shows.readable (by omega)]
    simp
  have first : s.byte s.getp = a.toNat := shows.byte (i := 0) rfl
  have second : s.byte (s.getp + 1) = b.toNat := shows.byte rfl
  have third : s.byte (s.getp + 2) = c.toNat := shows.byte rfl
  have fourth : s.byte (s.getp + 3) = d.toNat := shows.byte rfl
  refine ⟨_, ?_, shows.advance (n := 4) (Stream.readable_ge (by omega) enough)⟩
  simp only [streamGetl, dif_neg enough, first, second, third, fourth]

theorem streamGetl_short (shows : s.Shows t left) (short : left.length < 4) :
    streamGetl s = .error .assertFail := by
  rw [streamGetl, dif_pos ((shows.readable (by omega)).mpr short)]

theorem streamForwardGetp_within (shows : s.Shows t left) {n : Nat} (within : n ≤ left.length) :
    ∃ s', streamForwardGetp s n = .ok s' ∧ s'.Shows t (left.drop n) := by
  have room : s.getp + n ≤ s.endp := by
    have := shows.length
    have := s.getpValid
    omega
  exact ⟨_, dif_pos room, shows.advance room⟩

theorem streamForwardGetp_short (shows : s.Shows t left) {n : Nat} (short : left.length < n) :
    streamForwardGetp s n = .error .assertFail := by
  have := shows.length
  have := s.getpValid
  exact dif_neg (by omega)

theorem streamGetwFrom_word {a b : UInt8} (shows : s.Shows t (a :: b :: rest)) :
    streamGetwFrom s s.getp = .ok (a.toNat * 2 ^ 8 + b.toNat) := by
  have room : s.getp + 2 ≤ s.endp := by
    have := shows.length
    simp only [List.length_cons] at this
    omega
  have high : s.byte s.getp = a.toNat := shows.byte (i := 0) rfl
  have low : s.byte (s.getp + 1) = b.toNat := shows.byte rfl
  simp only [streamGetwFrom, if_pos room, high, low]

theorem streamGetwFrom_short (shows : s.Shows t left) (short : left.length < 2) :
    streamGetwFrom s s.getp = .error .assertFail := by
  have := shows.length
  exact if_neg (by omega)

end Poplar
