import Poplar.Lib.Blocks
import Poplar.Lib.Bytes

/-!
# The message digest: common/md5.c

The message comes in pieces, and the context keeps what is no whole block yet.
-/
namespace Poplar.Md5

/-! ## Transform -/

def F (x y z : UInt32) : UInt32 := (x &&& y) ||| (~~~x &&& z)
def G (x y z : UInt32) : UInt32 := (x &&& z) ||| (y &&& ~~~z)
def H (x y z : UInt32) : UInt32 := x ^^^ y ^^^ z
def I (x y z : UInt32) : UInt32 := y ^^^ (x ||| ~~~z)

def rotateLeft (x n : UInt32) : UInt32 := (x <<< n) ||| (x >>> (32 - n))

/-- The variables of `Transform`. -/
inductive Reg
  | a | b | c | d
  deriving DecidableEq, Repr

structure Regs where
  a : UInt32
  b : UInt32
  c : UInt32
  d : UInt32
  deriving DecidableEq, Repr

def Regs.get (r : Regs) : Reg → UInt32
  | .a => r.a
  | .b => r.b
  | .c => r.c
  | .d => r.d

def Regs.set (r : Regs) (v : UInt32) : Reg → Regs
  | .a => { r with a := v }
  | .b => { r with b := v }
  | .c => { r with c := v }
  | .d => { r with d := v }

/-- A line of `Transform`: `in[k]` and the constant `ac` are added to the mixed variables, and
the sum is rotated by `s`. -/
structure Line where
  mix : UInt32 → UInt32 → UInt32 → UInt32
  a : Reg
  b : Reg
  c : Reg
  d : Reg
  k : Fin 16
  s : UInt32
  ac : UInt32

def FF : Reg → Reg → Reg → Reg → Fin 16 → UInt32 → UInt32 → Line := Line.mk F
def GG : Reg → Reg → Reg → Reg → Fin 16 → UInt32 → UInt32 → Line := Line.mk G
def HH : Reg → Reg → Reg → Reg → Fin 16 → UInt32 → UInt32 → Line := Line.mk H
def II : Reg → Reg → Reg → Reg → Fin 16 → UInt32 → UInt32 → Line := Line.mk I

def Line.run (x : Vector UInt32 16) (r : Regs) (line : Line) : Regs :=
  let mixed := line.mix (r.get line.b) (r.get line.c) (r.get line.d)
  let sum := r.get line.a + (mixed + x[line.k] + line.ac)
  r.set (rotateLeft sum line.s + r.get line.b) line.a

section Lines

open Reg

def round1 : List Line :=
  [FF a b c d 0 7 0xd76aa478, FF d a b c 1 12 0xe8c7b756,
    FF c d a b 2 17 0x242070db, FF b c d a 3 22 0xc1bdceee,
    FF a b c d 4 7 0xf57c0faf, FF d a b c 5 12 0x4787c62a,
    FF c d a b 6 17 0xa8304613, FF b c d a 7 22 0xfd469501,
    FF a b c d 8 7 0x698098d8, FF d a b c 9 12 0x8b44f7af,
    FF c d a b 10 17 0xffff5bb1, FF b c d a 11 22 0x895cd7be,
    FF a b c d 12 7 0x6b901122, FF d a b c 13 12 0xfd987193,
    FF c d a b 14 17 0xa679438e, FF b c d a 15 22 0x49b40821]

def round2 : List Line :=
  [GG a b c d 1 5 0xf61e2562, GG d a b c 6 9 0xc040b340,
    GG c d a b 11 14 0x265e5a51, GG b c d a 0 20 0xe9b6c7aa,
    GG a b c d 5 5 0xd62f105d, GG d a b c 10 9 0x2441453,
    GG c d a b 15 14 0xd8a1e681, GG b c d a 4 20 0xe7d3fbc8,
    GG a b c d 9 5 0x21e1cde6, GG d a b c 14 9 0xc33707d6,
    GG c d a b 3 14 0xf4d50d87, GG b c d a 8 20 0x455a14ed,
    GG a b c d 13 5 0xa9e3e905, GG d a b c 2 9 0xfcefa3f8,
    GG c d a b 7 14 0x676f02d9, GG b c d a 12 20 0x8d2a4c8a]

def round3 : List Line :=
  [HH a b c d 5 4 0xfffa3942, HH d a b c 8 11 0x8771f681,
    HH c d a b 11 16 0x6d9d6122, HH b c d a 14 23 0xfde5380c,
    HH a b c d 1 4 0xa4beea44, HH d a b c 4 11 0x4bdecfa9,
    HH c d a b 7 16 0xf6bb4b60, HH b c d a 10 23 0xbebfbc70,
    HH a b c d 13 4 0x289b7ec6, HH d a b c 0 11 0xeaa127fa,
    HH c d a b 3 16 0xd4ef3085, HH b c d a 6 23 0x4881d05,
    HH a b c d 9 4 0xd9d4d039, HH d a b c 12 11 0xe6db99e5,
    HH c d a b 15 16 0x1fa27cf8, HH b c d a 2 23 0xc4ac5665]

def round4 : List Line :=
  [II a b c d 0 6 0xf4292244, II d a b c 7 10 0x432aff97,
    II c d a b 14 15 0xab9423a7, II b c d a 5 21 0xfc93a039,
    II a b c d 12 6 0x655b59c3, II d a b c 3 10 0x8f0ccc92,
    II c d a b 10 15 0xffeff47d, II b c d a 1 21 0x85845dd1,
    II a b c d 8 6 0x6fa87e4f, II d a b c 15 10 0xfe2ce6e0,
    II c d a b 6 15 0xa3014314, II b c d a 13 21 0x4e0811a1,
    II a b c d 4 6 0xf7537e82, II d a b c 11 10 0xbd3af235,
    II c d a b 2 15 0x2ad7d2bb, II b c d a 9 21 0xeb86d391]

end Lines

def lines : List Line := round1 ++ round2 ++ round3 ++ round4

def transform (buf : Vector UInt32 4) (x : Vector UInt32 16) : Vector UInt32 4 :=
  let r := lines.foldl (Line.run x) ⟨buf[0], buf[1], buf[2], buf[3]⟩
  #v[buf[0] + r.a, buf[1] + r.b, buf[2] + r.c, buf[3] + r.d]

/-! ## The context -/

/-- `MD5_CTX`; `input` is its `in`. -/
structure Ctx where
  i : UInt32 × UInt32
  buf : Vector UInt32 4
  input : Vector UInt8 64
  digest : Vector UInt8 16

/-- The four bytes from `ii` on. -/
def word (bytes : List UInt8) (ii : Nat) : UInt32 :=
  (bytes.getD (ii + 3) 0).toUInt32 <<< 24 ||| (bytes.getD (ii + 2) 0).toUInt32 <<< 16 |||
    (bytes.getD (ii + 1) 0).toUInt32 <<< 8 ||| (bytes.getD ii 0).toUInt32

def words (bytes : List UInt8) : Vector UInt32 16 := Vector.ofFn fun i => word bytes (4 * i)

def magic : Vector UInt32 4 := #v[0x67452301, 0xefcdab89, 0x98badcfe, 0x10325476]

/-- What `in` and `digest` held they go on holding. -/
def md5Init (mdContext : Ctx) : Ctx := { mdContext with i := (0, 0), buf := magic }

def countBits (i : UInt32 × UInt32) (inLen : UInt32) : UInt32 × UInt32 :=
  let carried := if i.1 + (inLen <<< 3) < i.1 then i.2 + 1 else i.2
  (i.1 + (inLen <<< 3), carried + (inLen >>> 29))

/-- The number of bytes mod 64. -/
def mdi (i : UInt32 × UInt32) : Fin 64 :=
  ⟨((i.1 >>> 3) &&& 0x3F).toNat, by
    rw [UInt32.toNat_and]
    exact Nat.lt_of_le_of_lt Nat.and_le_right (by decide)⟩

/-- What the loop of `MD5Update` changes. -/
structure Filling where
  buf : Vector UInt32 4
  input : Vector UInt8 64
  mdi : Fin 64

def Filling.add (f : Filling) (c : UInt8) : Filling :=
  let input := f.input.set f.mdi c
  if full : f.mdi.val + 1 = 64 then
    { buf := transform f.buf (words input.toList), input, mdi := 0 }
  else { buf := f.buf, input, mdi := ⟨f.mdi.val + 1, by omega⟩ }

def md5Update (mdContext : Ctx) (inBuf : List UInt8) (inLen : UInt32) : Ctx :=
  let f := (inBuf.take inLen.toNat).foldl Filling.add
    { buf := mdContext.buf, input := mdContext.input, mdi := mdi mdContext.i }
  { mdContext with i := countBits mdContext.i inLen, buf := f.buf, input := f.input }

def padding : List UInt8 := 0x80 :: List.replicate 63 0

def storeWord (w : UInt32) : List UInt8 :=
  [(w &&& 0xFF).toUInt8, ((w >>> 8) &&& 0xFF).toUInt8, ((w >>> 16) &&& 0xFF).toUInt8,
    ((w >>> 24) &&& 0xFF).toUInt8]

def padLen (mdi : Nat) : Nat := if mdi < 56 then 56 - mdi else 120 - mdi

def md5Final (mdContext : Ctx) : Ctx :=
  let padded := md5Update mdContext padding (UInt32.ofNat (padLen (mdi mdContext.i)))
  let x := ((words padded.input.toList).set 14 mdContext.i.1).set 15 mdContext.i.2
  let buf := transform padded.buf x
  { padded with
    buf
    digest := ⟨(buf.toList.flatMap storeWord).toArray, by simp [storeWord]⟩ }

/-! ## The digest of a message -/

def compress (buf : Vector UInt32 4) (block : List UInt8) : Vector UInt32 4 :=
  transform buf (words block)

/-- The number of bits of `n` bytes mod 2 ^ 64, the lowest byte first. -/
def lengthBytes (n : Nat) : List UInt8 := Bytes.cut (8 * n) [0, 8, 16, 24, 32, 40, 48, 56]

/-- A one bit, zeros up to 56 bytes mod 64, and the length. -/
def pad (message : List UInt8) : List UInt8 :=
  message ++ 0x80 :: List.replicate ((119 - message.length % 64) % 64) 0 ++
    lengthBytes message.length

def digestOf (message : List UInt8) : List UInt8 :=
  ((Blocks.whole 64 (pad message)).foldl compress magic).toList.flatMap fun w =>
    Bytes.cut w.toNat [0, 8, 16, 24]

/-! ## The number of bits -/

def bits (n : Nat) : UInt32 × UInt32 := (UInt32.ofNat (8 * n), UInt32.ofNat (8 * n / 2 ^ 32))

theorem bits_shift (n : Nat) (short : n < 2 ^ 32) :
    (UInt32.ofNat n <<< 3).toNat = 8 * n % 2 ^ 32 ∧
      (UInt32.ofNat n >>> 29).toNat = 8 * n / 2 ^ 32 := by
  constructor
  · rw [UInt32.toNat_shiftLeft, UInt32.toNat_ofNat', Nat.mod_eq_of_lt short, Nat.shiftLeft_eq]
    show n * 2 ^ 3 % 2 ^ 32 = _
    omega
  · rw [UInt32.toNat_shiftRight, UInt32.toNat_ofNat', Nat.mod_eq_of_lt short,
      Nat.shiftRight_eq_div_pow]
    show n / 2 ^ 29 = _
    omega

theorem countBits_bits (m n : Nat) (short : n < 2 ^ 32) :
    countBits (bits m) (UInt32.ofNat n) = bits (m + n) := by
  obtain ⟨low, high⟩ := bits_shift n short
  have sum : (UInt32.ofNat (8 * m) + UInt32.ofNat n <<< 3).toNat = (8 * m + 8 * n) % 2 ^ 32 := by
    rw [UInt32.toNat_add, low, UInt32.toNat_ofNat']
    omega
  have carried : UInt32.ofNat (8 * m) + UInt32.ofNat n <<< 3 < UInt32.ofNat (8 * m) ↔
      2 ^ 32 ≤ 8 * m % 2 ^ 32 + 8 * n % 2 ^ 32 := by
    rw [UInt32.lt_iff_toNat_lt, sum, UInt32.toNat_ofNat']
    omega
  unfold countBits bits
  dsimp only
  apply Prod.ext
  · apply UInt32.toNat_inj.mp
    rw [sum, UInt32.toNat_ofNat', Nat.mul_add]
  · apply UInt32.toNat_inj.mp
    dsimp only
    rw [UInt32.toNat_add, high, UInt32.toNat_ofNat']
    by_cases carry : 2 ^ 32 ≤ 8 * m % 2 ^ 32 + 8 * n % 2 ^ 32
    · rw [if_pos (carried.mpr carry), UInt32.toNat_add, UInt32.toNat_ofNat',
        show (1 : UInt32).toNat = 1 from rfl]
      omega
    · rw [if_neg (fun less => carry (carried.mp less)), UInt32.toNat_ofNat']
      omega

theorem mdi_bits (n : Nat) : (mdi (bits n)).val = n % 64 := by
  have low : ((UInt32.ofNat (8 * n)) >>> 3).toNat = 8 * n % 2 ^ 32 / 2 ^ 3 := by
    rw [UInt32.toNat_shiftRight, UInt32.toNat_ofNat', Nat.shiftRight_eq_div_pow]
    rfl
  show (UInt32.ofNat (8 * n) >>> 3 &&& 0x3F).toNat = _
  rw [UInt32.toNat_and, low]
  show _ &&& (2 ^ 6 - 1) = _
  rw [Nat.and_two_pow_sub_one_eq_mod]
  omega

/-! ## The buffer -/

/-- What waits for its block stands at the front of the buffer. -/
structure Waits (f : Filling) (s : Vector UInt32 4 × List UInt8) : Prop where
  buf : f.buf = s.1
  waiting : f.input.toList.take f.mdi = s.2

theorem Waits.length {f : Filling} {s : Vector UInt32 4 × List UInt8} (waits : Waits f s) :
    s.2.length = f.mdi := by
  rw [← waits.waiting, List.length_take, Vector.length_toList]
  omega

theorem Waits.add {f : Filling} {s : Vector UInt32 4 × List UInt8} (waits : Waits f s) (c : UInt8) :
    Waits (f.add c) (Blocks.push 64 compress s c) := by
  have length := waits.length
  have front : (f.input.set f.mdi c).toList.take (f.mdi + 1) = s.2 ++ [c] := by
    rw [Vector.toList_set, List.take_add_one, List.take_set_of_le (Nat.le_refl _), waits.waiting,
      List.getElem?_set_self (by rw [Vector.length_toList]; exact f.mdi.isLt)]
    rfl
  unfold Filling.add Blocks.push
  by_cases full : f.mdi.val + 1 = 64
  · rw [dif_pos full, if_pos (length ▸ full)]
    have block : (f.input.set f.mdi c).toList = s.2 ++ [c] := by
      rw [← front, full, List.take_of_length_le (by rw [Vector.length_toList])]
    constructor
    · rw [compress, ← block, waits.buf]
    · exact List.take_zero
  · rw [dif_neg full, if_neg (length ▸ full)]
    exact ⟨waits.buf, front⟩

theorem Waits.adds {f : Filling} {s : Vector UInt32 4 × List UInt8} (waits : Waits f s)
    (cs : List UInt8) : Waits (cs.foldl Filling.add f) (cs.foldl (Blocks.push 64 compress) s) := by
  induction cs generalizing f s with
  | nil => exact waits
  | cons c cs ih => exact ih (waits.add c)

/-! ## Pieces of a message -/

/-- The state after the whole blocks of a message, and what waits. -/
def taken (message : List UInt8) : Vector UInt32 4 × List UInt8 :=
  message.foldl (Blocks.push 64 compress) (magic, [])

theorem taken_append (message piece : List UInt8) :
    taken (message ++ piece) = piece.foldl (Blocks.push 64 compress) (taken message) :=
  List.foldl_append

theorem taken_eq (message : List UInt8) :
    taken message = ((Blocks.whole 64 message).foldl compress magic, Blocks.left 64 message) :=
  Blocks.foldl_push (by decide) _ _

theorem waiting_length (message : List UInt8) : (taken message).2.length = message.length % 64 := by
  rw [taken_eq]
  exact Blocks.left_length message

/-- A context that has taken a message in. -/
structure Took (mdContext : Ctx) (message : List UInt8) : Prop where
  i : mdContext.i = bits message.length
  waits : Waits ⟨mdContext.buf, mdContext.input, mdi mdContext.i⟩ (taken message)

theorem took_init (mdContext : Ctx) : Took (md5Init mdContext) [] := by
  constructor
  · rfl
  · have none : mdi (0, 0) = 0 := by decide
    rw [show (md5Init mdContext).i = (0, 0) from rfl, none]
    exact ⟨rfl, List.take_zero⟩

theorem Took.update {mdContext : Ctx} {message inBuf : List UInt8} {n : Nat}
    (took : Took mdContext message) (inside : n ≤ inBuf.length) (short : n < 2 ^ 32) :
    Took (md5Update mdContext inBuf (UInt32.ofNat n)) (message ++ inBuf.take n) := by
  have bytes : (UInt32.ofNat n).toNat = n := by
    rw [UInt32.toNat_ofNat', Nat.mod_eq_of_lt short]
  have counted :
      countBits mdContext.i (UInt32.ofNat n) = bits (message ++ inBuf.take n).length := by
    rw [took.i, countBits_bits _ _ short, List.length_append, List.length_take,
      Nat.min_eq_left inside]
  have filled := took.waits.adds (inBuf.take n)
  rw [← taken_append] at filled
  unfold md5Update
  rw [bytes]
  constructor
  · exact counted
  · have length := filled.length
    rw [waiting_length, ← mdi_bits, ← counted] at length
    exact ⟨filled.buf, length ▸ filled.waiting⟩

/-! ## The end -/

theorem word_append (front behind : List UInt8) (ii : Nat) (inside : ii + 3 < front.length) :
    word (front ++ behind) ii = word front ii := by
  unfold word
  rw [List.getD_append _ _ _ _ (by omega), List.getD_append _ _ _ _ (by omega),
    List.getD_append _ _ _ _ (by omega), List.getD_append _ _ _ _ (by omega)]

theorem word_behind (front behind : List UInt8) (k : Nat) :
    word (front ++ behind) (front.length + k) = word behind k := by
  unfold word
  rw [Nat.add_assoc, Nat.add_assoc, Nat.add_assoc, List.getD_append_right _ _ _ _ (by omega),
    List.getD_append_right _ _ _ _ (by omega), List.getD_append_right _ _ _ _ (by omega),
    List.getD_append_right _ _ _ _ (by omega)]
  simp only [Nat.add_sub_cancel_left]

theorem byte_shift (m : Nat) {shift : Nat} {s : UInt32} (amount : s.toNat = shift)
    (inside : shift < 32) (i : Nat) (below : i < 32) :
    ((UInt8.ofNat (m >>> shift)).toUInt32 <<< s).toNat.testBit i =
      (decide (shift ≤ i ∧ i < shift + 8) && m.testBit i) := by
  rw [UInt32.toNat_shiftLeft, amount, Nat.mod_eq_of_lt inside, UInt8.toNat_toUInt32,
    Nat.testBit_mod_two_pow, decide_eq_true below, Bool.true_and, Bytes.testBit_byte]

theorem word_cut (m : Nat) :
    (UInt8.ofNat (m >>> 24)).toUInt32 <<< 24 ||| (UInt8.ofNat (m >>> 16)).toUInt32 <<< 16 |||
      (UInt8.ofNat (m >>> 8)).toUInt32 <<< 8 ||| (UInt8.ofNat (m >>> 0)).toUInt32 =
        UInt32.ofNat m := by
  apply UInt32.toNat_inj.mp
  apply Nat.eq_of_testBit_eq
  intro i
  by_cases below : i < 32
  · have lowest : (UInt8.ofNat (m >>> 0)).toUInt32.toNat.testBit i =
        (decide (i < 8) && m.testBit i) := by
      have := Bytes.testBit_byte m 0 i
      rw [Nat.shiftLeft_zero, Nat.zero_add] at this
      rw [UInt8.toNat_toUInt32, this]
      simp
    have highest := @byte_shift m 24 24 rfl (by decide) i below
    have third := @byte_shift m 16 16 rfl (by decide) i below
    have second := @byte_shift m 8 8 rfl (by decide) i below
    rw [UInt32.toNat_or, UInt32.toNat_or, UInt32.toNat_or, Nat.testBit_or, Nat.testBit_or,
      Nat.testBit_or, highest, third, second, lowest]
    rw [UInt32.toNat_ofNat', Nat.testBit_mod_two_pow, decide_eq_true below, Bool.true_and,
      ← Bool.and_or_distrib_right, ← Bool.and_or_distrib_right, ← Bool.and_or_distrib_right,
      Bool.and_eq_right_iff_imp]
    intro _
    simp only [Bool.or_eq_true, decide_eq_true_eq]
    omega
  · have above : 2 ^ 32 ≤ 2 ^ i := Nat.pow_le_pow_right (by decide) (by omega)
    rw [Nat.testBit_lt_two_pow (Nat.lt_of_lt_of_le (UInt32.toNat_lt _) above),
      Nat.testBit_lt_two_pow (Nat.lt_of_lt_of_le (UInt32.toNat_lt _) above)]

theorem word_length (n : Nat) : word (lengthBytes n) 0 = (bits n).1 := word_cut (8 * n)

theorem word_length_high (n : Nat) : word (lengthBytes n) 4 = (bits n).2 := by
  have high := word_cut ((8 * n) >>> 32)
  rw [← Nat.shiftRight_add, ← Nat.shiftRight_add, ← Nat.shiftRight_add,
    ← Nat.shiftRight_add] at high
  rw [bits, ← Nat.shiftRight_eq_div_pow]
  exact high

/-- The length stands in the last two words of a block. -/
theorem words_length (waiting rest : List UInt8) (n : Nat) (length : waiting.length = 56) :
    ((words (waiting ++ rest)).set 14 (bits n).1).set 15 (bits n).2 =
      words (waiting ++ lengthBytes n) := by
  apply Vector.ext
  intro i inside
  have behind := word_behind waiting (lengthBytes n)
  rw [length] at behind
  by_cases last : i = 15
  · subst last
    rw [Vector.getElem_set_self, words, Vector.getElem_ofFn]
    exact (word_length_high n).symm.trans (behind 4).symm
  · rw [Vector.getElem_set_ne _ _ (Ne.symm last)]
    by_cases before : i = 14
    · subst before
      rw [Vector.getElem_set_self, words, Vector.getElem_ofFn]
      exact (word_length n).symm.trans (behind 0).symm
    · rw [Vector.getElem_set_ne _ _ (Ne.symm before), words, Vector.getElem_ofFn, words,
        Vector.getElem_ofFn, word_append _ _ _ (by dsimp only; omega),
        word_append _ _ _ (by dsimp only; omega)]

theorem storeWord_eq (w : UInt32) : storeWord w = Bytes.cut w.toNat [0, 8, 16, 24] := by
  have byte : ∀ v : UInt32, (v &&& 0xFF).toUInt8 = UInt8.ofNat v.toNat := by
    intro v
    apply UInt8.toNat_inj.mp
    rw [UInt32.toNat_toUInt8, UInt32.toNat_and, UInt8.toNat_ofNat']
    show (_ &&& (2 ^ 8 - 1)) % 2 ^ 8 = _
    rw [Nat.and_two_pow_sub_one_eq_mod, Nat.mod_mod]
  unfold storeWord Bytes.cut
  simp only [byte, UInt32.toNat_shiftRight, List.map_cons, List.map_nil]
  rfl

/-- `padLen` bytes of the padding fill a block up to the length. -/
theorem pad_split (message : List UInt8) :
    let padded := message ++ padding.take (padLen (message.length % 64))
    padLen (message.length % 64) ≤ padding.length ∧ padded.length % 64 = 56 ∧
      pad message = padded ++ lengthBytes message.length := by
  intro padded
  have size : padding.length = 64 := rfl
  have range : 1 ≤ padLen (message.length % 64) ∧ padLen (message.length % 64) ≤ 64 ∧
      (message.length + padLen (message.length % 64)) % 64 = 56 ∧
      padLen (message.length % 64) - 1 = (119 - message.length % 64) % 64 := by
    unfold padLen
    split <;> omega
  obtain ⟨some, small, fills, zeros⟩ := range
  have front : padding.take (padLen (message.length % 64)) =
      0x80 :: List.replicate ((119 - message.length % 64) % 64) 0 := by
    obtain ⟨k, more⟩ := Nat.exists_eq_add_of_le' some
    rw [← zeros, more, padding, List.take_succ_cons, List.take_replicate]
    congr 2
    omega
  refine ⟨small, ?_, ?_⟩
  · rw [List.length_append, List.length_take, size, Nat.min_eq_left small]
    exact fills
  · dsimp only [padded]
    rw [front, pad]

/-- The last block: what waits after the padding, and the length. -/
theorem Took.last {padded : Ctx} {front : List UInt8} (took : Took padded front)
    (fifty : front.length % 64 = 56) (n : Nat) :
    transform padded.buf (((words padded.input.toList).set 14 (bits n).1).set 15 (bits n).2) =
      (taken (front ++ lengthBytes n)).1 := by
  have waiting : padded.input.toList.take 56 = (taken front).2 := by
    have stands := took.waits.waiting
    rwa [took.i, mdi_bits, fifty] at stands
  have short : (taken front).2.length = 56 := by rw [waiting_length, fifty]
  have input : ((words padded.input.toList).set 14 (bits n).1).set 15 (bits n).2 =
      words ((taken front).2 ++ lengthBytes n) := by
    rw [← words_length _ (padded.input.toList.drop 56) _ short, ← waiting, List.take_append_drop]
  have block : taken (front ++ lengthBytes n) =
      (compress (taken front).1 ((taken front).2 ++ lengthBytes n), []) := by
    rw [taken_append]
    exact Blocks.foldl_push_fill _ _ _ (List.cons_ne_nil _ _)
      (show (taken front).2.length + 8 = 64 by rw [short])
  rw [block, input]
  exact congrArg (compress · _) took.waits.buf

theorem Took.digest {mdContext : Ctx} {message : List UInt8} (took : Took mdContext message) :
    (md5Final mdContext).digest.toList = digestOf message := by
  obtain ⟨small, fifty, whole⟩ := pad_split message
  have length : (mdi mdContext.i).val = message.length % 64 := by rw [took.i, mdi_bits]
  have filled := took.update small (Nat.lt_of_le_of_lt small (by decide))
  have last := filled.last fifty message.length
  rw [← whole, ← length, ← took.i, taken_eq] at last
  dsimp only at last
  unfold digestOf
  rw [← last]
  simp only [← storeWord_eq]
  rfl

/-- `MD5Update` with one piece after the other. -/
def updates (mdContext : Ctx) (pieces : List (List UInt8)) : Ctx :=
  pieces.foldl (fun mdContext piece => md5Update mdContext piece (UInt32.ofNat piece.length))
    mdContext

theorem Took.updates {mdContext : Ctx} {message : List UInt8} {pieces : List (List UInt8)}
    (took : Took mdContext message) (short : ∀ piece ∈ pieces, piece.length < 2 ^ 32) :
    Took (updates mdContext pieces) (message ++ pieces.flatten) := by
  induction pieces generalizing mdContext message with
  | nil =>
    rw [List.flatten_nil, List.append_nil]
    exact took
  | cons piece pieces ih =>
    obtain ⟨first, others⟩ := List.forall_mem_cons.mp short
    have one := took.update (Nat.le_refl piece.length) first
    rw [List.take_length] at one
    have all := ih one others
    rwa [List.append_assoc] at all

/-- Whatever the context held, the digest is that of the pieces together. -/
theorem pieces_digest (mdContext : Ctx) (pieces : List (List UInt8))
    (short : ∀ piece ∈ pieces, piece.length < 2 ^ 32) :
    (md5Final (updates (md5Init mdContext) pieces)).digest.toList = digestOf pieces.flatten :=
  ((took_init mdContext).updates short).digest

theorem pieces_digest_sample :
    (md5Final (updates (md5Init ⟨(8, 0), magic, Vector.replicate 64 7, Vector.replicate 16 9⟩)
      [[97], [], [98, 99]])).digest.toList = digestOf [97, 98, 99] :=
  pieces_digest _ [[97], [], [98, 99]] (by decide)

/-- The first bytes of the known digest of "abc". -/
example : (digestOf [97, 98, 99]).take 4 = [0x90, 0x01, 0x50, 0x98] := by decide +kernel

/-! ## The lines lose nothing -/

theorem sub_amount {n : UInt32} (range : n.toNat < 32) : (32 - n).toNat = 32 - n.toNat := by
  rw [UInt32.toNat_sub_of_le _ _ (UInt32.le_iff_toNat_le.mpr (Nat.le_of_lt range))]
  rfl

theorem rotateLeft_bits {n : UInt32} (turns : 0 < n.toNat) (range : n.toNat < 32) (x : UInt32) :
    (rotateLeft x n).toBitVec = x.toBitVec.rotateLeft n.toNat := by
  have down : (32 - n).toBitVec.toNat % 32 = 32 - n.toNat % 32 := by
    have amount := sub_amount range
    rw [UInt32.toNat_toBitVec, amount]
    omega
  unfold rotateLeft
  rw [BitVec.rotateLeft_def, ← down, UInt32.toBitVec_or, UInt32.toBitVec_shiftLeft,
    UInt32.toBitVec_shiftRight, BitVec.shiftLeft_eq', BitVec.ushiftRight_eq', BitVec.toNat_umod,
    BitVec.toNat_umod]
  rfl

theorem rotateLeft_back {n : UInt32} (turns : 0 < n.toNat) (range : n.toNat < 32) (x : UInt32) :
    rotateLeft (rotateLeft x n) (32 - n) = x := by
  have down := sub_amount range
  have amount : n.toNat % 32 = n.toNat := Nat.mod_eq_of_lt range
  have amount' : (32 - n.toNat) % 32 = 32 - n.toNat := Nat.mod_eq_of_lt (by omega)
  apply UInt32.toBitVec_inj.mp
  rw [rotateLeft_bits (by omega) (by omega), rotateLeft_bits turns range, down]
  apply BitVec.eq_of_getElem_eq
  intro i inside
  simp only [BitVec.getElem_rotateLeft, amount, amount']
  split_ifs <;> first | omega | (congr 1; omega)

theorem Regs.get_set (r : Regs) (v : UInt32) (reg : Reg) : (r.set v reg).get reg = v := by
  cases reg <;> rfl

theorem Regs.get_set_ne (r : Regs) (v : UInt32) {reg other : Reg} (apart : other ≠ reg) :
    (r.set v reg).get other = r.get other := by
  cases reg <;> cases other <;> first | rfl | exact absurd rfl apart

theorem Regs.set_get (r : Regs) (reg : Reg) : r.set (r.get reg) reg = r := by
  cases reg <;> rfl

theorem Regs.set_set (r : Regs) (v w : UInt32) (reg : Reg) :
    (r.set v reg).set w reg = r.set w reg := by
  cases reg <;> rfl

/-- A line changes none of the variables it mixes, and its rotation is a proper one. -/
structure Line.Sound (line : Line) : Prop where
  b : line.b ≠ line.a
  c : line.c ≠ line.a
  d : line.d ≠ line.a
  turns : 0 < line.s.toNat
  range : line.s.toNat < 32

/-- The line backwards. -/
def Line.undo (x : Vector UInt32 16) (r : Regs) (line : Line) : Regs :=
  let mixed := line.mix (r.get line.b) (r.get line.c) (r.get line.d)
  let sum := rotateLeft (r.get line.a - r.get line.b) (32 - line.s)
  r.set (sum - (mixed + x[line.k] + line.ac)) line.a

instance (line : Line) : Decidable line.Sound :=
  decidable_of_iff (line.b ≠ line.a ∧ line.c ≠ line.a ∧ line.d ≠ line.a ∧
    0 < line.s.toNat ∧ line.s.toNat < 32)
    ⟨fun ⟨b, c, d, turns, range⟩ => ⟨b, c, d, turns, range⟩,
      fun ⟨b, c, d, turns, range⟩ => ⟨b, c, d, turns, range⟩⟩

theorem lines_sound : ∀ line ∈ lines, line.Sound := by decide

theorem Line.Sound.undo_run {line : Line} (sound : line.Sound) (x : Vector UInt32 16) (r : Regs) :
    line.undo x (line.run x r) = r := by
  unfold Line.undo Line.run
  dsimp only
  rw [Regs.get_set, Regs.get_set_ne _ _ sound.b, Regs.get_set_ne _ _ sound.c,
    Regs.get_set_ne _ _ sound.d, UInt32.add_sub_cancel, rotateLeft_back sound.turns sound.range,
    UInt32.add_sub_cancel, Regs.set_set, Regs.set_get]

theorem Line.Sound.run_undo {line : Line} (sound : line.Sound) (x : Vector UInt32 16) (r : Regs) :
    line.run x (line.undo x r) = r := by
  have down := sub_amount sound.range
  have back := rotateLeft_back (n := 32 - line.s) (by have := sound.range; omega)
    (by have := sound.turns; omega) (r.get line.a - r.get line.b)
  have twice : 32 - (32 - line.s) = line.s := by
    apply UInt32.toNat_inj.mp
    rw [sub_amount (by have := sound.turns; omega), down]
    have := sound.range
    omega
  rw [twice] at back
  unfold Line.undo Line.run
  dsimp only
  rw [Regs.get_set, Regs.get_set_ne _ _ sound.b, Regs.get_set_ne _ _ sound.c,
    Regs.get_set_ne _ _ sound.d, UInt32.sub_add_cancel, back, UInt32.sub_add_cancel, Regs.set_set,
    Regs.set_get]

/-- For every block the lines permute what the variables can hold. -/
theorem lines_bijective (x : Vector UInt32 16) :
    Function.Bijective fun r => lines.foldl (Line.run x) r := by
  apply Blocks.bijective_foldl
  intro line among
  have sound := lines_sound line among
  exact Function.bijective_iff_has_inverse.mpr
    ⟨(line.undo x ·), sound.undo_run x, sound.run_undo x⟩

end Poplar.Md5
