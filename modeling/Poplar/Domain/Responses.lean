import Poplar.Domain.Answers
import Poplar.Domain.RoundTrip

/-!
# Responses of a server

Which well-formed responses the parser understands: what it makes of the three forms of
an owner name, and which bit of `Flags` it looks at.
-/
namespace Poplar.Domain

/-- No byte of a label is NUL. -/
def Clean (labels : List (List UInt8)) : Prop := ∀ label ∈ labels, ∀ c ∈ label, c ≠ 0

/-- Labels as a name has them. -/
def Sized (labels : List (List UInt8)) : Prop :=
  ∀ label ∈ labels, label ≠ [] ∧ label.length ≤ 63

instance (labels : List (List UInt8)) : Decidable (Clean labels) :=
  inferInstanceAs (Decidable (∀ label ∈ labels, ∀ c ∈ label, c ≠ 0))

instance (labels : List (List UInt8)) : Decidable (Sized labels) :=
  inferInstanceAs (Decidable (∀ label ∈ labels, label ≠ [] ∧ label.length ≤ 63))

section Names

variable {labels : List (List UInt8)} {rest : List UInt8}

theorem Sized.short (sized : Sized labels) : ∀ label ∈ labels, label.length < 128 :=
  fun label member => Nat.lt_of_le_of_lt (sized label member).2 (by decide)

theorem wire_nonzero (sized : Sized labels) (clean : Clean labels) : ∀ c ∈ wire labels, c ≠ 0 := by
  intro c member zero
  obtain ⟨label, inside, here⟩ := List.mem_flatMap.mp member
  rcases List.mem_cons.mp here with length | plain
  · have positive : 0 < label.length := List.length_pos_iff.mpr (sized label inside).1
    have := toNat_ofNat_length (sized.short label inside)
    rw [← length, zero, UInt8.toNat_zero] at this
    omega
  · exact clean label inside c plain zero

theorem nameText_append {text : List UInt8} (nonzero : ∀ c ∈ text, c ≠ 0) (rest : List UInt8) :
    nameText (text ++ rest) = text ++ nameText rest :=
  List.takeWhile_append_of_pos (by simpa using nonzero)

/-- The length in front of a label is the first byte of a name. -/
theorem headD_wire {label : List UInt8} (sized : Sized (label :: labels)) :
    ((wire (label :: labels) ++ rest).headD 0).toNat = label.length := by
  have short := sized.short label (by simp)
  rw [wire_cons]
  exact toNat_ofNat_length short

theorem two_le_wire {label : List UInt8} (sized : Sized (label :: labels)) :
    2 ≤ (wire (label :: labels) ++ rest).length := by
  have positive : 0 < label.length := List.length_pos_iff.mpr (sized label (by simp)).1
  rw [wire_cons, List.length_append, List.length_append, List.length_cons]
  omega

theorem plain_wire {label : List UInt8} (sized : Sized (label :: labels)) :
    ((wire (label :: labels) ++ rest).headD 0).toNat < 192 := by
  rw [headD_wire sized]
  have := (sized label (by simp)).2
  omega

/-- A plain name without a NUL in it is taken. -/
theorem row_wire (some_ : labels ≠ []) (sized : Sized labels) (clean : Clean labels)
    (rest : List UInt8) :
    Row (wire labels ++ 0 :: rest) ∧ behindName (wire labels ++ 0 :: rest) = rest := by
  have text : nameText (wire labels ++ 0 :: rest) = wire labels := by
    have nul : nameText (0 :: rest) = [] := by simp [nameText]
    rw [nameText_append (wire_nonzero sized clean), nul, List.append_nil]
  obtain ⟨label, labels, rfl⟩ := List.exists_cons_of_ne_nil some_
  constructor
  · refine ⟨two_le_wire sized, plain_wire sized, ?_, _, some_, sized.short, text⟩
    rw [text, List.length_append, List.length_cons]
    omega
  · rw [behindName, if_neg (Nat.not_le.mpr (plain_wire sized)), text, List.append_cons]
    exact List.drop_left' (by rw [List.length_append]; rfl)

/-- A NUL inside a label cuts the name off before the label ends. -/
theorem refusedText_unclean (sized : Sized labels) (unclean : ¬ Clean labels) :
    RefusedText (nameText (wire labels ++ rest)) := by
  induction labels with
  | nil => exact absurd (fun label member => by cases member) unclean
  | cons label labels ih =>
      obtain ⟨⟨nonempty, _⟩, later⟩ := List.forall_mem_cons.mp sized
      have short := sized.short label (by simp)
      have number := toNat_ofNat_length short
      have positive : 0 < label.length := List.length_pos_iff.mpr nonempty
      have visible : UInt8.ofNat label.length ≠ 0 := fun zero => by
        rw [zero, UInt8.toNat_zero] at number
        omega
      rw [wire_cons, List.append_assoc]
      by_cases nul : 0 ∈ label
      · obtain ⟨front, back, split, fresh⟩ := List.eq_append_cons_of_mem nul
        have nonzero : ∀ c ∈ UInt8.ofNat label.length :: front, c ≠ 0 :=
          List.forall_mem_cons.mpr ⟨visible, fun c inside same => fresh (same ▸ inside)⟩
        have text : nameText (UInt8.ofNat label.length :: label ++ (wire labels ++ rest)) =
            UInt8.ofNat label.length :: front := by
          have shape : UInt8.ofNat label.length :: label ++ (wire labels ++ rest) =
              (UInt8.ofNat label.length :: front) ++ 0 :: (back ++ (wire labels ++ rest)) := by
            conv_lhs => rw [split]
            rw [split]
            simp
          rw [shape, nameText_append nonzero]
          simp [nameText]
        refine ⟨[], UInt8.ofNat label.length, front, by simp, by rw [text]; rfl, ?_, fun _ => ?_⟩
        · intro same
          rw [same] at number
          exact absurd short (by rw [← number]; decide)
        · rw [number, split, List.length_append, List.length_cons]
          omega
      · have nonzero : ∀ c ∈ UInt8.ofNat label.length :: label, c ≠ 0 :=
          List.forall_mem_cons.mpr ⟨visible, fun c inside same => nul (same ▸ inside)⟩
        have others : ¬ Clean labels := fun clean =>
          unclean (List.forall_mem_cons.mpr ⟨fun c inside same => nul (same ▸ inside), clean⟩)
        rw [nameText_append nonzero]
        exact (ih later others).cons short

theorem refused_unclean (sized : Sized labels) (unclean : ¬ Clean labels) :
    Refused (wire labels ++ rest) := by
  have text : RefusedText (nameText (wire labels ++ rest)) := refusedText_unclean sized unclean
  cases labels with
  | nil => exact absurd (fun label member => by cases member) unclean
  | cons label labels => exact ⟨two_le_wire sized, plain_wire sized, text⟩

/-- Labels in front of a pointer are taken for a name in which the pointer is a length. -/
theorem refused_compressed {high : UInt8} (some_ : labels ≠ []) (sized : Sized labels)
    (pointer : 192 ≤ high.toNat) (moves : high ≠ 255) :
    Refused (wire labels ++ high :: rest) := by
  by_cases clean : Clean labels
  case neg => exact refused_unclean sized clean
  obtain ⟨label, labels, rfl⟩ := List.exists_cons_of_ne_nil some_
  refine ⟨two_le_wire sized, plain_wire sized, _, high, nameText rest, sized.short, ?_, moves, ?_⟩
  · have visible : high ≠ 0 := fun zero => absurd pointer (by rw [zero]; decide)
    have head : nameText (high :: rest) = high :: nameText rest :=
      List.takeWhile_cons_of_pos (by simpa using visible)
    rw [nameText_append (wire_nonzero sized clean), head]
  · exact fun small => absurd pointer (by omega)

end Names

/-- The fields are words of 16 bits. -/
structure DomainNameHeader.Fits (h : DomainNameHeader) : Prop where
  transactionID : h.transactionID < 2 ^ 16
  flags : h.flags < 2 ^ 16
  questions : h.questions < 2 ^ 16
  answerRRS : h.answerRRS < 2 ^ 16

/-- A message with one plain name in its question. -/
def message (header : DomainNameHeader) (labels : List (List UInt8)) (queryType queryClass : Nat)
    (rest : List UInt8) : List UInt8 :=
  header.bytes ++ (wire labels ++ 0 :: (word queryType ++ (word queryClass ++ rest)))

theorem wordAt_word {w : Nat} (fits : w < 2 ^ 16) (rest : List UInt8) :
    wordAt (word w ++ rest) 0 = w := toNat_word fits

theorem wordAt_second {w : Nat} (fits : w < 2 ^ 16) (v : Nat) (rest : List UInt8) :
    wordAt (word v ++ (word w ++ rest)) 2 = w := toNat_word fits

section Header

variable {header : DomainNameHeader} {rest : List UInt8}

theorem wordAt_transactionID (fits : header.Fits) :
    wordAt (header.bytes ++ rest) 0 = header.transactionID := toNat_word fits.transactionID

theorem wordAt_flags (fits : header.Fits) : wordAt (header.bytes ++ rest) 2 = header.flags :=
  toNat_word fits.flags

theorem wordAt_questions (fits : header.Fits) :
    wordAt (header.bytes ++ rest) 4 = header.questions := toNat_word fits.questions

theorem wordAt_answerRRS (fits : header.Fits) :
    wordAt (header.bytes ++ rest) 6 = header.answerRRS := toNat_word fits.answerRRS

theorem drop_header : (header.bytes ++ rest).drop 12 = rest := rfl

theorem bytes_length : header.bytes.length = 12 := rfl

/-- The bit the parser takes for the mark of a response is bit 7. -/
theorem responseFlag_eq_zero {flags : Nat} :
    flags &&& DOMAIN_HEADER_RESPONSE_FLAG = 0 ↔ flags.testBit 7 = false := by
  have flag : DOMAIN_HEADER_RESPONSE_FLAG = 2 ^ 7 := rfl
  rw [flag, Nat.and_two_pow]
  cases flags.testBit 7 <;> simp

theorem domainNameIpv4Addr_message (fits : header.Fits) (rest : List UInt8)
    (small : (header.bytes ++ rest).length ≤ 65507) (now : Nat) :
    ∃ s, s.Shows (received (header.bytes ++ rest)) rest ∧
      domainNameIpv4Addr (received (header.bytes ++ rest)) now =
        if header.flags.testBit 7 = false ∨ header.questions ≠ 1 then .ok none
        else behindHeader header.transactionID header.answerRRS now s := by
  obtain ⟨s, shows, result⟩ := domainNameIpv4Addr_header (shows_received _ small)
    (by rw [List.length_append, bytes_length]; omega) now
  rw [drop_header] at shows
  refine ⟨s, shows, ?_⟩
  rw [result, wordAt_transactionID fits, wordAt_flags fits, wordAt_questions fits,
    wordAt_answerRRS fits]
  by_cases response : header.flags &&& DOMAIN_HEADER_RESPONSE_FLAG = 0
  · rw [if_pos response, if_pos (.inl (responseFlag_eq_zero.mp response))]
  · rw [if_neg response]
    have marked : ¬ header.flags.testBit 7 = false := mt responseFlag_eq_zero.mpr response
    exact if_congr (or_iff_right marked).symm rfl rfl

end Header

section Parsing

variable {s t : Stream} {left : List UInt8}

/-- The walk comes to a record of type A or to a name that is refused, and the records up to
it lie within the bytes left. -/
def RecordsEnd : Nat → List UInt8 → Prop
  | 0, _ => False
  | n + 1, left => Refused left ∨ RecordInside left ∧
      (wordAt (behindName left) 0 = POP_DOMAIN_QUERY_TYPE_A ∨ RecordsEnd n (behindRecord left))

theorem firstAnswerA_ends_iff (zeroed : Zeroed t) {n : Nat} (shows : s.Shows t left) :
    (∃ a, firstAnswerA n s = .ok a) ↔ RecordsEnd n left := by
  induction n generalizing s left with
  | zero =>
      refine iff_of_false ?_ id
      rintro ⟨a, found⟩
      cases found
  | succ n ih =>
      rw [RecordsEnd]
      rcases domainNameAnswerParse_spec zeroed shows with
        ⟨refused, parsed⟩ | ⟨inside, queryName, s', parsed, after⟩ |
          ⟨noRefused, notInside, fault, fails, _⟩
      · rw [firstAnswerA, parsed]
        exact iff_of_true ⟨_, rfl⟩ (.inl refused)
      · have noRefused := inside.not_refused zeroed shows
        rw [firstAnswerA_record parsed]
        by_cases isA : wordAt (behindName left) 0 = POP_DOMAIN_QUERY_TYPE_A
        · rw [if_pos isA]
          exact iff_of_true ⟨_, rfl⟩ (.inr ⟨inside, .inl isA⟩)
        · rw [if_neg isA, ih after]
          simp only [noRefused, inside, isA, false_or, true_and]
      · rw [firstAnswerA, fails, error_bind]
        refine iff_of_false ?_ fun ends => ends.elim noRefused fun is => notInside is.1
        rintro ⟨a, found⟩
        cases found

theorem answersRead_ends_iff (zeroed : Zeroed t) {n : Nat} (shows : s.Shows t left) :
    (∃ a, answersRead n s = .ok a) ↔ n = 0 ∨ RecordsEnd n left := by
  rw [answersRead]
  by_cases none_ : n = 0
  · rw [if_pos none_]
    exact iff_of_true ⟨_, rfl⟩ (.inl none_)
  · rw [if_neg none_, firstAnswerA_ends_iff zeroed shows, or_iff_right none_]

theorem behindHeader_refused (zeroed : Zeroed t) (shows : s.Shows t left) (refused : Refused left)
    (transactionID answerRRS now : Nat) :
    behindHeader transactionID answerRRS now s = .ok none := by
  rcases behindHeader_spec zeroed shows transactionID answerRRS now with
    ⟨_, result⟩ | ⟨row, _⟩ | ⟨noRefused, _⟩
  · exact result
  · exact absurd refused (row.not_refused zeroed shows)
  · exact absurd refused noRefused

/-- A question with a plain name is answered if it asks for addresses. -/
theorem behindHeader_plain (zeroed : Zeroed t) (shows : s.Shows t left) (row : Row left)
    (room : 4 ≤ (behindName left).length) (transactionID answerRRS now : Nat) :
    (¬ QuestionExpected left ∧ behindHeader transactionID answerRRS now s = .ok none) ∨
      QuestionExpected left ∧ ∃ queryName s', s'.Shows t ((behindName left).drop 4) ∧
        behindHeader transactionID answerRRS now s =
          (answersRead answerRRS s').map fun a =>
            some (resultOf transactionID now queryName a) := by
  rcases behindHeader_spec zeroed shows transactionID answerRRS now with
    ⟨shape, result⟩ | ⟨_, _, expected, result⟩ | ⟨_, _, notRow, _⟩
  · rcases shape with refused | pointer | ⟨_, _, unexpected⟩
    · exact absurd refused (row.not_refused zeroed shows)
    · exact absurd pointer (not_pointer_and_row row)
    · exact .inl ⟨unexpected, result⟩
  · exact .inr ⟨expected, result⟩
  · exact absurd ⟨row, room⟩ notRow

end Parsing

theorem none_taken_iff {α : Type} {answers : Prop} :
    (∃ o, (Except.ok none : Except Fault (Option α)) = .ok o ∧ (o.isSome = true ↔ answers)) ↔
      ¬ answers := by
  constructor
  · rintro ⟨o, same, taken⟩
    cases same
    exact fun is => absurd (taken.mpr is) (by simp)
  · exact fun is => ⟨none, rfl, by simpa using is⟩

theorem some_taken_iff {α β : Type} {r : Except Fault α} {f : α → β} {answers : Prop} :
    (∃ o, (r.map fun a => some (f a)) = .ok o ∧ (o.isSome = true ↔ answers)) ↔
      (∃ a, r = .ok a) ∧ answers := by
  cases r with
  | error fault =>
      refine iff_of_false ?_ ?_
      · rintro ⟨o, same, -⟩
        cases same
      · rintro ⟨⟨a, same⟩, -⟩
        cases same
  | ok a =>
      constructor
      · rintro ⟨o, same, taken⟩
        cases same
        exact ⟨⟨a, rfl⟩, taken.mp rfl⟩
      · exact fun is => ⟨_, rfl, iff_of_true rfl is.2⟩

/-- The message is a response to a query for an address. -/
def IsResponse (header : DomainNameHeader) (queryType queryClass : Nat) : Prop :=
  header.flags.testBit 15 = true ∧ header.questions = 1 ∧ queryType = POP_DOMAIN_QUERY_TYPE_A ∧
    queryClass = POP_DOMAIN_QUERY_CLASS_INTERNET_ADDR

/-- The parser takes the responses and no other messages exactly when bit 7 of `Flags`, at
which it looks, agrees with bit 15, the name has no NUL in it, and the walk over the answers
ends at one of them. -/
theorem response_taken_iff (header : DomainNameHeader) (fits : header.Fits)
    (labels : List (List UInt8)) (some_ : labels ≠ []) (sized : Sized labels)
    (queryType queryClass : Nat) (typeFits : queryType < 2 ^ 16) (classFits : queryClass < 2 ^ 16)
    (rest : List UInt8)
    (small : (message header labels queryType queryClass rest).length ≤ 65507) (now : Nat) :
    (∃ o, domainNameIpv4Addr (received (message header labels queryType queryClass rest)) now =
        .ok o ∧ (o.isSome = true ↔ IsResponse header queryType queryClass)) ↔
      (header.questions = 1 → queryType = POP_DOMAIN_QUERY_TYPE_A →
        queryClass = POP_DOMAIN_QUERY_CLASS_INTERNET_ADDR →
        (header.flags.testBit 15 = true ↔ header.flags.testBit 7 = true ∧ Clean labels) ∧
          (header.flags.testBit 7 = true → Clean labels →
            header.answerRRS = 0 ∨ RecordsEnd header.answerRRS rest)) := by
  have zeroed := zeroed_received small
  obtain ⟨s, shows, result⟩ := domainNameIpv4Addr_message fits _ small now
  change (∃ o, domainNameIpv4Addr (received (header.bytes ++ _)) now = .ok o ∧ _) ↔ _
  rw [result]
  by_cases bit : header.flags.testBit 7 = false
  · rw [if_pos (.inl bit), none_taken_iff]
    simp only [bit, Bool.false_eq_true, false_and, iff_false, false_implies, and_true]
    exact ⟨fun no one isA isIn qr => no ⟨qr, one, isA, isIn⟩,
      fun no is => no is.2.1 is.2.2.1 is.2.2.2 is.1⟩
  rw [Bool.not_eq_false] at bit
  by_cases one : header.questions = 1
  case neg =>
    rw [if_pos (.inr one), none_taken_iff]
    exact iff_of_true (fun is => one is.2.1) fun is => absurd is one
  rw [if_neg (not_or.mpr ⟨by simp [bit], not_not.mpr one⟩)]
  by_cases clean : Clean labels
  case neg =>
    rw [behindHeader_refused zeroed shows (refused_unclean sized clean), none_taken_iff]
    simp only [clean, and_false, iff_false, false_implies, implies_true, and_true]
    exact ⟨fun no one isA isIn qr => no ⟨qr, one, isA, isIn⟩,
      fun no is => no is.2.1 is.2.2.1 is.2.2.2 is.1⟩
  obtain ⟨row, behind⟩ := row_wire some_ sized clean (word queryType ++ (word queryClass ++ rest))
  have expected : QuestionExpected (wire labels ++ 0 :: (word queryType ++ (word queryClass ++ rest)))
      ↔ queryType = POP_DOMAIN_QUERY_TYPE_A ∧ queryClass = POP_DOMAIN_QUERY_CLASS_INTERNET_ADDR := by
    rw [QuestionExpected, behind, wordAt_word typeFits, wordAt_second classFits]
  rcases behindHeader_plain zeroed shows row (by rw [behind]; simp [word]) header.transactionID
    header.answerRRS now with ⟨unexpected, parsed⟩ | ⟨is, queryName, s', after, parsed⟩
  · rw [parsed, none_taken_iff]
    rw [expected] at unexpected
    exact iff_of_true (fun is => unexpected is.2.2) fun _ isA isIn => absurd ⟨isA, isIn⟩ unexpected
  · rw [parsed, some_taken_iff]
    rw [behind, show (word queryType ++ (word queryClass ++ rest)).drop 4 = rest from rfl] at after
    rw [answersRead_ends_iff zeroed after]
    obtain ⟨isA, isIn⟩ := expected.mp is
    simp only [bit, clean, and_true, iff_true, true_implies]
    constructor
    · rintro ⟨ends, response⟩ - - -
      exact ⟨response.1, ends⟩
    · intro taken
      obtain ⟨qr, ends⟩ := taken one isA isIn
      exact ⟨ends, qr, one, isA, isIn⟩

/-- 192.0.2.1 for a minute, under the name asked for. -/
def addressBytes : List UInt8 := [0xC0, 0x0C, 0, 1, 0, 1, 0, 0, 0, 60, 0, 4, 192, 0, 2, 1]

/-- An answer of a server that offers recursion. -/
def recursiveHeader : DomainNameHeader := ⟨7, 0x8180, 1, 1, 0, 0⟩

/-- An answer of a server that does not. -/
def authoritativeHeader : DomainNameHeader := ⟨7, 0x8400, 1, 1, 0, 0⟩

theorem response_taken_sample :
    (∃ o, domainNameIpv4Addr (received (message recursiveHeader [[97]] 1 1 addressBytes)) 0 =
        .ok o ∧ (o.isSome = true ↔ IsResponse recursiveHeader 1 1)) ↔
      (recursiveHeader.questions = 1 → 1 = POP_DOMAIN_QUERY_TYPE_A →
        1 = POP_DOMAIN_QUERY_CLASS_INTERNET_ADDR →
        (recursiveHeader.flags.testBit 15 = true ↔
          recursiveHeader.flags.testBit 7 = true ∧ Clean [[97]]) ∧
          (recursiveHeader.flags.testBit 7 = true → Clean [[97]] →
            recursiveHeader.answerRRS = 0 ∨ RecordsEnd recursiveHeader.answerRRS addressBytes)) :=
  response_taken_iff recursiveHeader ⟨by decide, by decide, by decide, by decide⟩ [[97]]
    (by decide) (by decide) 1 1 (by decide) (by decide) addressBytes (by decide) 0

theorem authoritative_answer_refused :
    IsResponse authoritativeHeader 1 1 ∧
      domainNameIpv4Addr (received (message authoritativeHeader [[97]] 1 1 addressBytes)) 0 =
        .ok none := by
  have fits : authoritativeHeader.Fits := ⟨by decide, by decide, by decide, by decide⟩
  obtain ⟨s, -, result⟩ := domainNameIpv4Addr_message fits
    (wire [[97]] ++ 0 :: (word 1 ++ (word 1 ++ addressBytes))) (by decide) 0
  refine ⟨⟨by decide, rfl, rfl, rfl⟩, ?_⟩
  rw [message, result, if_pos (.inl (by decide))]

end Poplar.Domain
