import Poplar.Domain.Shapes

/-!
# Which packets the parser gets through

Nothing but the length of the header is checked before it is read. A datagram is
parsed to its end exactly when every field the parser asks for lies within it.
-/
namespace Poplar.Domain

/-- A record of type A or one with a foreign name is reached within `n` records, and the
records up to it lie within the bytes left. -/
def RecordsInside : Nat → List UInt8 → Prop
  | 0, _ => False
  | n + 1, left => Foreign left ∨
      (Pointer left ∨ Row left) ∧ 10 ≤ (behindName left).length ∧
        if wordAt (behindName left) 0 = POP_DOMAIN_QUERY_TYPE_A then
          14 ≤ (behindName left).length
        else 10 + wordAt (behindName left) 8 ≤ (behindName left).length ∧
          RecordsInside n ((behindName left).drop (10 + wordAt (behindName left) 8))

/-- The question lies within the bytes left, and so do the records where they are read. -/
def QuestionInside (answers : Nat) (left : List UInt8) : Prop :=
  Pointer left ∨ Foreign left ∨
    Row left ∧ 4 ≤ (behindName left).length ∧
      (wordAt (behindName left) 0 ≠ POP_DOMAIN_QUERY_TYPE_A ∨
        wordAt (behindName left) 2 ≠ POP_DOMAIN_QUERY_CLASS_INTERNET_ADDR ∨ answers = 0 ∨
        RecordsInside answers ((behindName left).drop 4))

/-- The packet is refused by its header, or what follows the header lies within it. -/
def PacketInside (payload : List UInt8) : Prop :=
  payload.length < 12 ∨ wordAt payload 2 &&& DOMAIN_HEADER_RESPONSE_FLAG = 0 ∨
    wordAt payload 4 ≠ 1 ∨ QuestionInside (wordAt payload 6) (payload.drop 12)

section Parsing

variable {s t : Stream} {left : List UInt8}

theorem not_returns_error {α : Type} {fault : Fault} :
    ¬ ∃ r, (Except.error fault : Except Fault α) = .ok r := by
  rintro ⟨r, eq⟩
  cases eq

theorem Refused.foreign (zeroed : Zeroed t) (shows : s.Shows t left) (refused : Refused left) :
    Foreign left :=
  ⟨refused.1, refused.2.1, fun _ short same =>
    not_refused_wire short (same ▸ zeroed.text_small shows) (same ▸ refused.2.2)⟩

/-- The records, one at a time. -/
theorem recordsInside_succ {n : Nat} :
    RecordsInside (n + 1) left ↔ Foreign left ∨ RecordInside left ∧
      (wordAt (behindName left) 0 = POP_DOMAIN_QUERY_TYPE_A ∨
        RecordsInside n (behindRecord left)) := by
  rw [RecordsInside, RecordInside, behindRecord]
  by_cases isA : wordAt (behindName left) 0 = POP_DOMAIN_QUERY_TYPE_A
  · simp only [dataLength, isA, if_true, true_or, and_true]
  · simp only [dataLength, isA, if_false, false_or, and_assoc]

theorem firstAnswerA_returns_iff (zeroed : Zeroed t) {n : Nat} (shows : s.Shows t left)
    (ends : firstAnswerA n s ≠ .error .diverge) :
    (∃ r, firstAnswerA n s = .ok r) ↔ RecordsInside n left := by
  induction n generalizing s left with
  | zero => exact iff_of_false not_returns_error id
  | succ n ih =>
      rw [recordsInside_succ]
      rcases domainNameAnswerParse_spec zeroed shows with
        ⟨refused, parsed⟩ | ⟨inside, queryName, s', parsed, after⟩ |
          ⟨_, notInside, fault, fails, why⟩
      · rw [firstAnswerA, parsed]
        exact iff_of_true ⟨_, rfl⟩ (.inl (refused.foreign zeroed shows))
      · have noForeign : ¬ Foreign left := fun foreign =>
          inside.1.elim (not_pointer_and_foreign foreign) (not_row_and_foreign foreign)
        rw [firstAnswerA_record parsed] at ends ⊢
        simp only [noForeign, inside, false_or, true_and]
        by_cases isA : wordAt (behindName left) 0 = POP_DOMAIN_QUERY_TYPE_A
        · rw [if_pos isA]
          exact iff_of_true ⟨_, rfl⟩ (.inl isA)
        · rw [if_neg isA] at ends ⊢
          rw [ih after ends]
          simp only [isA, false_or]
      · rw [firstAnswerA, fails, error_bind] at ends ⊢
        have noForeign : ¬ Foreign left := why.resolve_left fun same => ends (same ▸ rfl)
        simp only [noForeign, notInside, false_and, or_self, iff_false]
        exact not_returns_error

theorem answersRead_returns_iff (zeroed : Zeroed t) {n : Nat} (shows : s.Shows t left)
    (ends : answersRead n s ≠ .error .diverge) :
    (∃ r, answersRead n s = .ok r) ↔ n = 0 ∨ RecordsInside n left := by
  rw [answersRead] at ends ⊢
  by_cases none_ : n = 0
  · rw [if_pos none_]
    exact iff_of_true ⟨_, rfl⟩ (.inl none_)
  · rw [if_neg none_] at ends ⊢
    rw [firstAnswerA_returns_iff zeroed shows ends]
    simp only [none_, false_or]

theorem returns_map_iff {α β : Type} {r : Except Fault α} {f : α → β} :
    (∃ b, r.map f = .ok b) ↔ ∃ a, r = .ok a := by
  cases r with
  | error fault => exact iff_of_false not_returns_error not_returns_error
  | ok a => exact iff_of_true ⟨_, rfl⟩ ⟨_, rfl⟩

theorem behindHeader_returns_iff (zeroed : Zeroed t) (shows : s.Shows t left)
    {transactionID answerRRS now : Nat}
    (ends : behindHeader transactionID answerRRS now s ≠ .error .diverge) :
    (∃ r, behindHeader transactionID answerRRS now s = .ok r) ↔ QuestionInside answerRRS left := by
  rw [QuestionInside]
  rcases behindHeader_spec zeroed shows transactionID answerRRS now with
    ⟨shape, result⟩ | ⟨row, four, expected, queryName, s', after, result⟩ |
      ⟨_, noPointer, noRow, fault, fails, why⟩
  · rw [result]
    refine iff_of_true ⟨_, rfl⟩ ?_
    rcases shape with refused | pointer | ⟨row, four, unexpected⟩
    · exact .inr (.inl (refused.foreign zeroed shows))
    · exact .inl pointer
    · exact .inr (.inr ⟨row, four, (not_and_or.mp unexpected).imp_right .inl⟩)
  · have noPointer := not_pointer_and_row row
    have noForeign : ¬ Foreign left := fun foreign => not_row_and_foreign foreign row
    obtain ⟨type, class'⟩ := expected
    have endsWalk : answersRead answerRRS s' ≠ .error .diverge := by
      intro fails
      rw [result, fails] at ends
      exact ends rfl
    rw [result, returns_map_iff, answersRead_returns_iff zeroed after endsWalk]
    simp only [noPointer, noForeign, row, four, type, class', false_or, true_and, ne_eq,
      not_true_eq_false]
  · have noForeign : ¬ Foreign left := by
      refine why.resolve_left fun same => ?_
      rw [fails, same] at ends
      exact ends rfl
    rw [fails]
    refine iff_of_false not_returns_error ?_
    rw [or_iff_right noPointer, or_iff_right noForeign]
    exact fun is => noRow ⟨is.1, is.2.1⟩

end Parsing

/-- A datagram on which the parser terminates is parsed to its end, with no failing
assertion and no access outside, exactly when the packet keeps what it promises. -/
theorem parse_returns_iff (payload : List UInt8) (fits : payload.length ≤ 65507) (now : Nat)
    (ends : domainNameIpv4Addr (received payload) now ≠ .error .diverge) :
    (∃ r, domainNameIpv4Addr (received payload) now = .ok r) ↔ PacketInside payload := by
  have shows := shows_received payload fits
  rw [PacketInside]
  by_cases short : payload.length < 12
  · have readable : (received payload).readable < 12 := (shows.readable (by omega)).mpr short
    rw [domainNameIpv4Addr, if_pos readable]
    exact iff_of_true ⟨_, rfl⟩ (.inl short)
  · obtain ⟨s', after, parse⟩ := domainNameIpv4Addr_header shows (Nat.not_lt.mp short) now
    rw [parse] at ends ⊢
    by_cases response : wordAt payload 2 &&& DOMAIN_HEADER_RESPONSE_FLAG = 0
    · rw [if_pos response]
      exact iff_of_true ⟨_, rfl⟩ (.inr (.inl response))
    · rw [if_neg response] at ends ⊢
      by_cases questions : wordAt payload 4 ≠ 1
      · rw [if_pos questions]
        exact iff_of_true ⟨_, rfl⟩ (.inr (.inr (.inl questions)))
      · rw [if_neg questions] at ends ⊢
        simp only [short, response, questions, false_or]
        exact behindHeader_returns_iff (zeroed_received fits) after ends

/-- A response whose question is cut off behind the header. -/
def cutResponse : List UInt8 := [0, 0, 0x81, 0x80, 0, 1, 0, 0, 0, 0, 0, 0]

theorem cut_response_fails_assertion :
    cutResponse.length ≤ 65507 ∧
      domainNameIpv4Addr (received cutResponse) 0 = .error .assertFail := by
  have fits : cutResponse.length ≤ 65507 := by decide
  obtain ⟨s', after, parse⟩ := domainNameIpv4Addr_header (shows_received cutResponse fits)
    (by decide) 0
  have name : dnsPktNameParse s' = .error .assertFail := dnsPktNameParse_short after (by decide)
  refine ⟨fits, ?_⟩
  rw [parse, if_neg (by decide), if_neg (by decide), behindHeader, domainNameQuestionParse, name]
  rfl

/-- A response about `a.b` with an alias and an address, each record named by a pointer. -/
def aliasResponse : List UInt8 :=
  [0, 7, 0x81, 0x80, 0, 1, 0, 2, 0, 0, 0, 0] ++ [1, 97, 1, 98, 0, 0, 1, 0, 1] ++
    [0xC0, 12, 0, 5, 0, 1, 0, 0, 0, 60, 0, 2, 0xC0, 12] ++
    [0xC0, 12, 0, 1, 0, 1, 0, 0, 0, 60, 0, 4, 10, 0, 0, 1]

theorem parse_returns_sample :
    domainNameIpv4Addr (received aliasResponse) 1000 =
        .ok (some ⟨7, [97, 46, 98], 0x0A000001, 60, 1060⟩) ∧
      ((∃ r, domainNameIpv4Addr (received aliasResponse) 1000 = .ok r) ↔
        PacketInside aliasResponse) := by
  have parsed : domainNameIpv4Addr (received aliasResponse) 1000 =
      .ok (some ⟨7, [97, 46, 98], 0x0A000001, 60, 1060⟩) := by
    decide +kernel
  refine ⟨parsed, parse_returns_iff aliasResponse (by decide) 1000 ?_⟩
  rw [parsed]
  rintro ⟨⟩

end Poplar.Domain
