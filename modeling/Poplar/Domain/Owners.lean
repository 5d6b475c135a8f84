import Poplar.Domain.Responses

/-!
# Owner names of answer records

A record may name its owner in full, by a pointer, or by labels in front of a pointer. The
parser gets past the first two forms; at the third it gives up.
-/
namespace Poplar.Domain

/-- Labels, ended by a NUL or by a pointer. -/
structure Owner where
  labels : List (List UInt8)
  pointer : Option (UInt8 × UInt8)
  sized : Sized labels
  flagged : ∀ mark ∈ pointer, 192 ≤ mark.1.toNat

def Owner.bytes (o : Owner) : List UInt8 :=
  wire o.labels ++ o.pointer.elim [0] fun mark => [mark.1, mark.2]

/-- The name is a pointer alone, or plain labels without a NUL in them. -/
def Owner.Taken (o : Owner) : Prop :=
  Clean o.labels ∧ (o.pointer.isSome = true ↔ o.labels = [])

/-- A label has a NUL in it, or labels stand in front of a pointer whose first byte is not
0xff. -/
def Owner.Refused (o : Owner) : Prop :=
  ¬ Clean o.labels ∨ o.labels ≠ [] ∧ ∃ mark ∈ o.pointer, mark.1 ≠ 255

/-- An answer record with any owner name. -/
structure OwnedRecord where
  owner : Owner
  type : Nat
  class' : Nat
  timeLive : Nat
  rdata : List UInt8
  typeFits : type < 2 ^ 16
  classFits : class' < 2 ^ 16
  timeLiveFits : timeLive < 2 ^ 32
  rdataFits : rdata.length < 2 ^ 16

/-- The record behind its owner name. -/
def OwnedRecord.fields (r : OwnedRecord) : List UInt8 :=
  word r.type ++ (word r.class' ++ (long r.timeLive ++ (word r.rdata.length ++ r.rdata)))

def OwnedRecord.bytes (r : OwnedRecord) : List UInt8 := r.owner.bytes ++ r.fields

section Owners

variable {o : Owner} {rest : List UInt8}

theorem owner_bytes (o : Owner) :
    o.bytes = wire o.labels ++ o.pointer.elim [0] fun mark => [mark.1, mark.2] := rfl

theorem owner_taken (taken : o.Taken) (rest : List UInt8) :
    (Pointer (o.bytes ++ rest) ∨ Row (o.bytes ++ rest)) ∧ behindName (o.bytes ++ rest) = rest := by
  obtain ⟨clean, form⟩ := taken
  cases pointer : o.pointer with
  | none =>
      have some_ : o.labels ≠ [] := fun none_ => by
        have := form.mpr none_
        rw [pointer] at this
        cases this
      have shape : o.bytes ++ rest = wire o.labels ++ 0 :: rest := by
        rw [owner_bytes, pointer]
        simp
      obtain ⟨row, behind⟩ := row_wire some_ o.sized clean rest
      exact shape ▸ ⟨.inr row, behind⟩
  | some mark =>
      have none_ : o.labels = [] := form.mp (by rw [pointer]; rfl)
      have flag := o.flagged mark pointer
      have shape : o.bytes ++ rest = mark.1 :: mark.2 :: rest := by
        rw [owner_bytes, pointer, none_]
        rfl
      rw [shape]
      exact ⟨.inl ⟨by simp, flag⟩, if_pos flag⟩

theorem owner_refused (refused : o.Refused) : Refused (o.bytes ++ rest) := by
  rw [owner_bytes, List.append_assoc]
  rcases refused with unclean | ⟨some_, mark, pointer, moves⟩
  · exact refused_unclean o.sized unclean
  · have flag := o.flagged mark pointer
    rw [show o.pointer = some mark from pointer]
    exact refused_compressed some_ o.sized flag moves

/-- At the root name, and at labels in front of the byte 0xff, the parser does not return. -/
theorem owner_stuck (notTaken : ¬ o.Taken) (notRefused : ¬ o.Refused) {s t : Stream}
    (zeroed : Zeroed t) (shows : s.Shows t (o.bytes ++ rest)) :
    ∃ fault, dnsPktNameParse s = .error fault := by
  obtain ⟨clean, same⟩ := not_or.mp notRefused
  rw [not_not] at clean
  have bound := zeroed.text_small shows
  suffices other : ¬ Refused (o.bytes ++ rest) ∧ ¬ Pointer (o.bytes ++ rest) ∧
      ¬ Row (o.bytes ++ rest) by
    rcases dnsPktNameParse_spec zeroed shows with
      ⟨is, _⟩ | ⟨is, _⟩ | ⟨is, _⟩ | ⟨_, _, _, fault, fails, _⟩
    · exact absurd is other.1
    · exact absurd is other.2.1
    · exact absurd is other.2.2
    · exact ⟨fault, fails⟩
  cases pointer : o.pointer with
  | none =>
      have none_ : o.labels = [] := by
        by_contra some_
        exact notTaken ⟨clean, by rw [pointer]; simp [some_]⟩
      have shape : o.bytes ++ rest = 0 :: rest := by
        rw [owner_bytes, pointer, none_]
        rfl
      have text : nameText (0 :: rest) = wire [] := by simp [nameText]
      rw [shape] at bound ⊢
      rw [text] at bound
      refine ⟨fun is => ?_, fun is => absurd is.2 (by simp), fun is => ?_⟩
      · exact not_refused_wire (by simp) bound (text ▸ is.2.2)
      · obtain ⟨_, _, _, labels, some_, _, row⟩ := is
        obtain ⟨label, labels, rfl⟩ := List.exists_cons_of_ne_nil some_
        rw [text] at row
        simp at row
  | some mark =>
      have some_ : o.labels ≠ [] := fun none_ =>
        notTaken ⟨clean, iff_of_true (by rw [pointer]; rfl) none_⟩
      have ff : mark.1 = 255 := by
        by_contra moves
        exact same ⟨some_, mark, pointer, moves⟩
      have shape : o.bytes ++ rest = wire o.labels ++ 255 :: mark.2 :: rest := by
        rw [owner_bytes, pointer, ← ff]
        simp
      have text : LoopingText (nameText (wire o.labels ++ 255 :: mark.2 :: rest)) := by
        have head : nameText (255 :: mark.2 :: rest) = 255 :: nameText (mark.2 :: rest) :=
          List.takeWhile_cons_of_pos (by decide)
        exact ⟨o.labels, _, o.sized.short, by
          rw [nameText_append (wire_nonzero o.sized clean), head]⟩
      have plain : ((wire o.labels ++ 255 :: mark.2 :: rest).headD 0).toNat < 192 := by
        have sized := o.sized
        obtain ⟨label, labels, split⟩ := List.exists_cons_of_ne_nil some_
        rw [split] at sized ⊢
        exact plain_wire sized
      rw [shape] at bound ⊢
      refine ⟨fun is => ?_, fun is => Nat.not_le.mpr plain is.2, fun is => ?_⟩
      · exact not_looping_and_refused text bound is.2.2
      · obtain ⟨_, _, _, labels, _, short, row⟩ := is
        exact not_looping_wire short (row ▸ text)

end Owners

section Records

variable {s t : Stream} {rest : List UInt8}

/-- The fields are read back from behind the name. -/
theorem wordAt_fields (r : OwnedRecord) (rest : List UInt8) :
    wordAt (r.fields ++ rest) 0 = r.type ∧ longAt (r.fields ++ rest) 4 = r.timeLive ∧
      wordAt (r.fields ++ rest) 8 = r.rdata.length :=
  ⟨toNat_word r.typeFits, toNat_long r.timeLiveFits, toNat_word r.rdataFits⟩

theorem fields_drop (r : OwnedRecord) (rest : List UInt8) :
    (r.fields ++ rest).drop 10 = r.rdata ++ rest := rfl

theorem fields_length (r : OwnedRecord) : r.fields.length = 10 + r.rdata.length := by
  simp only [OwnedRecord.fields, List.length_append, word, long, List.length_cons, List.length_nil]
  omega

theorem longAt_four {bytes : List UInt8} (four : bytes.length = 4) (rest : List UInt8) :
    longAt (bytes ++ rest) 0 = bigEndian bytes := by
  match bytes, four with
  | [a, b, c, d], _ =>
      simp only [longAt, bigEndian, List.foldl_cons, List.foldl_nil]
      show a.toNat * 2 ^ 24 + b.toNat * 2 ^ 16 + c.toNat * 2 ^ 8 + d.toNat = _
      omega

/-- A record whose owner name is taken is read as what it is. -/
theorem record_taken (zeroed : Zeroed t) {r : OwnedRecord} (taken : r.owner.Taken)
    (four : r.type = POP_DOMAIN_QUERY_TYPE_A → r.rdata.length = 4)
    (shows : s.Shows t (r.bytes ++ rest)) :
    ∃ answer s', domainNameAnswerParse s = .ok (some answer, s') ∧ answer.type = r.type ∧
      answer.timeLive = r.timeLive ∧
      (r.type = POP_DOMAIN_QUERY_TYPE_A → answer.addr = bigEndian r.rdata) ∧ s'.Shows t rest := by
  have shape : r.bytes ++ rest = r.owner.bytes ++ (r.fields ++ rest) := by
    rw [OwnedRecord.bytes, List.append_assoc]
  rw [shape] at shows
  obtain ⟨named, behind⟩ := owner_taken taken (r.fields ++ rest)
  obtain ⟨type, timeLive, datalen⟩ := wordAt_fields r rest
  have data : dataLength (r.owner.bytes ++ (r.fields ++ rest)) = r.rdata.length := by
    rw [dataLength, behind, type, datalen]
    split
    · exact (four ‹_›).symm
    · rfl
  have long_ : (r.fields ++ rest).length = 10 + r.rdata.length + rest.length := by
    rw [List.length_append, fields_length]
  have inside : RecordInside (r.owner.bytes ++ (r.fields ++ rest)) := by
    refine ⟨named, ?_, ?_⟩
    · rw [behind]
      omega
    · rw [behind, data]
      omega
  rcases domainNameAnswerParse_spec zeroed shows with
    ⟨is, _⟩ | ⟨_, queryName, s', parsed, after⟩ | ⟨_, notInside, _⟩
  · exact absurd is (inside.not_refused zeroed shows)
  · rw [behindRecord, behind, data, ← List.drop_drop, fields_drop, List.drop_left] at after
    refine ⟨_, s', parsed, ?_, ?_, fun isA => ?_, after⟩
    · rw [answerAt, behind]
      exact type
    · rw [answerAt, behind]
      exact timeLive
    · simp only [answerAt, behind, type, if_pos isA]
      rw [← longAt_drop, fields_drop, longAt_four (four isA)]
  · exact absurd inside notInside

/-- The records up to the first whose owner name is not taken, and that one is refused. -/
def RefusedFirst : List OwnedRecord → Prop
  | [] => False
  | r :: rs => r.owner.Refused ∨ r.owner.Taken ∧ RefusedFirst rs

def AllTaken (rs : List OwnedRecord) : Prop := ∀ r ∈ rs, r.owner.Taken

theorem taken_not_refused {o : Owner} (taken : o.Taken) : ¬ o.Refused := by
  rintro (unclean | ⟨some_, mark, pointer, _⟩)
  · exact unclean taken.1
  · exact some_ (taken.2.mp (by rw [show o.pointer = some mark from pointer]; rfl))

theorem refusedFirst_not_taken {rs : List OwnedRecord} (refused : RefusedFirst rs) :
    ¬ AllTaken rs := by
  induction rs with
  | nil => exact absurd refused id
  | cons r rs ih =>
      intro all
      obtain ⟨taken, later⟩ := List.forall_mem_cons.mp all
      exact refused.elim (taken_not_refused taken) fun is => ih is.2 later

/-- At a record whose owner name is not taken the walk stops or gets stuck. -/
theorem firstAnswerA_not_taken (zeroed : Zeroed t) {r : OwnedRecord} (notTaken : ¬ r.owner.Taken)
    (rs : List OwnedRecord) (n : Nat) (shows : s.Shows t (r.bytes ++ rest)) :
    RefusedFirst (r :: rs) ∧ firstAnswerA (n + 1) s = .ok none ∨
      ¬ AllTaken (r :: rs) ∧ ¬ RefusedFirst (r :: rs) ∧
        ∃ fault, firstAnswerA (n + 1) s = .error fault := by
  rw [OwnedRecord.bytes, List.append_assoc] at shows
  by_cases refused : r.owner.Refused
  · refine .inl ⟨.inl refused, ?_⟩
    rcases domainNameAnswerParse_spec zeroed shows with ⟨_, parsed⟩ | ⟨inside, _⟩ | ⟨noRefused, _⟩
    · rw [firstAnswerA, parsed]
      rfl
    · exact absurd (owner_refused refused) (inside.not_refused zeroed shows)
    · exact absurd (owner_refused refused) noRefused
  · obtain ⟨fault, fails⟩ := owner_stuck notTaken refused zeroed shows
    refine .inr ⟨fun all => notTaken (all r (by simp)), ?_, fault, ?_⟩
    · exact fun is => is.elim refused fun is => notTaken is.1
    · rw [firstAnswerA, domainNameAnswerParse, fails]
      rfl

/-- The walk finds the first record of type A, stops with nothing at a refused name, or gets
stuck. -/
theorem firstAnswerA_owned (zeroed : Zeroed t) {pre post : List OwnedRecord} {a : OwnedRecord}
    (others : ∀ r ∈ pre, r.type ≠ POP_DOMAIN_QUERY_TYPE_A)
    (isA : a.type = POP_DOMAIN_QUERY_TYPE_A) (four : a.rdata.length = 4)
    (shows : s.Shows t ((pre ++ a :: post).flatMap OwnedRecord.bytes ++ rest)) {n : Nat}
    (counted : pre.length < n) :
    AllTaken (pre ++ [a]) ∧ (∃ answer, firstAnswerA n s = .ok (some answer) ∧
        answer.addr = bigEndian a.rdata ∧ answer.timeLive = a.timeLive) ∨
      RefusedFirst (pre ++ [a]) ∧ firstAnswerA n s = .ok none ∨
      ¬ AllTaken (pre ++ [a]) ∧ ¬ RefusedFirst (pre ++ [a]) ∧
        ∃ fault, firstAnswerA n s = .error fault := by
  obtain ⟨n, rfl⟩ : ∃ k, n = k + 1 := ⟨n - 1, by omega⟩
  induction pre generalizing s n with
  | nil =>
      rw [List.nil_append, List.flatMap_cons, List.append_assoc] at shows
      by_cases taken : a.owner.Taken
      · obtain ⟨answer, s', parsed, type, timeLive, addr, _⟩ :=
          record_taken zeroed taken (fun _ => four) shows
        refine .inl ⟨by simpa [AllTaken] using taken, answer, ?_, addr isA, timeLive⟩
        rw [firstAnswerA, parsed, ok_bind]
        exact if_pos (type.trans isA)
      · exact .inr (firstAnswerA_not_taken zeroed taken [] n shows)
  | cons r pre ih =>
      obtain ⟨notA, later⟩ := List.forall_mem_cons.mp others
      rw [List.cons_append, List.flatMap_cons, List.append_assoc] at shows
      by_cases taken : r.owner.Taken
      case neg => exact .inr (firstAnswerA_not_taken zeroed taken (pre ++ [a]) n shows)
      obtain ⟨answer, s', parsed, type, _, _, after⟩ :=
        record_taken zeroed taken (fun is => absurd is notA) shows
      obtain ⟨n, rfl⟩ : ∃ k, n = k + 1 := ⟨n - 1, by simp at counted; omega⟩
      have step : firstAnswerA (n + 1 + 1) s = firstAnswerA (n + 1) s' := by
        rw [firstAnswerA, parsed, ok_bind]
        exact if_neg fun is => notA (type.symm.trans is)
      have notRefused := taken_not_refused taken
      have all : AllTaken (r :: (pre ++ [a])) ↔ AllTaken (pre ++ [a]) := by
        rw [AllTaken, List.forall_mem_cons, and_iff_right taken]
        rfl
      have first : RefusedFirst (r :: (pre ++ [a])) ↔ RefusedFirst (pre ++ [a]) := by
        rw [RefusedFirst, or_iff_right notRefused, and_iff_right taken]
      rw [step, List.cons_append, all, first]
      exact ih later after n (by simp at counted; omega)

end Records

/-- A well-formed response: one question for an address, and answers that come to a record
of type A with an address in it. -/
structure AddressResponse where
  header : DomainNameHeader
  fits : header.Fits
  response : header.flags.testBit 15 = true
  recursion : header.flags.testBit 7 = true
  oneQuestion : header.questions = 1
  question : List (List UInt8)
  sized : Sized question
  pre : List OwnedRecord
  a : OwnedRecord
  post : List OwnedRecord
  others : ∀ r ∈ pre, r.type ≠ POP_DOMAIN_QUERY_TYPE_A
  isA : a.type = POP_DOMAIN_QUERY_TYPE_A
  four : a.rdata.length = 4
  counted : header.answerRRS = (pre ++ a :: post).length
  /-- the authority and additional sections -/
  behind : List UInt8

def AddressResponse.bytes (r : AddressResponse) : List UInt8 :=
  message r.header r.question POP_DOMAIN_QUERY_TYPE_A POP_DOMAIN_QUERY_CLASS_INTERNET_ADDR
    ((r.pre ++ r.a :: r.post).flatMap OwnedRecord.bytes ++ r.behind)

/-- The question as a name. -/
def AddressResponse.asked (r : AddressResponse) : Owner := ⟨r.question, none, r.sized, by simp⟩

theorem asked_taken_iff (r : AddressResponse) :
    r.asked.Taken ↔ Clean r.question ∧ r.question ≠ [] := by
  show Clean r.question ∧ (false = true ↔ r.question = []) ↔ _
  simp

section Answer

variable {s t : Stream}

/-- The part of the response behind the name asked for. -/
def AddressResponse.asks (r : AddressResponse) : List UInt8 :=
  word POP_DOMAIN_QUERY_TYPE_A ++ (word POP_DOMAIN_QUERY_CLASS_INTERNET_ADDR ++
    ((r.pre ++ r.a :: r.post).flatMap OwnedRecord.bytes ++ r.behind))

/-- A question the parser does not take gives no result. -/
theorem behindHeader_not_asked (zeroed : Zeroed t) {r : AddressResponse}
    (shows : s.Shows t (wire r.question ++ 0 :: r.asks)) (notTaken : ¬ r.asked.Taken)
    (transactionID answerRRS now : Nat) :
    ¬ ∃ result, behindHeader transactionID answerRRS now s = .ok (some result) := by
  rintro ⟨result, found⟩
  rw [List.append_cons] at shows
  change s.Shows t (r.asked.bytes ++ r.asks) at shows
  by_cases refused : r.asked.Refused
  · rw [behindHeader_refused zeroed shows (owner_refused refused)] at found
    cases found
  · obtain ⟨fault, fails⟩ := owner_stuck notTaken refused zeroed shows
    rw [behindHeader, domainNameQuestionParse, fails] at found
    cases found

/-- A question the parser takes leads to the walk over the answers. -/
theorem behindHeader_asked (zeroed : Zeroed t) {r : AddressResponse}
    (shows : s.Shows t (wire r.question ++ 0 :: r.asks)) (taken : r.asked.Taken)
    (transactionID answerRRS now : Nat) :
    ∃ queryName s', s'.Shows t ((r.pre ++ r.a :: r.post).flatMap OwnedRecord.bytes ++ r.behind) ∧
      behindHeader transactionID answerRRS now s = (answersRead answerRRS s').map fun a =>
        some (resultOf transactionID now queryName a) := by
  obtain ⟨clean, some_⟩ := (asked_taken_iff r).mp taken
  obtain ⟨row, behind⟩ := row_wire some_ r.sized clean r.asks
  have expected : QuestionExpected (wire r.question ++ 0 :: r.asks) := by
    rw [QuestionExpected, behind, AddressResponse.asks]
    exact ⟨wordAt_word (by decide) _, wordAt_second (by decide) _ _⟩
  have room : 4 ≤ r.asks.length := by simp [AddressResponse.asks, word]
  rcases behindHeader_plain zeroed shows row (by rw [behind]; exact room) transactionID answerRRS now with
    ⟨unexpected, _⟩ | ⟨_, queryName, s', after, result⟩
  · exact absurd expected unexpected
  · rw [behind] at after
    exact ⟨queryName, s', after, result⟩

end Answer

/-- The parser answers with the first address exactly when it takes the name asked for and
every owner name up to that record. An address and a lifetime that are zero are also what
it leaves when it gives up at a name. -/
theorem first_address_iff (r : AddressResponse) (small : r.bytes.length ≤ 65507) (now : Nat) :
    (∃ result, domainNameIpv4Addr (received r.bytes) now = .ok (some result) ∧
        result.address = bigEndian r.a.rdata ∧ result.timeLive = r.a.timeLive) ↔
      r.asked.Taken ∧ (AllTaken (r.pre ++ [r.a]) ∨
        bigEndian r.a.rdata = 0 ∧ r.a.timeLive = 0 ∧ RefusedFirst (r.pre ++ [r.a])) := by
  have zeroed := zeroed_received small
  obtain ⟨s, shows, parsed⟩ := domainNameIpv4Addr_message r.fits
    (wire r.question ++ 0 :: r.asks) small now
  have admitted : ¬ (r.header.flags.testBit 7 = false ∨ r.header.questions ≠ 1) := by
    simp [r.recursion, r.oneQuestion]
  rw [if_neg admitted] at parsed
  rw [← show r.bytes = r.header.bytes ++ (wire r.question ++ 0 :: r.asks) from rfl] at parsed
  rw [parsed]
  by_cases taken : r.asked.Taken
  case neg =>
    have none_ := behindHeader_not_asked zeroed shows taken r.header.transactionID
      r.header.answerRRS now
    exact iff_of_false (fun ⟨result, found, _⟩ => none_ ⟨result, found⟩) fun is => taken is.1
  obtain ⟨queryName, s', after, result⟩ := behindHeader_asked zeroed shows taken
    r.header.transactionID r.header.answerRRS now
  have counts : r.header.answerRRS = (r.pre ++ r.a :: r.post).length := r.counted
  rw [result, answersRead, if_neg (by rw [counts]; simp), and_iff_right taken]
  rcases firstAnswerA_owned zeroed r.others r.isA r.four after (n := r.header.answerRRS)
      (by rw [counts, List.length_append, List.length_cons]; omega) with
    ⟨all, answer, found, addr, timeLive⟩ | ⟨refused, found⟩ | ⟨notAll, notRefused, fault, found⟩
  · rw [found]
    exact iff_of_true ⟨_, rfl, addr, timeLive⟩ (.inl all)
  · have notAll := refusedFirst_not_taken refused
    rw [found]
    constructor
    · rintro ⟨result, same, address, timeLive⟩
      cases same
      exact .inr ⟨address.symm, timeLive.symm, refused⟩
    · rintro (all | ⟨address, timeLive, _⟩)
      · exact absurd all notAll
      · exact ⟨_, rfl, address.symm, timeLive.symm⟩
  · rw [found]
    refine iff_of_false ?_ fun is => is.elim notAll fun is => notRefused is.2.2
    rintro ⟨result, same, -⟩
    cases same

theorem one_fits : 1 < 2 ^ 16 := by decide

theorem minute_fits : 60 < 2 ^ 32 := by decide

def sampleAddress : List UInt8 := [192, 0, 2, 1]

theorem sampleAddress_fits : sampleAddress.length < 2 ^ 16 := by decide

/-- 192.0.2.1 for a minute, under this owner. -/
def addressOf (owner : Owner) : OwnedRecord :=
  ⟨owner, 1, 1, 60, sampleAddress, one_fits, one_fits, minute_fits, sampleAddress_fits⟩

theorem recursiveHeader_fits : recursiveHeader.Fits := ⟨by decide, by decide, by decide, by decide⟩

theorem recursiveHeader_response : recursiveHeader.flags.testBit 15 = true := by decide

theorem recursiveHeader_recursion : recursiveHeader.flags.testBit 7 = true := by decide

theorem oneLabel_sized : Sized [[97]] := by decide

theorem no_records_others : ∀ r ∈ ([] : List OwnedRecord), r.type ≠ POP_DOMAIN_QUERY_TYPE_A := by
  simp

/-- A response to a query for `a` whose one answer has this owner. -/
def responseOf (owner : Owner) : AddressResponse where
  header := recursiveHeader
  fits := recursiveHeader_fits
  response := recursiveHeader_response
  recursion := recursiveHeader_recursion
  oneQuestion := rfl
  question := [[97]]
  sized := oneLabel_sized
  pre := []
  a := addressOf owner
  post := []
  others := no_records_others
  isA := rfl
  four := rfl
  counted := rfl
  behind := []

/-- The pointer to the name asked for. -/
def askedPointer : Owner := ⟨[], some (0xC0, 0x0C), by decide, fun _ is => by cases is; decide⟩

/-- `w` and a pointer to the name asked for. -/
def compressedName : Owner :=
  ⟨[[119]], some (0xC0, 0x0C), by decide, fun _ is => by cases is; decide⟩

theorem first_address_sample :
    (∃ result, domainNameIpv4Addr (received (responseOf askedPointer).bytes) 0 = .ok (some result) ∧
        result.address = bigEndian [192, 0, 2, 1] ∧ result.timeLive = 60) ↔
      (responseOf askedPointer).asked.Taken ∧ (AllTaken ([] ++ [(responseOf askedPointer).a]) ∨
        bigEndian [192, 0, 2, 1] = 0 ∧ 60 = 0 ∧
          RefusedFirst ([] ++ [(responseOf askedPointer).a])) :=
  first_address_iff (responseOf askedPointer) (by decide) 0

theorem compressed_name_gives_up :
    domainNameIpv4Addr (received (responseOf compressedName).bytes) 0 =
      .ok (some ⟨7, [97], 0, 0, 0⟩) := by
  decide +kernel

end Poplar.Domain
