import Poplar.Domain.Names

/-!
# What the parser makes of the bytes in front of it

A name is taken, refused or the end of the run, and each record is read as a whole or
stops the parser; which of these happens can be told from the bytes.
-/
namespace Poplar.Domain

/-- The big-endian word at `i`. -/
def wordAt (bytes : List UInt8) (i : Nat) : Nat :=
  (bytes.getD i 0).toNat * 2 ^ 8 + (bytes.getD (i + 1) 0).toNat

def longAt (bytes : List UInt8) (i : Nat) : Nat :=
  (bytes.getD i 0).toNat * 2 ^ 24 + (bytes.getD (i + 1) 0).toNat * 2 ^ 16 +
    (bytes.getD (i + 2) 0).toNat * 2 ^ 8 + (bytes.getD (i + 3) 0).toNat

/-- The bytes of a name up to its NUL, or all bytes left. -/
def nameText (left : List UInt8) : List UInt8 := left.takeWhile (· != 0)

/-- The name is a compression pointer. -/
def Pointer (left : List UInt8) : Prop := 2 ≤ left.length ∧ 192 ≤ (left.headD 0).toNat

/-- The name is no pointer and its bytes are no row of labels. -/
def Foreign (left : List UInt8) : Prop :=
  2 ≤ left.length ∧ (left.headD 0).toNat < 192 ∧
    ∀ labels, (∀ label ∈ labels, label.length < 128) → nameText left ≠ wire labels

/-- The name is no pointer and the format check ends at it with a refusal. -/
def Refused (left : List UInt8) : Prop :=
  2 ≤ left.length ∧ (left.headD 0).toNat < 192 ∧ RefusedText (nameText left)

/-- The name is a row of one or more labels and its NUL is among the bytes left. -/
def Row (left : List UInt8) : Prop :=
  2 ≤ left.length ∧ (left.headD 0).toNat < 192 ∧ (nameText left).length < left.length ∧
    ∃ labels, labels ≠ [] ∧ (∀ label ∈ labels, label.length < 128) ∧ nameText left = wire labels

/-- The bytes behind a pointer or a row. -/
def behindName (left : List UInt8) : List UInt8 :=
  if 192 ≤ (left.headD 0).toNat then left.drop 2 else left.drop ((nameText left).length + 1)

theorem not_pointer_and_row {left : List UInt8} (row : Row left) : ¬ Pointer left := fun pointer =>
  Nat.not_lt.mpr pointer.2 row.2.1

theorem not_pointer_and_foreign {left : List UInt8} (foreign : Foreign left) : ¬ Pointer left :=
  fun pointer => Nat.not_lt.mpr pointer.2 foreign.2.1

theorem not_row_and_foreign {left : List UInt8} (foreign : Foreign left) : ¬ Row left := by
  rintro ⟨_, _, _, labels, _, short, text⟩
  exact foreign.2.2 labels short text

/-- A buffer that is zero behind its end, and in which every pointer finds a string. -/
structure Zeroed (t : Stream) : Prop where
  nul : ∃ behind, t.beyond = 0 :: behind
  far : ∀ i < 2 ^ 14, 0 ∈ t.data.drop i
  small : t.endp < 2 ^ 31

theorem zeroed_received {payload : List UInt8} (fits : payload.length ≤ 65507) :
    Zeroed (received payload) := by
  have room : MAX_RECV_PACKET_SIZE - payload.length ≠ 0 := by
    rw [MAX_RECV_PACKET_SIZE]
    omega
  obtain ⟨n, more⟩ := Nat.exists_eq_succ_of_ne_zero room
  refine ⟨⟨List.replicate n 0, ?_⟩, fun i small => ?_, ?_⟩
  · simp [received, Stream.beyond, more, List.replicate_succ]
  · rw [received, List.drop_append, List.drop_replicate]
    refine List.mem_append_right _ (List.mem_replicate.mpr ⟨?_, rfl⟩)
    rw [MAX_RECV_PACKET_SIZE]
    omega
  · show payload.length < 2 ^ 31
    omega

theorem nameText_nonzero (left : List UInt8) : ∀ c ∈ nameText left, c ≠ 0 := fun c member => by
  simpa using List.mem_takeWhile_imp member

theorem nameText_split (left behind : List UInt8) :
    ∃ behind', left ++ 0 :: behind = nameText left ++ 0 :: behind' := by
  induction left with
  | nil => exact ⟨behind, rfl⟩
  | cons c left ih =>
      obtain ⟨behind', split⟩ := ih
      by_cases zero : c = 0
      · subst zero
        exact ⟨left ++ 0 :: behind, rfl⟩
      · have head : nameText (c :: left) = c :: nameText left :=
          List.takeWhile_cons_of_pos (by simpa using zero)
        exact ⟨behind', by rw [List.cons_append, split, head, List.cons_append]⟩

theorem sized_of_nonzero {labels : List (List UInt8)} (nonzero : ∀ c ∈ wire labels, c ≠ 0)
    (short : ∀ label ∈ labels, label.length < 128) :
    ∀ label ∈ labels, label ≠ [] ∧ label.length < 128 := by
  refine fun label member => ⟨fun empty => ?_, short label member⟩
  refine nonzero 0 (List.mem_flatMap.mpr ⟨label, member, ?_⟩) rfl
  simp [empty]

section Parsing

variable {s t : Stream} {left : List UInt8}

theorem two_bytes (long : 2 ≤ left.length) :
    ∃ a b rest, left = a :: b :: rest ∧ left.headD 0 = a ∧ wordAt left 0 = a.toNat * 2 ^ 8 + b.toNat ∧
      left.drop 2 = rest := by
  match left, long with
  | a :: b :: rest, _ => exact ⟨a, b, rest, rfl, rfl, rfl, rfl⟩

theorem streamGetw_enough (shows : s.Shows t left) (enough : 2 ≤ left.length) :
    ∃ s', streamGetw s = .ok (wordAt left 0, s') ∧ s'.Shows t (left.drop 2) := by
  obtain ⟨a, b, rest, rfl, _, word, behind⟩ := two_bytes enough
  rw [word, behind]
  exact streamGetw_word shows

theorem streamGetl_enough (shows : s.Shows t left) (enough : 4 ≤ left.length) :
    ∃ s', streamGetl s = .ok (longAt left 0, s') ∧ s'.Shows t (left.drop 4) := by
  match left, enough with
  | a :: b :: c :: d :: rest, _ => exact streamGetl_long shows

/-- The string at the front of the bytes left ends by the NUL behind the packet. -/
theorem Zeroed.text (zeroed : Zeroed t) (shows : s.Shows t left) :
    ∃ behind, t.data.drop s.getp = nameText left ++ 0 :: behind := by
  obtain ⟨behind, nul⟩ := zeroed.nul
  obtain ⟨behind', split⟩ := nameText_split left behind
  have beyond : s.beyond = t.beyond := by
    rw [Stream.beyond, Stream.beyond, shows.data, shows.endp]
  exact ⟨behind', by rw [shows.drop, beyond, nul, split]⟩

theorem Zeroed.text_small (zeroed : Zeroed t) (shows : s.Shows t left) :
    (nameText left).length < 2 ^ 31 := by
  have part := (List.takeWhile_sublist (l := left) (· != 0)).length_le
  have := shows.length
  have := zeroed.small
  have := shows.endp
  rw [nameText]
  omega

/-- The root name: a string of no bytes is searched for its NUL. -/
theorem dnsPktNameParse_root {a b : UInt8} {rest behind : List UInt8}
    (shows : s.Shows t (a :: b :: rest)) (plain : a.toNat < 192)
    (text : t.data.drop s.getp = 0 :: behind) :
    dnsPktNameParse s = .error .outOfObject := by
  rw [dnsPktNameParse_plain shows plain (show ∀ c ∈ ([] : List UInt8), c ≠ 0 by simp)
    (by simp) text]
  rfl

/-- A row of labels is no text the check refuses. -/
theorem not_refused_wire {labels : List (List UInt8)} (short : ∀ label ∈ labels, label.length < 128)
    (small : (wire labels).length < 2 ^ 31) : ¬ RefusedText (wire labels) := fun refused => by
  have check := checkDnsNamePktFormat_refused refused small []
  rw [checkDnsNamePktFormat_wire short] at check
  cases check

theorem not_looping_and_refused {text : List UInt8} (looping : LoopingText text)
    (small : text.length < 2 ^ 31) : ¬ RefusedText text := fun refused => by
  have check := checkDnsNamePktFormat_refused refused small []
  rw [checkDnsNamePktFormat_looping looping] at check
  cases check

theorem not_looping_wire {labels : List (List UInt8)}
    (short : ∀ label ∈ labels, label.length < 128) : ¬ LoopingText (wire labels) := fun looping => by
  have check := checkDnsNamePktFormat_looping looping []
  rw [checkDnsNamePktFormat_wire short] at check
  cases check

theorem Row.not_refused (zeroed : Zeroed t) (shows : s.Shows t left) (row : Row left) :
    ¬ Refused left := by
  obtain ⟨_, _, _, labels, _, short, same⟩ := row
  exact fun is => not_refused_wire short (same ▸ zeroed.text_small shows) (same ▸ is.2.2)

/-- What becomes of the name at the front of the bytes left. -/
theorem dnsPktNameParse_spec (zeroed : Zeroed t) (shows : s.Shows t left) :
    Refused left ∧ dnsPktNameParse s = .ok (.illegal, s) ∨
      Pointer left ∧ (∃ s', dnsPktNameParse s = .ok (.offset, s') ∧
        s'.Shows t (behindName left)) ∨
      Row left ∧ (∃ queryName s', dnsPktNameParse s = .ok (.real queryName, s') ∧
        s'.Shows t (behindName left)) ∨
      ¬ Refused left ∧ ¬ Pointer left ∧ ¬ Row left ∧
        ∃ fault, dnsPktNameParse s = .error fault ∧ (fault = .diverge ∨ ¬ Foreign left) := by
  by_cases long : 2 ≤ left.length
  case neg =>
    exact .inr (.inr (.inr ⟨fun is => long is.1, fun is => long is.1, fun is => long is.1,
      .assertFail, dnsPktNameParse_short shows (by omega), .inr fun is => long is.1⟩))
  obtain ⟨a, b, rest, shape, head, word, behind⟩ := two_bytes long
  have first : s.Shows t (a :: b :: rest) := shape ▸ shows
  by_cases pointer : 192 ≤ a.toNat
  · have far : a.toNat * 2 ^ 8 + b.toNat - DOMAIN_NAME_OFFSET_FLAG < 2 ^ 14 := by
      have := a.toNat_lt
      have := b.toNat_lt
      rw [DOMAIN_NAME_OFFSET_FLAG]
      omega
    rw [behindName, head, if_pos pointer, behind]
    exact .inr (.inl ⟨⟨long, head ▸ pointer⟩, dnsPktNameParse_offset first pointer
      (zeroed.far _ far)⟩)
  have plain : a.toNat < 192 := Nat.not_le.mp pointer
  have noPointer : ¬ Pointer left := fun is => pointer (head ▸ is.2)
  have nonzero := nameText_nonzero left
  have bound := zeroed.text_small shows
  obtain ⟨tail, text⟩ := zeroed.text shows
  have parse := dnsPktNameParse_plain first plain nonzero bound text
  rcases text_cases (nameText left) with ⟨labels, small, row⟩ | refused | looping
  · have noForeign : ¬ Foreign left := fun foreign => foreign.2.2 labels small row
    have noRefused : ¬ Refused left := fun is =>
      not_refused_wire small (row ▸ bound) (row ▸ is.2.2)
    cases labels with
    | nil =>
        have noRow : ¬ Row left := by
          rintro ⟨_, _, _, others, some_, _, same⟩
          obtain ⟨label, others, rfl⟩ := List.exists_cons_of_ne_nil some_
          rw [row] at same
          simp at same
        rw [row] at text
        exact .inr (.inr (.inr ⟨noRefused, noPointer, noRow, _,
          dnsPktNameParse_root first plain text, .inr noForeign⟩))
    | cons label labels =>
        have sized := sized_of_nonzero (row ▸ nonzero) small
        have full := dnsPktNameParse_wire first plain sized (row ▸ nonzero) (row ▸ bound)
          (row ▸ text)
        rw [← row] at full
        by_cases inside : (nameText left).length < left.length
        · obtain ⟨s', forward, after⟩ := streamForwardGetp_within shows inside
          have is : Row left := ⟨long, head ▸ plain, inside, _, by simp, small, row⟩
          rw [behindName, head, if_neg pointer]
          exact .inr (.inr (.inl ⟨is, label ++ dotted labels, s', by rw [full, forward]; rfl, after⟩))
        · have cut := streamForwardGetp_short shows (n := (nameText left).length + 1) (by omega)
          exact .inr (.inr (.inr ⟨noRefused, noPointer, fun is => inside is.2.2.1, .assertFail,
            by rw [full, cut]; rfl, .inr noForeign⟩))
  · refine .inl ⟨⟨long, head ▸ plain, refused⟩, ?_⟩
    rw [parse, checkDnsNamePktFormat_refused refused bound]
    rfl
  · have noRow : ¬ Row left := by
      rintro ⟨_, _, _, labels, _, short, row⟩
      exact not_looping_wire short (row ▸ looping)
    refine .inr (.inr (.inr ⟨fun is => not_looping_and_refused looping bound is.2.2, noPointer,
      noRow, .diverge, ?_, .inl rfl⟩))
    rw [parse, checkDnsNamePktFormat_looping looping, error_bind]

/-- The fixed part of a record behind its name. -/
def recordHead (s : Stream) : Except Fault (Nat × Nat × Nat × Nat × Stream) := do
  let (type, s) ← streamGetw s
  let (class', s) ← streamGetw s
  let (timeLive, s) ← streamGetl s
  let (datalen, s) ← streamGetw s
  return (type, class', timeLive, datalen, s)

theorem wordAt_drop (bytes : List UInt8) (i : Nat) : wordAt (bytes.drop i) 0 = wordAt bytes i := by
  simp [wordAt, List.getD]

theorem longAt_drop (bytes : List UInt8) (i : Nat) : longAt (bytes.drop i) 0 = longAt bytes i := by
  simp [longAt, List.getD]

theorem recordHead_enough (shows : s.Shows t left) (enough : 10 ≤ left.length) :
    ∃ s', recordHead s = .ok (wordAt left 0, wordAt left 2, longAt left 4, wordAt left 8, s') ∧
      s'.Shows t (left.drop 10) := by
  obtain ⟨s₁, type, shows⟩ := streamGetw_enough shows (by omega)
  obtain ⟨s₂, class', shows⟩ := streamGetw_enough shows (by simp; omega)
  obtain ⟨s₃, timeLive, shows⟩ := streamGetl_enough shows (by simp; omega)
  obtain ⟨s₄, datalen, shows⟩ := streamGetw_enough shows (by simp; omega)
  simp only [List.drop_drop, wordAt_drop, longAt_drop] at class' timeLive datalen shows
  refine ⟨s₄, ?_, shows⟩
  rw [recordHead, type]
  simp only [ok_bind, class', timeLive, datalen, pure_ok]

theorem recordHead_short (shows : s.Shows t left) (short : left.length < 10) :
    recordHead s = .error .assertFail := by
  by_cases two : 2 ≤ left.length
  case neg => rw [recordHead, streamGetw_short shows (by omega), error_bind]
  obtain ⟨s₁, type, shows⟩ := streamGetw_enough shows two
  by_cases four : 4 ≤ left.length
  case neg =>
    simp only [recordHead, type, ok_bind, streamGetw_short shows (by simp; omega), error_bind]
  obtain ⟨s₂, class', shows⟩ := streamGetw_enough shows (by simp; omega)
  by_cases eight : 8 ≤ left.length
  case neg =>
    simp only [recordHead, type, class', ok_bind, streamGetl_short shows (by simp; omega),
      error_bind]
  obtain ⟨s₃, timeLive, shows⟩ := streamGetl_enough shows (by simp; omega)
  simp only [recordHead, type, class', timeLive, ok_bind, error_bind,
    streamGetw_short shows (by simp; omega)]

theorem domainNameAnswerParse_foreign {s' : Stream}
    (parsed : dnsPktNameParse s = .ok (.illegal, s')) :
    domainNameAnswerParse s = .ok (none, s') := by
  rw [domainNameAnswerParse, parsed]
  rfl

/-- A record whose name was taken, as its fixed part and its data. -/
theorem domainNameAnswerParse_taken {name : DnsName} {s' : Stream}
    (parsed : dnsPktNameParse s = .ok (name, s')) (taken : name ≠ .illegal) :
    ∃ queryName, domainNameAnswerParse s = (do
      let (type, class', timeLive, datalen, s) ← recordHead s'
      if type = POP_DOMAIN_QUERY_TYPE_A then
        let (addr, s) ← streamGetl s
        return (some ⟨queryName, type, class', timeLive, datalen, addr⟩, s)
      else
        let s ← streamForwardGetp s datalen
        return (some ⟨queryName, type, class', timeLive, datalen, 0⟩, s)) := by
  cases name with
  | illegal => exact absurd rfl taken
  | offset =>
      refine ⟨none, ?_⟩
      simp only [domainNameAnswerParse, parsed, ok_bind, if_neg taken, recordHead, bind_assoc,
        pure_ok]
  | real queryName =>
      refine ⟨some queryName, ?_⟩
      simp only [domainNameAnswerParse, parsed, ok_bind, if_neg taken, recordHead, bind_assoc,
        pure_ok]

/-- The bytes a record of this type is read to have behind its fixed part. -/
def dataLength (left : List UInt8) : Nat :=
  if wordAt (behindName left) 0 = POP_DOMAIN_QUERY_TYPE_A then 4 else wordAt (behindName left) 8

/-- The name of the record is one the parser takes, and the record lies within the bytes left. -/
def RecordInside (left : List UInt8) : Prop :=
  (Pointer left ∨ Row left) ∧ 10 ≤ (behindName left).length ∧
    10 + dataLength left ≤ (behindName left).length

def behindRecord (left : List UInt8) : List UInt8 := (behindName left).drop (10 + dataLength left)

/-- The record as it is read. -/
def answerAt (queryName : Option (List UInt8)) (left : List UInt8) : DomainNameAnswer :=
  let fields := behindName left
  ⟨queryName, wordAt fields 0, wordAt fields 2, longAt fields 4, wordAt fields 8,
    if wordAt fields 0 = POP_DOMAIN_QUERY_TYPE_A then longAt fields 10 else 0⟩

/-- A record whose name was taken is read if it lies within the bytes left. -/
theorem domainNameAnswerParse_named {name : DnsName} {s' : Stream}
    (parsed : dnsPktNameParse s = .ok (name, s')) (taken : name ≠ .illegal)
    (shows : s'.Shows t (behindName left)) :
    if 10 ≤ (behindName left).length ∧ 10 + dataLength left ≤ (behindName left).length then
      ∃ queryName s'', domainNameAnswerParse s = .ok (some (answerAt queryName left), s'') ∧
        s''.Shows t (behindRecord left)
    else domainNameAnswerParse s = .error .assertFail := by
  obtain ⟨queryName, record⟩ := domainNameAnswerParse_taken parsed taken
  by_cases fixed : 10 ≤ (behindName left).length
  case neg =>
    rw [if_neg (fun is => fixed is.1), record, recordHead_short shows (by omega), error_bind]
  obtain ⟨s₁, head, shows⟩ := recordHead_enough shows fixed
  rw [head, ok_bind] at record
  have room : ((behindName left).drop 10).length = (behindName left).length - 10 := by simp
  by_cases isA : wordAt (behindName left) 0 = POP_DOMAIN_QUERY_TYPE_A
  · have four : dataLength left = 4 := if_pos isA
    simp only [if_pos isA] at record
    by_cases address : 10 + dataLength left ≤ (behindName left).length
    · obtain ⟨s₂, addr, shows⟩ := streamGetl_enough shows (by omega)
      rw [longAt_drop] at addr
      rw [List.drop_drop, ← four] at shows
      rw [if_pos ⟨fixed, address⟩]
      refine ⟨queryName, s₂, ?_, shows⟩
      rw [record, addr]
      simp only [ok_bind, pure_ok, answerAt, if_pos isA]
    · rw [if_neg (fun is => address is.2), record, streamGetl_short shows (by omega), error_bind]
  · have counted : dataLength left = wordAt (behindName left) 8 := if_neg isA
    simp only [if_neg isA] at record
    by_cases data : 10 + dataLength left ≤ (behindName left).length
    · obtain ⟨s₂, forward, shows⟩ := streamForwardGetp_within shows
        (n := wordAt (behindName left) 8) (by omega)
      rw [List.drop_drop, ← counted] at shows
      rw [if_pos ⟨fixed, data⟩]
      refine ⟨queryName, s₂, ?_, shows⟩
      rw [record, forward]
      simp only [ok_bind, pure_ok, answerAt, if_neg isA]
    · rw [if_neg (fun is => data is.2), record,
        streamForwardGetp_short shows (n := wordAt (behindName left) 8) (by omega), error_bind]

theorem RecordInside.not_refused (zeroed : Zeroed t) (shows : s.Shows t left)
    (inside : RecordInside left) : ¬ Refused left := by
  rcases inside.1 with pointer | row
  · exact fun is => Nat.not_lt.mpr pointer.2 is.2.1
  · exact row.not_refused zeroed shows

/-- What becomes of the record at the front of the bytes left. -/
theorem domainNameAnswerParse_spec (zeroed : Zeroed t) (shows : s.Shows t left) :
    Refused left ∧ domainNameAnswerParse s = .ok (none, s) ∨
      RecordInside left ∧ (∃ queryName s',
        domainNameAnswerParse s = .ok (some (answerAt queryName left), s') ∧
          s'.Shows t (behindRecord left)) ∨
      ¬ Refused left ∧ ¬ RecordInside left ∧
        ∃ fault, domainNameAnswerParse s = .error fault ∧ (fault = .diverge ∨ ¬ Foreign left) := by
  rcases dnsPktNameParse_spec zeroed shows with
    ⟨refused, parsed⟩ | ⟨pointer, s', parsed, after⟩ | ⟨row, queryName, s', parsed, after⟩ |
      ⟨noRefused, noPointer, noRow, fault, fails, why⟩
  · exact .inl ⟨refused, domainNameAnswerParse_foreign parsed⟩
  · have record := domainNameAnswerParse_named parsed (by simp) after
    have noForeign : ¬ Foreign left := fun foreign => not_pointer_and_foreign foreign pointer
    split at record
    · exact .inr (.inl ⟨⟨.inl pointer, ‹_›⟩, record⟩)
    · exact .inr (.inr ⟨fun is => Nat.not_lt.mpr pointer.2 is.2.1, fun is => ‹¬ _› is.2, _, record,
        .inr noForeign⟩)
  · have record := domainNameAnswerParse_named parsed (by simp) after
    have noForeign : ¬ Foreign left := fun foreign => not_row_and_foreign foreign row
    split at record
    · exact .inr (.inl ⟨⟨.inr row, ‹_›⟩, record⟩)
    · exact .inr (.inr ⟨row.not_refused zeroed shows, fun is => ‹¬ _› is.2, _, record,
        .inr noForeign⟩)
  · refine .inr (.inr ⟨noRefused, fun is => is.1.elim noPointer noRow, fault, ?_, why⟩)
    rw [domainNameAnswerParse, fails, error_bind]

/-- The walk over the records, by what becomes of the first. -/
theorem firstAnswerA_record {n : Nat} {queryName : Option (List UInt8)} {s' : Stream}
    (parsed : domainNameAnswerParse s = .ok (some (answerAt queryName left), s')) :
    firstAnswerA (n + 1) s = if wordAt (behindName left) 0 = POP_DOMAIN_QUERY_TYPE_A then
      .ok (some (answerAt queryName left)) else firstAnswerA n s' := by
  rw [firstAnswerA, parsed]
  rfl

/-- What `DomainNameIpv4Addr` does behind a header it does not refuse. -/
def behindHeader (transactionID answerRRS now : Nat) (s : Stream) :
    Except Fault (Option DnsQueryResult) := do
  match ← domainNameQuestionParse s with
  | (none, _) => return none
  | (some question, s) =>
    if question.queryType ≠ POP_DOMAIN_QUERY_TYPE_A ∨
        question.queryClass ≠ POP_DOMAIN_QUERY_CLASS_INTERNET_ADDR then return none
    let result : DnsQueryResult := ⟨transactionID, question.queryName, 0, 0, 0⟩
    if answerRRS = 0 then return some result
    match ← firstAnswerA answerRRS s with
    | none => return some result
    | some answer => return some { result with
        address := answer.addr, timeLive := answer.timeLive
        validityEndTime := (now + answer.timeLive) % 2 ^ 32 }

theorem domainNameIpv4Addr_header (shows : s.Shows t left) (long : 12 ≤ left.length) (now : Nat) :
    ∃ s', s'.Shows t (left.drop 12) ∧ domainNameIpv4Addr s now =
      if wordAt left 2 &&& DOMAIN_HEADER_RESPONSE_FLAG = 0 then .ok none
      else if wordAt left 4 ≠ 1 then .ok none
      else behindHeader (wordAt left 0) (wordAt left 6) now s' := by
  have readable : ¬ s.readable < 12 := by
    rw [shows.readable (by omega)]
    omega
  obtain ⟨s₁, transactionID, shows⟩ := streamGetw_enough shows (by omega)
  obtain ⟨s₂, flags, shows⟩ := streamGetw_enough shows (by simp; omega)
  obtain ⟨s₃, questions, shows⟩ := streamGetw_enough shows (by simp; omega)
  obtain ⟨s₄, answerRRS, shows⟩ := streamGetw_enough shows (by simp; omega)
  obtain ⟨s₅, authorityRRS, shows⟩ := streamGetw_enough shows (by simp; omega)
  obtain ⟨s₆, additionalRRS, shows⟩ := streamGetw_enough shows (by simp; omega)
  simp only [List.drop_drop, wordAt_drop, Nat.reduceAdd] at flags questions answerRRS shows
  refine ⟨s₆, shows, ?_⟩
  rw [domainNameIpv4Addr, if_neg readable]
  simp only [ok_bind, transactionID, flags, questions, answerRRS, authorityRRS, additionalRRS,
    pure_ok]
  rfl

/-- The type and the class of a question whose name was taken. -/
theorem domainNameQuestionParse_taken {queryName : List UInt8} {s' : Stream}
    (parsed : dnsPktNameParse s = .ok (.real queryName, s')) (shows : s'.Shows t left) :
    if 4 ≤ left.length then
      ∃ s'', s''.Shows t (left.drop 4) ∧ domainNameQuestionParse s =
        .ok (some ⟨queryName, wordAt left 0, wordAt left 2⟩, s'')
    else domainNameQuestionParse s = .error .assertFail := by
  by_cases two : 2 ≤ left.length
  case neg =>
    rw [if_neg (by omega)]
    simp only [domainNameQuestionParse, parsed, ok_bind, streamGetw_short shows (by omega),
      error_bind]
  obtain ⟨s₁, type, shows⟩ := streamGetw_enough shows two
  by_cases four : 4 ≤ left.length
  case neg =>
    rw [if_neg four]
    simp only [domainNameQuestionParse, parsed, type, ok_bind,
      streamGetw_short shows (by simp; omega), error_bind]
  obtain ⟨s₂, class', shows⟩ := streamGetw_enough shows (by simp; omega)
  rw [wordAt_drop] at class'
  rw [List.drop_drop] at shows
  rw [if_pos four]
  refine ⟨s₂, shows, ?_⟩
  simp only [domainNameQuestionParse, parsed, type, class', ok_bind, pure_ok]

/-- The part behind the question, which is left out when no answer is counted. -/
def answersRead (answerRRS : Nat) (s : Stream) : Except Fault (Option DomainNameAnswer) :=
  if answerRRS = 0 then .ok none else firstAnswerA answerRRS s

/-- The result, with what the first answer of type A says if there is one. -/
def resultOf (transactionID now : Nat) (queryName : List UInt8) :
    Option DomainNameAnswer → DnsQueryResult
  | none => ⟨transactionID, queryName, 0, 0, 0⟩
  | some answer => ⟨transactionID, queryName, answer.addr, answer.timeLive,
      (now + answer.timeLive) % 2 ^ 32⟩

/-- The question asks for the addresses of a host name. -/
def QuestionExpected (left : List UInt8) : Prop :=
  wordAt (behindName left) 0 = POP_DOMAIN_QUERY_TYPE_A ∧
    wordAt (behindName left) 2 = POP_DOMAIN_QUERY_CLASS_INTERNET_ADDR

/-- What becomes of the bytes behind a header that is not refused. -/
theorem behindHeader_spec (zeroed : Zeroed t) (shows : s.Shows t left)
    (transactionID answerRRS now : Nat) :
    (Refused left ∨ Pointer left ∨
        Row left ∧ 4 ≤ (behindName left).length ∧ ¬ QuestionExpected left) ∧
        behindHeader transactionID answerRRS now s = .ok none ∨
      Row left ∧ 4 ≤ (behindName left).length ∧ QuestionExpected left ∧
        (∃ queryName s', s'.Shows t ((behindName left).drop 4) ∧
          behindHeader transactionID answerRRS now s =
            (answersRead answerRRS s').map fun a => some (resultOf transactionID now queryName a)) ∨
      ¬ Refused left ∧ ¬ Pointer left ∧ ¬ (Row left ∧ 4 ≤ (behindName left).length) ∧
        ∃ fault, behindHeader transactionID answerRRS now s = .error fault ∧
          (fault = .diverge ∨ ¬ Foreign left) := by
  rcases dnsPktNameParse_spec zeroed shows with
    ⟨refused, parsed⟩ | ⟨pointer, s', parsed, after⟩ | ⟨row, queryName, s', parsed, after⟩ |
      ⟨noRefused, noPointer, noRow, fault, fails, why⟩
  · refine .inl ⟨.inl refused, ?_⟩
    rw [behindHeader, domainNameQuestionParse, parsed]
    rfl
  · refine .inl ⟨.inr (.inl pointer), ?_⟩
    rw [behindHeader, domainNameQuestionParse, parsed]
    rfl
  · have question := domainNameQuestionParse_taken parsed after
    have noForeign : ¬ Foreign left := fun foreign => not_row_and_foreign foreign row
    by_cases four : 4 ≤ (behindName left).length
    case neg =>
      rw [if_neg four] at question
      refine .inr (.inr ⟨row.not_refused zeroed shows, not_pointer_and_row row,
        fun is => four is.2, .assertFail, ?_, .inr noForeign⟩)
      rw [behindHeader, question, error_bind]
    rw [if_pos four] at question
    obtain ⟨s'', shows, question⟩ := question
    by_cases expected : QuestionExpected left
    · refine .inr (.inl ⟨row, four, expected, queryName, s'', shows, ?_⟩)
      have usual : ¬ (wordAt (behindName left) 0 ≠ POP_DOMAIN_QUERY_TYPE_A ∨
          wordAt (behindName left) 2 ≠ POP_DOMAIN_QUERY_CLASS_INTERNET_ADDR) := fun unusual =>
        unusual.elim (· expected.1) (· expected.2)
      simp only [behindHeader, question, ok_bind, if_neg usual, answersRead]
      by_cases none_ : answerRRS = 0
      · rw [if_pos none_, if_pos none_]
        rfl
      · rw [if_neg none_, if_neg none_]
        cases firstAnswerA answerRRS s'' with
        | error fault => rfl
        | ok answer => cases answer <;> rfl
    · refine .inl ⟨.inr (.inr ⟨row, four, expected⟩), ?_⟩
      have unusual : wordAt (behindName left) 0 ≠ POP_DOMAIN_QUERY_TYPE_A ∨
          wordAt (behindName left) 2 ≠ POP_DOMAIN_QUERY_CLASS_INTERNET_ADDR :=
        not_and_or.mp expected
      simp only [behindHeader, question, ok_bind, if_pos unusual, pure_ok]
  · refine .inr (.inr ⟨noRefused, noPointer, fun is => noRow is.1, fault, ?_, why⟩)
    rw [behindHeader, domainNameQuestionParse, fails]
    rfl

end Parsing

theorem shows_received (payload : List UInt8) (fits : payload.length ≤ 65507) :
    (received payload).Shows (received payload) payload := by
  refine ⟨rfl, rfl, ?_, ?_⟩
  · simp [received, Stream.unread]
  · show payload.length < 2 ^ 32
    omega

end Poplar.Domain
