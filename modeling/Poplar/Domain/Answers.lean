import Poplar.Domain.Shapes

/-!
# The array of answers

Which elements of `Answer` are accessed, and what a response without an address makes of
the look at `Answer[i]` behind the loop.
-/
namespace Poplar.Domain

/-- `DomainNameIpv4Addr` up to the answers: the header, the question and the stream behind
them, unless the packet is refused. -/
def parsedQuestion (s : Stream) :
    Except Fault (Option (DomainNameHeader × DomainNameQuestion × Stream)) := do
  if s.readable < 12 then return none
  let (transactionID, s) ← streamGetw s
  let (flags, s) ← streamGetw s
  let (questions, s) ← streamGetw s
  let (answerRRS, s) ← streamGetw s
  let (authorityRRS, s) ← streamGetw s
  let (additionalRRS, s) ← streamGetw s
  let header : DomainNameHeader :=
    ⟨transactionID, flags, questions, answerRRS, authorityRRS, additionalRRS⟩
  if header.flags &&& DOMAIN_HEADER_RESPONSE_FLAG = 0 then return none
  if header.questions ≠ 1 then return none
  match ← domainNameQuestionParse s with
  | (none, _) => return none
  | (some question, s) =>
    if question.queryType ≠ POP_DOMAIN_QUERY_TYPE_A ∨
        question.queryClass ≠ POP_DOMAIN_QUERY_CLASS_INTERNET_ADDR then return none
    return some (header, question, s)

/-- The loop over the answers from element `i` on and the look at `Answer[i]` behind it: the
elements accessed, and the answer found. -/
def answerWalk : Nat → Nat → Stream → List Nat × Except Fault (Option DomainNameAnswer)
  | 0, i, _ => ([i], .error .outOfObject)
  | turns + 1, i, s =>
    match domainNameAnswerParse s with
    | .error fault => ([], .error fault)
    | .ok (none, _) => ([i], .ok none)
    | .ok (some answer, s) =>
      if answer.type = POP_DOMAIN_QUERY_TYPE_A then ([i], .ok (some answer))
      else (i :: (answerWalk turns (i + 1) s).1, (answerWalk turns (i + 1) s).2)

/-- The elements of `Answer` accessed: those of the walk, and behind the label `DONE` those
that are freed. With no answer counted there is no array. -/
def answerAccesses (answerRRS : Nat) (s : Stream) : List Nat :=
  if answerRRS = 0 then []
  else match answerWalk answerRRS 0 s with
    | (accessed, .ok _) => accessed ++ List.range answerRRS
    | (accessed, .error _) => accessed

/-- `n` records in a row lie within the bytes left and none is of type A. -/
def OtherRecords : Nat → List UInt8 → Prop
  | 0, _ => True
  | n + 1, left => RecordInside left ∧ wordAt (behindName left) 0 ≠ POP_DOMAIN_QUERY_TYPE_A ∧
      OtherRecords n (behindRecord left)

/-- None of the records is of type A; they lie within the bytes left up to a name that is
refused. -/
def NoAddress : Nat → List UInt8 → Prop
  | 0, _ => True
  | n + 1, left => Refused left ∨ RecordInside left ∧
      wordAt (behindName left) 0 ≠ POP_DOMAIN_QUERY_TYPE_A ∧ NoAddress n (behindRecord left)

/-- The walk that lists its accesses is the loop of the parser. -/
theorem answerWalk_result (n i : Nat) (s : Stream) : (answerWalk n i s).2 = firstAnswerA n s := by
  induction n generalizing i s with
  | zero => rfl
  | succ n ih =>
      rw [answerWalk, firstAnswerA]
      cases domainNameAnswerParse s with
      | error fault => rfl
      | ok parsed =>
          obtain ⟨answer, s'⟩ := parsed
          cases answer with
          | none => rfl
          | some answer =>
              rw [ok_bind]
              by_cases isA : answer.type = POP_DOMAIN_QUERY_TYPE_A
              · simp only [if_pos isA, pure_ok]
              · simp only [if_neg isA, ih]

/-- What follows the question in `DomainNameIpv4Addr`. -/
def behindQuestion (now : Nat) :
    Option (DomainNameHeader × DomainNameQuestion × Stream) → Except Fault (Option DnsQueryResult)
  | none => .ok none
  | some (header, question, s) => (answersRead header.answerRRS s).map fun a =>
      some (resultOf header.transactionID now question.queryName a)

theorem domainNameIpv4Addr_parsed (s : Stream) (now : Nat) :
    domainNameIpv4Addr s now = parsedQuestion s >>= behindQuestion now := by
  rw [domainNameIpv4Addr, parsedQuestion]
  by_cases short : s.readable < 12
  · simp only [if_pos short]
    rfl
  simp only [if_neg short, bind_assoc]
  -- the six words of the header are read in the same way
  refine bind_congr fun _ => bind_congr fun _ => bind_congr fun _ => bind_congr fun _ =>
    bind_congr fun _ => bind_congr fun _ => ?_
  split
  · rfl
  split
  · rfl
  rw [bind_assoc]
  refine bind_congr fun parsed => ?_
  obtain ⟨question, s⟩ := parsed
  cases question with
  | none => rfl
  | some question =>
      by_cases unusual : question.queryType ≠ POP_DOMAIN_QUERY_TYPE_A ∨
          question.queryClass ≠ POP_DOMAIN_QUERY_CLASS_INTERNET_ADDR
      · simp only [if_pos unusual]
        rfl
      simp only [if_neg unusual, behindQuestion, pure_ok, ok_bind, answersRead]
      split
      · rfl
      cases firstAnswerA _ s with
      | error fault => rfl
      | ok answer => cases answer <;> rfl

section Accesses

variable {s s' t : Stream} {left : List UInt8}

theorem streamGetw_keeps {w : Nat} (shows : s.Shows t left)
    (read : streamGetw s = .ok (w, s')) : s'.Shows t (left.drop 2) := by
  unfold streamGetw at read
  split at read
  · cases read
  · cases read
    exact shows.advance _

/-- The stream an accepted packet leaves is the packet read on. -/
theorem parsedQuestion_shows (zeroed : Zeroed t) (shows : s.Shows t left)
    {header : DomainNameHeader} {question : DomainNameQuestion}
    (accepted : parsedQuestion s = .ok (some (header, question, s'))) :
    s'.Shows t s'.unread := by
  rw [parsedQuestion] at accepted
  split at accepted
  · cases accepted
  obtain ⟨⟨_, s₁⟩, read, accepted⟩ := bind_eq_ok accepted
  have shows := streamGetw_keeps shows read
  obtain ⟨⟨_, s₂⟩, read, accepted⟩ := bind_eq_ok accepted
  have shows := streamGetw_keeps shows read
  obtain ⟨⟨_, s₃⟩, read, accepted⟩ := bind_eq_ok accepted
  have shows := streamGetw_keeps shows read
  obtain ⟨⟨_, s₄⟩, read, accepted⟩ := bind_eq_ok accepted
  have shows := streamGetw_keeps shows read
  obtain ⟨⟨_, s₅⟩, read, accepted⟩ := bind_eq_ok accepted
  have shows := streamGetw_keeps shows read
  obtain ⟨⟨_, s₆⟩, read, accepted⟩ := bind_eq_ok accepted
  have shows := streamGetw_keeps shows read
  dsimp only at accepted
  split at accepted
  · cases accepted
  rw [ite_not] at accepted
  split at accepted
  case isFalse => cases accepted
  obtain ⟨⟨found, s₇⟩, parsed, accepted⟩ := bind_eq_ok accepted
  cases found with
  | none => cases accepted
  | some found =>
      dsimp only at accepted
      split at accepted
      · cases accepted
      cases accepted
      rw [domainNameQuestionParse] at parsed
      obtain ⟨⟨name, s₈⟩, named, parsed⟩ := bind_eq_ok parsed
      rcases dnsPktNameParse_spec zeroed shows with
        ⟨_, known⟩ | ⟨_, _, known, _⟩ | ⟨_, _, _, known, after⟩ | ⟨_, _, _, _, known, _⟩ <;>
        rw [known] at named <;> cases named
      · cases parsed
      · cases parsed
      obtain ⟨⟨_, s₉⟩, read, parsed⟩ := bind_eq_ok parsed
      have shows := streamGetw_keeps after read
      obtain ⟨⟨_, s₁₀⟩, read, parsed⟩ := bind_eq_ok parsed
      have shows := streamGetw_keeps shows read
      cases parsed
      exact ⟨shows.data, shows.endp, rfl, shows.small⟩

/-- Records of other types alone lead past the last element. -/
theorem answerWalk_other (zeroed : Zeroed t) {n : Nat} (shows : s.Shows t left)
    (others : OtherRecords n left) (i : Nat) : i + n ∈ (answerWalk n i s).1 := by
  induction n generalizing s left i with
  | zero => simp [answerWalk]
  | succ n ih =>
      obtain ⟨inside, notA, later⟩ := others
      rcases domainNameAnswerParse_spec zeroed shows with
        ⟨refused, parsed⟩ | ⟨_, queryName, s', parsed, after⟩ | ⟨_, notInside, _⟩
      · exact absurd refused (inside.not_refused zeroed shows)
      · have type : (answerAt queryName left).type ≠ POP_DOMAIN_QUERY_TYPE_A := notA
        rw [answerWalk, parsed]
        simp only [if_neg type]
        have next := ih after later (i + 1)
        rw [Nat.add_right_comm] at next
        exact List.mem_cons_of_mem _ next
      · exact absurd inside notInside

/-- Where something else comes first, the walk stays inside the array. -/
theorem answerWalk_inside (zeroed : Zeroed t) {n : Nat} (shows : s.Shows t left)
    (ends : ¬ OtherRecords n left) (i : Nat) : ∀ j ∈ (answerWalk n i s).1, j < i + n := by
  induction n generalizing s left i with
  | zero => exact absurd trivial ends
  | succ n ih =>
      intro j accessed
      rcases domainNameAnswerParse_spec zeroed shows with
        ⟨refused, parsed⟩ | ⟨inside, queryName, s', parsed, after⟩ | ⟨_, _, fault, parsed, _⟩
      · rw [answerWalk, parsed] at accessed
        rw [List.mem_singleton.mp accessed]
        omega
      · rw [answerWalk, parsed] at accessed
        by_cases isA : wordAt (behindName left) 0 = POP_DOMAIN_QUERY_TYPE_A
        · have type : (answerAt queryName left).type = POP_DOMAIN_QUERY_TYPE_A := isA
          simp only [if_pos type] at accessed
          rw [List.mem_singleton.mp accessed]
          omega
        · have type : (answerAt queryName left).type ≠ POP_DOMAIN_QUERY_TYPE_A := isA
          simp only [if_neg type] at accessed
          rcases List.mem_cons.mp accessed with rfl | later
          · omega
          · have := ih after (fun others => ends ⟨inside, isA, others⟩) (i + 1) j later
            omega
      · rw [answerWalk, parsed] at accessed
        cases accessed

/-- Without a record of type A nothing is found, unless the walk runs out of the array. -/
theorem firstAnswerA_noAddress (zeroed : Zeroed t) {n : Nat} (shows : s.Shows t left)
    (none_ : NoAddress n left) (ends : ¬ OtherRecords n left) : firstAnswerA n s = .ok none := by
  induction n generalizing s left with
  | zero => exact absurd trivial ends
  | succ n ih =>
      rcases domainNameAnswerParse_spec zeroed shows with
        ⟨refused, parsed⟩ | ⟨inside, queryName, s', parsed, after⟩ | ⟨noRefused, notInside, _⟩
      · rw [firstAnswerA, parsed]
        rfl
      · rcases none_ with refused | ⟨_, notA, later⟩
        · exact absurd refused (inside.not_refused zeroed shows)
        · rw [firstAnswerA_record parsed, if_neg notA]
          exact ih after later fun others => ends ⟨inside, notA, others⟩
      · exact absurd none_ (not_or.mpr ⟨noRefused, fun is => notInside is.1⟩)

end Accesses

/-- The answers an accepted packet counts, and the elements of its array that are accessed. -/
def arrayRun (payload : List UInt8) : Option (Nat × List Nat) :=
  match parsedQuestion (received payload) with
  | .ok (some (header, _, s)) => some (header.answerRRS, answerAccesses header.answerRRS s)
  | _ => none

theorem accepted_of_arrayRun {payload : List UInt8} {n : Nat} {accessed : List Nat}
    (ran : arrayRun payload = some (n, accessed)) :
    ∃ header question s, parsedQuestion (received payload) = .ok (some (header, question, s)) ∧
      header.answerRRS = n ∧ answerAccesses n s = accessed := by
  rw [arrayRun] at ran
  split at ran
  · cases ran
    exact ⟨_, _, _, ‹_›, rfl, rfl⟩
  · cases ran

/-- A response with one answer: the header, the question and the record. -/
def oneAnswer (record : List UInt8) : List UInt8 :=
  [0, 7, 0x81, 0x80, 0, 1, 0, 1, 0, 0, 0, 0] ++ [1, 97, 0, 0, 1, 0, 1] ++ record

def aliasOnly : List UInt8 := oneAnswer [0xC0, 0x0C, 0, 5, 0, 1, 0, 0, 0, 60, 0, 3, 1, 98, 0]

def addressOnly : List UInt8 := oneAnswer [0xC0, 0x0C, 0, 1, 0, 1, 0, 0, 0, 60, 0, 4, 192, 0, 2, 1]

end Poplar.Domain
