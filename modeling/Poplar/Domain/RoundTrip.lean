import Poplar.Domain.Names

/-!
# Queries and the answers to them

The packet of a query, completed to an answer by a server that copies the question,
is parsed back to the host name asked for and the first address answered.
-/
namespace Poplar.Domain

structure HostName where
  labels : List (List UInt8)
  nonempty : labels ≠ []
  sized : ∀ label ∈ labels, label ≠ [] ∧ label.length ≤ 63
  plain : ∀ label ∈ labels, ∀ c ∈ label, c ≠ dot ∧ c ≠ 0
  short : ([dot].intercalate labels).length ≤ 253

/-- The string, as `get_host_by_name_unblock` is given it. -/
def HostName.text (host : HostName) : List UInt8 := [dot].intercalate host.labels

/-- An answer record whose owner name is the pointer `C00C`. -/
structure Record where
  type : Nat
  class' : Nat
  timeLive : Nat
  rdata : List UInt8
  typeFits : type < 2 ^ 16
  classFits : class' < 2 ^ 16
  timeLiveFits : timeLive < 2 ^ 32
  rdataFits : rdata.length < 2 ^ 16

def Record.bytes (r : Record) : List UInt8 :=
  word 0xC00C ++ word r.type ++ word r.class' ++ long r.timeLive ++ word r.rdata.length ++ r.rdata

/-- Bytes read as a number in network byte order. -/
def bigEndian (bytes : List UInt8) : Nat := bytes.foldl (fun n c => n * 2 ^ 8 + c.toNat) 0

/-- The packet of a query with `Flags` set to 0x8180 and the records appended and counted. -/
def answered (packet : List UInt8) (records : List Record) : List UInt8 :=
  packet.take 2 ++ word 0x8180 ++ (packet.drop 4).take 2 ++ word records.length ++
    packet.drop 8 ++ records.flatMap Record.bytes

theorem intercalate_dot (label : List UInt8) (labels : List (List UInt8)) :
    [dot].intercalate (label :: labels) = label ++ dotted labels := by
  induction labels generalizing label with
  | nil => simp
  | cons next labels ih => simp [List.intercalate_cons_cons, ih next]

/-- The turns over the characters of a label only count. -/
theorem transLoop_label {label : List UInt8} (plain : ∀ c ∈ label, c ≠ dot ∧ c ≠ 0)
    (before after : List UInt8) (n mptr count : Nat) :
    transLoop (label.length + n) before.length mptr count (before ++ label ++ after) =
      transLoop n (before ++ label).length mptr (count + label.length)
        (before ++ label ++ after) := by
  induction label generalizing before count with
  | nil => simp
  | cons c label ih =>
      obtain ⟨visible, rest⟩ := List.forall_mem_cons.mp plain
      have read : (before ++ c :: label ++ after).getD before.length 0 = c := by simp [List.getD]
      have next := ih rest (before ++ [c]) (count + 1)
      rw [List.length_cons, show label.length + 1 + n = label.length + n + 1 by omega, transLoop,
        if_pos (by rw [read]; exact visible)]
      simpa [Nat.add_assoc, Nat.add_comm 1] using next

/-- The turns over a label and the byte behind it store its length in front of it. -/
theorem transLoop_turns {label : List UInt8} (plain : ∀ c ∈ label, c ≠ dot ∧ c ≠ 0)
    {x mark : UInt8} (marks : mark = dot ∨ mark = 0) (before after : List UInt8) (n : Nat) :
    transLoop (label.length + (n + 1)) (before.length + 1) before.length 0
        (before ++ x :: label ++ mark :: after) =
      transLoop n ((before ++ UInt8.ofNat label.length :: label).length + 1)
        (before ++ UInt8.ofNat label.length :: label).length 0
        (before ++ UInt8.ofNat label.length :: label ++ mark :: after) := by
  have scan := transLoop_label plain (before ++ [x]) (mark :: after) (n + 1) before.length 0
  have shape : before ++ [x] ++ label ++ mark :: after = before ++ x :: label ++ mark :: after := by
    simp
  have read : (before ++ x :: label ++ mark :: after).getD (before ++ [x] ++ label).length 0 =
      mark := by simp [List.getD]
  have stop : ¬ (mark ≠ dot ∧ mark ≠ 0) := by
    rcases marks with rfl | rfl <;> decide
  rw [shape, List.length_append, List.length_singleton] at scan
  rw [scan, transLoop, read, if_neg stop]
  simp [Nat.add_assoc]

theorem transLoop_dotted {label : List UInt8} {labels : List (List UInt8)}
    (plain : ∀ l ∈ label :: labels, ∀ c ∈ l, c ≠ dot ∧ c ≠ 0) (before : List UInt8) (x : UInt8) :
    transLoop ((label ++ dotted labels).length + 1) (before.length + 1) before.length 0
        (before ++ x :: label ++ (dotted labels ++ [0])) =
      before ++ wire (label :: labels) ++ [0] := by
  obtain ⟨plainHead, plainRest⟩ := List.forall_mem_cons.mp plain
  rw [List.length_append, Nat.add_assoc]
  induction labels generalizing label before x with
  | nil =>
      rw [dotted_nil, List.nil_append, transLoop_turns plainHead (.inr rfl), List.length_nil]
      simp [transLoop]
  | cons next labels ih =>
      obtain ⟨plainNext, plainLater⟩ := List.forall_mem_cons.mp plainRest
      have later := ih plainRest (before ++ UInt8.ofNat label.length :: label) dot plainNext plainLater
      rw [dotted_cons, List.cons_append, List.cons_append, transLoop_turns plainHead (.inl rfl),
        List.length_cons, List.length_append, Nat.add_assoc]
      simpa using later

theorem transDnsNameIntoPktFormat_labels {labels : List (List UInt8)} (nonempty : labels ≠ [])
    (plain : ∀ label ∈ labels, ∀ c ∈ label, c ≠ dot ∧ c ≠ 0) :
    transDnsNameIntoPktFormat ([dot].intercalate labels) = wire labels ++ [0] := by
  obtain ⟨label, labels, rfl⟩ := List.exists_cons_of_ne_nil nonempty
  have walk := transLoop_dotted plain [] 0
  rw [transDnsNameIntoPktFormat, intercalate_dot]
  simpa using walk

theorem transDnsNameIntoPktFormat_text (host : HostName) :
    transDnsNameIntoPktFormat host.text = wire host.labels ++ [0] :=
  transDnsNameIntoPktFormat_labels host.nonempty host.plain

/-- What was put into a stream and how much room is left. -/
structure Wrote (s : Stream) (done : List UInt8) (room : Nat) : Prop where
  written : s.data.take s.endp = done
  room : s.writeable = room

theorem Wrote.put {s : Stream} {done : List UInt8} {room : Nat} (wrote : Wrote s done room)
    (src : List UInt8) (fits : src.length ≤ room) :
    Wrote (streamPut s src) (done ++ src) (room - src.length) := by
  have valid := s.endpValid
  have left := wrote.room
  rw [Stream.writeable, Stream.size] at left
  have kept : ¬ s.endp + src.length > s.size := by
    rw [Stream.size]
    omega
  have inside : s.endp + src.length ≤ s.size := Nat.not_lt.mp kept
  have taken : (s.data.take s.endp).length = s.endp := by
    rw [List.length_take]
    omega
  have grown : s.endp + src.length ≤
      (s.data.take s.endp ++ src ++ s.data.drop (s.endp + src.length)).length := by
    rw [List.length_append, List.length_append, taken]
    omega
  have shape : streamPut s src = ⟨s.data.take s.endp ++ src ++ s.data.drop (s.endp + src.length),
      s.getp, s.endp + src.length, Nat.le_trans s.getpValid (Nat.le_add_right _ _), grown⟩ := by
    simp only [streamPut, if_neg kept, dif_pos inside]
  rw [shape]
  constructor
  · rw [← wrote.written]
    exact List.take_left' (by rw [List.length_append, taken])
  · simp only [Stream.writeable, Stream.size, List.length_append, taken, List.length_drop]
    omega

theorem Wrote.putw {s : Stream} {done : List UInt8} {room : Nat} (wrote : Wrote s done room)
    (fits : 2 ≤ room) (w : Nat) :
    ∃ s', streamPutw s w = .ok s' ∧ Wrote s' (done ++ word w) (room - 2) := by
  have enough : ¬ s.writeable < 2 := by
    rw [wrote.room]
    omega
  exact ⟨_, if_neg enough, wrote.put (word w) fits⟩

def queryHeader (id : Nat) : DomainNameHeader := ⟨id, POP_DOMAIN_STANDARD_QUERY, 1, 0, 0, 0⟩

def queryPacket (host : HostName) (id : Nat) : List UInt8 :=
  (queryHeader id).bytes ++ (wire host.labels ++ [0]) ++ word POP_DOMAIN_QUERY_TYPE_A ++
    word POP_DOMAIN_QUERY_CLASS_INTERNET_ADDR

/-- The packet asks for whatever the name was turned into. -/
theorem dnsQueryPacket_eq (domainName : List UInt8) (id : Nat) :
    dnsQueryPacket id domainName =
      .ok ((queryHeader id).bytes ++ transDnsNameIntoPktFormat domainName ++
        word POP_DOMAIN_QUERY_TYPE_A ++ word POP_DOMAIN_QUERY_CLASS_INTERNET_ADDR) := by
  set queryName := transDnsNameIntoPktFormat domainName with name
  set size := 12 + queryName.length + 4 with total
  have new : ∃ s, streamNew (List.replicate size 0) = .ok s ∧ Wrote s [] size := by
    refine ⟨_, if_pos (by rw [List.length_replicate]; omega), rfl, ?_⟩
    simp [Stream.writeable, Stream.size]
  obtain ⟨s, created, empty⟩ := new
  have header := empty.put (queryHeader id).bytes (by
    rw [show (queryHeader id).bytes.length = 12 from rfl]
    omega)
  rw [List.nil_append, show (queryHeader id).bytes.length = 12 from rfl] at header
  have query := header.put queryName (by omega)
  obtain ⟨typed, putType, withType⟩ := query.putw (by omega) POP_DOMAIN_QUERY_TYPE_A
  obtain ⟨classed, putClass, withClass⟩ := withType.putw (by omega)
    POP_DOMAIN_QUERY_CLASS_INTERNET_ADDR
  have header : (⟨id, POP_DOMAIN_STANDARD_QUERY, 1, 0, 0, 0⟩ : DomainNameHeader) = queryHeader id :=
    rfl
  rw [dnsQueryPacket]
  simp only [← name, ← total, created, ok_bind, header, putType, putClass, pure_ok,
    withClass.written]

theorem dnsQueryPacket_text (host : HostName) (id : Nat) :
    dnsQueryPacket id host.text = .ok (queryPacket host id) := by
  rw [dnsQueryPacket_eq, transDnsNameIntoPktFormat_text]
  rfl

theorem toNat_word {w : Nat} (fits : w < 2 ^ 16) :
    (UInt8.ofNat (w / 2 ^ 8)).toNat * 2 ^ 8 + (UInt8.ofNat w).toNat = w := by
  simp only [UInt8.toNat_ofNat']
  omega

theorem toNat_long {w : Nat} (fits : w < 2 ^ 32) :
    (UInt8.ofNat (w / 2 ^ 24)).toNat * 2 ^ 24 + (UInt8.ofNat (w / 2 ^ 16)).toNat * 2 ^ 16 +
      (UInt8.ofNat (w / 2 ^ 8)).toNat * 2 ^ 8 + (UInt8.ofNat w).toNat = w := by
  simp only [UInt8.toNat_ofNat']
  omega

section Parsing

variable {s t : Stream} {rest : List UInt8}

theorem streamGetw_of_word {w : Nat} (shows : s.Shows t (word w ++ rest)) (fits : w < 2 ^ 16) :
    ∃ s', streamGetw s = .ok (w, s') ∧ s'.Shows t rest := by
  have read := streamGetw_word shows
  rwa [toNat_word fits] at read

theorem streamGetl_of_long {w : Nat} (shows : s.Shows t (long w ++ rest)) (fits : w < 2 ^ 32) :
    ∃ s', streamGetl s = .ok (w, s') ∧ s'.Shows t rest := by
  have read := streamGetl_long shows
  rwa [toNat_long fits] at read

theorem streamGetl_of_four {bytes : List UInt8} (shows : s.Shows t (bytes ++ rest))
    (four : bytes.length = 4) :
    ∃ s', streamGetl s = .ok (bigEndian bytes, s') ∧ s'.Shows t rest := by
  match bytes, four with
  | [a, b, c, d], _ =>
      obtain ⟨s', read, after⟩ := streamGetl_long shows
      have number : bigEndian [a, b, c, d] =
          a.toNat * 2 ^ 24 + b.toNat * 2 ^ 16 + c.toNat * 2 ^ 8 + d.toNat := by
        simp only [bigEndian, List.foldl_cons, List.foldl_nil]
        omega
      exact ⟨s', number ▸ read, after⟩

/-- A record up to its data. -/
theorem domainNameAnswerParse_record {r : Record} (shows : s.Shows t (r.bytes ++ rest))
    (nul : 0 ∈ t.data.drop 12) :
    ∃ s', s'.Shows t (r.rdata ++ rest) ∧ domainNameAnswerParse s =
      if r.type = POP_DOMAIN_QUERY_TYPE_A then do
        let (addr, s') ← streamGetl s'
        return (some ⟨none, r.type, r.class', r.timeLive, r.rdata.length, addr⟩, s')
      else do
        let s' ← streamForwardGetp s' r.rdata.length
        return (some ⟨none, r.type, r.class', r.timeLive, r.rdata.length, 0⟩, s') := by
  simp only [Record.bytes, List.append_assoc] at shows
  obtain ⟨named, name, shows⟩ := dnsPktNameParse_offset (a := 0xC0) (b := 0x0C) shows (by decide) nul
  obtain ⟨typed, type, shows⟩ := streamGetw_of_word shows r.typeFits
  obtain ⟨classed, class', shows⟩ := streamGetw_of_word shows r.classFits
  obtain ⟨timed, timeLive, shows⟩ := streamGetl_of_long shows r.timeLiveFits
  obtain ⟨sized, datalen, shows⟩ := streamGetw_of_word shows r.rdataFits
  refine ⟨sized, shows, ?_⟩
  rw [domainNameAnswerParse, name]
  simp only [ok_bind, type, class', timeLive, datalen]
  rfl

theorem firstAnswerA_records {pre post : List Record} {a : Record}
    (others : ∀ r ∈ pre, r.type ≠ POP_DOMAIN_QUERY_TYPE_A)
    (isA : a.type = POP_DOMAIN_QUERY_TYPE_A) (four : a.rdata.length = 4)
    (shows : s.Shows t ((pre ++ a :: post).flatMap Record.bytes)) (nul : 0 ∈ t.data.drop 12)
    {n : Nat} (counted : pre.length < n) :
    firstAnswerA n s =
      .ok (some ⟨none, a.type, a.class', a.timeLive, a.rdata.length, bigEndian a.rdata⟩) := by
  obtain ⟨n, rfl⟩ : ∃ k, n = k + 1 := ⟨n - 1, by omega⟩
  induction pre generalizing s n with
  | nil =>
      obtain ⟨at_, shows, parsed⟩ := domainNameAnswerParse_record shows nul
      obtain ⟨behind, address, _⟩ := streamGetl_of_four shows four
      rw [firstAnswerA, parsed, if_pos isA, address]
      simp only [ok_bind, pure_ok, if_pos isA]
  | cons r pre ih =>
      obtain ⟨notA, rest⟩ := List.forall_mem_cons.mp others
      obtain ⟨at_, shows, parsed⟩ := domainNameAnswerParse_record shows nul
      obtain ⟨behind, skipped, after⟩ := streamForwardGetp_within shows (n := r.rdata.length) (by simp)
      rw [List.drop_left] at after
      obtain ⟨n, rfl⟩ : ∃ k, n = k + 1 := ⟨n - 1, by simp at counted; omega⟩
      rw [firstAnswerA, parsed, if_neg notA, skipped]
      simp only [ok_bind, pure_ok, if_neg notA]
      exact ih rest after n (by simp at counted; omega)

theorem nonzero_wire (host : HostName) : ∀ c ∈ wire host.labels, c ≠ 0 := by
  intro c member zero
  obtain ⟨label, inside, here⟩ := List.mem_flatMap.mp member
  obtain ⟨nonempty, short⟩ := host.sized label inside
  rcases List.mem_cons.mp here with length | plain
  · have positive : 0 < label.length := List.length_pos_iff.mpr nonempty
    have := toNat_ofNat_length (show label.length < 128 by omega)
    rw [← length, zero, UInt8.toNat_zero] at this
    omega
  · exact (host.plain label inside c plain).2 zero

/-- The name of a query is read back as the text it was made from. -/
theorem dnsPktNameParse_text (host : HostName)
    (shows : s.Shows t (wire host.labels ++ [0] ++ rest)) :
    ∃ s', dnsPktNameParse s = .ok (.real host.text, s') ∧ s'.Shows t rest := by
  obtain ⟨label, labels, split⟩ := List.exists_cons_of_ne_nil host.nonempty
  have sized : ∀ l ∈ label :: labels, l ≠ [] ∧ l.length < 128 := fun l member =>
    ⟨(host.sized l (split ▸ member)).1, by have := (host.sized l (split ▸ member)).2; omega⟩
  have nonzero := nonzero_wire host
  have text : host.text = label ++ dotted labels := by
    rw [HostName.text, split, intercalate_dot]
  obtain ⟨s', forward, after⟩ := streamForwardGetp_within shows
    (n := (wire host.labels).length + 1) (by simp)
  have rest_ : (wire host.labels ++ [0] ++ rest).drop ((wire host.labels).length + 1) = rest :=
    List.drop_left' (by simp)
  rw [rest_] at after
  have length : (wire (label :: labels)).length < 2 ^ 31 := by
    have fits := host.short
    rw [split, intercalate_dot, List.length_append, length_dotted] at fits
    rw [wire_cons, List.length_append, List.length_cons]
    omega
  rw [split] at shows nonzero forward
  have ends : t.data.drop s.getp = wire (label :: labels) ++ 0 :: (rest ++ s.beyond) := by
    rw [shows.drop]
    simp
  obtain ⟨c, label', shape⟩ := List.exists_cons_of_ne_nil (sized label (by simp)).1
  have plain : (UInt8.ofNat label.length).toNat < 192 := by
    have small := (sized label (by simp)).2
    rw [toNat_ofNat_length small]
    omega
  have front : wire (label :: labels) ++ [0] ++ rest =
      UInt8.ofNat label.length :: c :: (label' ++ (wire labels ++ [0] ++ rest)) := by
    simp [shape]
  rw [front] at shows
  refine ⟨s', ?_, after⟩
  rw [dnsPktNameParse_wire shows plain sized nonzero length ends, forward, text]
  rfl

end Parsing

theorem answered_queryPacket (host : HostName) (id : Nat) (records : List Record) :
    answered (queryPacket host id) records =
      word id ++ (word 0x8180 ++ (word 1 ++ (word records.length ++ (word 0 ++ (word 0 ++
        (wire host.labels ++ [0] ++ (word POP_DOMAIN_QUERY_TYPE_A ++
          (word POP_DOMAIN_QUERY_CLASS_INTERNET_ADDR ++ records.flatMap Record.bytes)))))))) := by
  simp [answered, queryPacket, queryHeader, DomainNameHeader.bytes, word]

theorem domainNameIpv4Addr_answered (host : HostName) {id : Nat} (idFits : id < 2 ^ 16)
    {pre post : List Record} {a : Record} (others : ∀ r ∈ pre, r.type ≠ POP_DOMAIN_QUERY_TYPE_A)
    (isA : a.type = POP_DOMAIN_QUERY_TYPE_A) (four : a.rdata.length = 4)
    (counted : (pre ++ a :: post).length < 2 ^ 16) {s : Stream} (start : s.getp = 0)
    (small : s.endp < 2 ^ 32) (holds : s.unread = answered (queryPacket host id) (pre ++ a :: post))
    (now : Nat) :
    domainNameIpv4Addr s now = .ok (some ⟨id, host.text, bigEndian a.rdata, a.timeLive,
      (now + a.timeLive) % 2 ^ 32⟩) := by
  rw [answered_queryPacket] at holds
  have shows : s.Shows s _ := ⟨rfl, rfl, holds, small⟩
  have nul : 0 ∈ s.data.drop 12 := by
    have whole := shows.drop
    rw [start, List.drop_zero] at whole
    rw [whole]
    simp [word]
  have readable : ¬ s.readable < 12 := by
    rw [shows.readable (by omega)]
    simp only [List.length_append, word, List.length_cons, List.length_nil]
    omega
  obtain ⟨s₁, transactionID, shows⟩ := streamGetw_of_word shows idFits
  obtain ⟨s₂, flags, shows⟩ := streamGetw_of_word shows (by decide)
  obtain ⟨s₃, questions, shows⟩ := streamGetw_of_word shows (by decide)
  obtain ⟨s₄, answerRRS, shows⟩ := streamGetw_of_word shows counted
  obtain ⟨s₅, authorityRRS, shows⟩ := streamGetw_of_word shows (by decide)
  obtain ⟨s₆, additionalRRS, shows⟩ := streamGetw_of_word shows (by decide)
  obtain ⟨s₇, name, shows⟩ := dnsPktNameParse_text host shows
  obtain ⟨s₈, type, shows⟩ := streamGetw_of_word shows (by decide)
  obtain ⟨s₉, class', shows⟩ := streamGetw_of_word shows (by decide)
  have question : domainNameQuestionParse s₆ = .ok (some ⟨host.text, POP_DOMAIN_QUERY_TYPE_A,
      POP_DOMAIN_QUERY_CLASS_INTERNET_ADDR⟩, s₉) := by
    rw [domainNameQuestionParse, name]
    simp only [ok_bind, type, class', pure_ok]
  have answer := firstAnswerA_records others isA four shows nul
    (n := (pre ++ a :: post).length) (by simp)
  have response : ¬ 0x8180 &&& DOMAIN_HEADER_RESPONSE_FLAG = 0 := by decide
  have some_ : ¬ (pre ++ a :: post).length = 0 := by simp
  rw [domainNameIpv4Addr, if_neg readable]
  simp only [ok_bind, transactionID, flags, questions, answerRRS, authorityRRS, additionalRRS,
    question, if_neg response, if_neg some_, answer, pure_ok, ne_eq, not_true_eq_false, or_self,
    if_false]

/-- What a query asked for is what the parser finds in the answer to it. The bound on
the message is that of the `int` in `STREAM_READABLE`. -/
theorem query_round_trip (host : HostName) (id : Nat) (idFits : id < 2 ^ 16)
    (pre post : List Record) (a : Record) (others : ∀ r ∈ pre, r.type ≠ POP_DOMAIN_QUERY_TYPE_A)
    (isA : a.type = POP_DOMAIN_QUERY_TYPE_A) (four : a.rdata.length = 4)
    (counted : (pre ++ a :: post).length < 2 ^ 16) :
    ∃ packet, getHostByNameUnblock id (some host.text) true =
        .ok (0, (id + 1) % 2 ^ 16, some packet) ∧
      ∀ (s : Stream) (now : Nat), s.getp = 0 → s.endp < 2 ^ 32 →
        s.unread = answered packet (pre ++ a :: post) →
        ∃ r, domainNameIpv4Addr s now = .ok (some r) ∧ r.transactionID = id ∧
          r.hostName = host.text ∧ r.address = bigEndian a.rdata ∧ r.timeLive = a.timeLive := by
  have sent : getHostByNameUnblock id (some host.text) true =
      .ok (0, (id + 1) % 2 ^ 16, some (queryPacket host id)) := by
    simp only [getHostByNameUnblock, dnsQueryPacket_text, ok_bind, if_true, pure_ok]
  refine ⟨queryPacket host id, sent, fun s now start small holds => ?_⟩
  have parsed := domainNameIpv4Addr_answered host idFits others isA four counted start small holds
    now
  exact ⟨_, parsed, rfl, rfl, rfl, rfl⟩

/-- `a.bc` -/
def shortHost : HostName where
  labels := [[97], [98, 99]]
  nonempty := by decide
  sized := by decide
  plain := by decide +kernel
  short := by decide

def canonicalName : Record :=
  ⟨5, 1, 60, [1, 120, 0], by decide, by decide, by decide, by decide⟩

def addressRecord : Record :=
  ⟨1, 1, 300, [192, 0, 2, 1], by decide, by decide, by decide, by decide⟩

theorem query_round_trip_sample :
    ∃ packet, getHostByNameUnblock 7 (some shortHost.text) true = .ok (0, 8, some packet) ∧
      ∀ (s : Stream) (now : Nat), s.getp = 0 → s.endp < 2 ^ 32 →
        s.unread = answered packet [canonicalName, addressRecord] →
        ∃ r, domainNameIpv4Addr s now = .ok (some r) ∧ r.transactionID = 7 ∧
          r.hostName = shortHost.text ∧ r.address = bigEndian [192, 0, 2, 1] ∧ r.timeLive = 300 :=
  query_round_trip shortHost 7 (by decide) [canonicalName] [] addressRecord (by decide) rfl rfl
    (by decide)

end Poplar.Domain
