import Poplar.Domain.RoundTrip
import Poplar.Domain.Shapes

/-!
# Names as fields of a packet

The walk of the format check comes to its end unless it reads a length of 0xff. The
encoder sends the wire form of a name exactly if the name has one. The parser takes a
field exactly if it is a row of labels, where its length is a positive `int`.
-/
namespace Poplar.Domain

/-! ## The walk of the check -/

theorem checkLoop_more {buffer : List UInt8} {len fuel ptr last : Nat}
    (ends : checkLoop buffer len fuel ptr = .ok last) (more : Nat) :
    checkLoop buffer len (fuel + more) ptr = .ok last := by
  induction fuel generalizing ptr with
  | zero =>
      by_cases past : len ≤ ptr
      · rw [checkLoop_done past] at ends ⊢
        exact ends
      · rw [checkLoop, if_pos (Nat.not_le.mp past)] at ends
        cases ends
  | succ fuel ih =>
      by_cases past : len ≤ ptr
      · rw [checkLoop_done past] at ends ⊢
        exact ends
      · rw [checkLoop_step (Nat.not_le.mp past)] at ends
        rw [Nat.succ_add, checkLoop_step (Nat.not_le.mp past)]
        exact ih ends

theorem checkLoop_of_check {buffer : List UInt8} {len : Nat} {valid : Bool}
    (checks : checkDnsNamePktFormat buffer len = .ok valid) :
    ∃ last, checkLoop buffer len len 0 = .ok last := by
  rw [checkDnsNamePktFormat, Int.toNat_natCast] at checks
  cases walk : checkLoop buffer len len 0 with
  | ok last => exact ⟨last, rfl⟩
  | error fault =>
      rw [walk, error_bind] at checks
      cases checks

theorem check_stuck {text : List UInt8} (looping : LoopingText text) (behind : List UInt8) :
    ¬ ∃ turns last, checkLoop (text ++ behind) text.length turns 0 = .ok last := by
  obtain ⟨labels, rest, short, rfl⟩ := looping
  rintro ⟨turns, last, ends⟩
  have longer := checkLoop_more ends labels.length
  have skip := checkLoop_skip short [] (255 :: rest ++ behind)
    (show [].length + (wire labels).length ≤ (wire labels ++ 255 :: rest).length by simp) turns
  simp only [List.nil_append, List.length_nil, Nat.zero_add, ← List.append_assoc] at skip
  rw [skip, checkLoop_stays] at longer
  cases longer

/-- The walk ends exactly if no byte 0xff stands behind a row of labels. -/
theorem check_ends_iff {text : List UInt8} (behind : List UInt8) (small : text.length < 2 ^ 31) :
    (∃ turns last, checkLoop (text ++ behind) text.length turns 0 = .ok last) ↔
      ¬ LoopingText text := by
  constructor
  · exact fun ends looping => check_stuck looping behind ends
  · intro moves
    refine ⟨text.length, ?_⟩
    rcases text_cases text with ⟨labels, short, rfl⟩ | refused | looping
    · exact checkLoop_of_check (checkDnsNamePktFormat_wire short behind)
    · exact checkLoop_of_check (checkDnsNamePktFormat_refused refused small behind)
    · exact absurd looping moves

theorem check_ends_sample :
    ∃ turns last, checkLoop ([1, 97] ++ [0]) [1, 97].length turns 0 = .ok last := by
  have short : ∀ label ∈ [[(97 : UInt8)]], label.length < 128 := by simp
  exact (check_ends_iff [0] (by simp)).mpr (not_looping_wire short)

/-- `a` and then a length of 0xff: the walk stands still at it. -/
theorem check_stands_still :
    ¬ ∀ text behind : List UInt8, (∀ c ∈ text, c ≠ 0) → text.length < 2 ^ 31 →
      (text.headD 0).toNat < 192 →
        ∃ turns last, checkLoop (text ++ 0 :: behind) text.length turns 0 = .ok last := by
  intro ends
  have looping : LoopingText [1, 97, 255] := ⟨[[97]], [], by simp, rfl⟩
  exact check_stuck looping [0] (ends [1, 97, 255] [] (by simp) (by simp) (by simp))

/-! ## Names that are sent -/

/-- `*out_len` -/
def outLen (domainName : List UInt8) : Int := intOf (domainName.length + 2)

/-- The bytes are the wire form of the name. -/
def Encodes (domainName bytes : List UInt8) : Prop :=
  ∃ labels, labels ≠ [] ∧ (∀ label ∈ labels, 1 ≤ label.length ∧ label.length ≤ 63 ∧ dot ∉ label) ∧
    domainName = [dot].intercalate labels ∧ bytes = wire labels ++ [0]

/-- Whatever query is sent for the name carries its wire form, of `out_len` bytes. -/
def SentWell (domainName : List UInt8) : Prop :=
  ∀ id ret next packet,
    getHostByNameUnblock id (some domainName) true = .ok (ret, next, some packet) →
      ∃ buffer, packet = (queryHeader id).bytes ++ buffer ++ word POP_DOMAIN_QUERY_TYPE_A ++
          word POP_DOMAIN_QUERY_CLASS_INTERNET_ADDR ∧
        outLen domainName = buffer.length ∧ Encodes domainName buffer

theorem transLoop_length (n ptr mptr count : Nat) (queryName : List UInt8) :
    (transLoop n ptr mptr count queryName).length = queryName.length := by
  induction n generalizing ptr mptr count queryName with
  | zero => rfl
  | succ n ih =>
      rw [transLoop]
      split
      · exact ih _ _ _ _
      · rw [ih, List.length_set]

theorem transDnsNameIntoPktFormat_length (domainName : List UInt8) :
    (transDnsNameIntoPktFormat domainName).length = domainName.length + 2 := by
  rw [transDnsNameIntoPktFormat, transLoop_length]
  simp

theorem intOf_eq_iff {n : Nat} : intOf n = n ↔ n < 2 ^ 31 := by
  constructor
  · intro same
    by_contra large
    rw [intOf] at same
    split at same <;> omega
  · exact intOf_small

/-- Nothing is refused: every name is sent, in the form the loop gives it. -/
theorem getHostByNameUnblock_sends (domainName : List UInt8) (id : Nat) :
    getHostByNameUnblock id (some domainName) true = .ok (0, (id + 1) % 2 ^ 16,
      some ((queryHeader id).bytes ++ transDnsNameIntoPktFormat domainName ++
        word POP_DOMAIN_QUERY_TYPE_A ++ word POP_DOMAIN_QUERY_CLASS_INTERNET_ADDR)) := by
  simp only [getHostByNameUnblock, dnsQueryPacket_eq, ok_bind, if_true, pure_ok]

theorem sentWell_iff_encodes (domainName : List UInt8) :
    SentWell domainName ↔ domainName.length + 2 < 2 ^ 31 ∧
      Encodes domainName (transDnsNameIntoPktFormat domainName) := by
  constructor
  · intro well
    obtain ⟨buffer, packet, length, encodes⟩ :=
      well 0 _ _ _ (getHostByNameUnblock_sends domainName 0)
    have same : transDnsNameIntoPktFormat domainName = buffer := by
      simpa only [List.append_assoc, List.append_cancel_left_eq, List.append_cancel_right_eq]
        using packet
    subst same
    rw [transDnsNameIntoPktFormat_length, outLen] at length
    exact ⟨intOf_eq_iff.mp length, encodes⟩
  · rintro ⟨small, encodes⟩ id ret next packet sent
    rw [getHostByNameUnblock_sends] at sent
    cases sent
    refine ⟨_, rfl, ?_, encodes⟩
    rw [transDnsNameIntoPktFormat_length, outLen]
    exact intOf_eq_iff.mpr small

theorem dot_not_mem_splitOn {text part : List UInt8} (member : part ∈ text.splitOn dot) :
    dot ∉ part := by
  induction text generalizing part with
  | nil =>
      rw [List.splitOn_nil, List.mem_singleton] at member
      rw [member]
      exact List.not_mem_nil
  | cons c text ih =>
      obtain ⟨first, others, parts⟩ := List.exists_cons_of_ne_nil (List.splitOn_ne_nil dot text)
      rw [List.splitOn_cons_eq_if_modifyHead, parts] at member
      rw [parts] at ih
      split at member
      · rcases List.mem_cons.mp member with empty | later
        · rw [empty]
          exact List.not_mem_nil
        · exact ih later
      · next other =>
        rcases List.mem_cons.mp member with here | later
        · rw [here, List.mem_cons]
          rintro (same | inside)
          · exact other (by simp [same])
          · exact ih (by simp) inside
        · exact ih (List.mem_cons_of_mem _ later)

theorem mem_intercalate_dot {labels : List (List UInt8)} {label : List UInt8} {c : UInt8}
    (member : label ∈ labels) (inside : c ∈ label) : c ∈ [dot].intercalate labels := by
  cases labels with
  | nil => cases member
  | cons first labels =>
      rw [intercalate_dot]
      rcases List.mem_cons.mp member with rfl | later
      · exact List.mem_append_left _ inside
      · exact List.mem_append_right _
          (List.mem_flatMap.mpr ⟨label, later, List.mem_cons_of_mem _ inside⟩)

/-- A name has a wire form exactly if its parts between dots have 1 to 63 bytes; then the
loop makes it. -/
theorem encodes_iff {domainName : List UInt8} (nonzero : ∀ c ∈ domainName, c ≠ 0) :
    Encodes domainName (transDnsNameIntoPktFormat domainName) ↔
      ∀ part ∈ domainName.splitOn dot, 1 ≤ part.length ∧ part.length ≤ 63 := by
  constructor
  · rintro ⟨labels, nonempty, sized, name, -⟩ part member
    rw [name, List.splitOn_intercalate dot (fun label inside => (sized label inside).2.2) nonempty]
      at member
    exact ⟨(sized part member).1, (sized part member).2.1⟩
  · intro sized
    have joined : [dot].intercalate (domainName.splitOn dot) = domainName :=
      List.intercalate_splitOn dot
    refine ⟨domainName.splitOn dot, List.splitOn_ne_nil _ _, ?_, joined.symm, ?_⟩
    · intro label member
      exact ⟨(sized label member).1, (sized label member).2, dot_not_mem_splitOn member⟩
    · have made := transDnsNameIntoPktFormat_labels (List.splitOn_ne_nil dot domainName) ?_
      · rwa [joined] at made
      · intro label member c inside
        refine ⟨fun same => dot_not_mem_splitOn member (same ▸ inside), nonzero c ?_⟩
        rw [← joined]
        exact mem_intercalate_dot member inside

/-- The query for a name is well formed exactly if the name is. -/
theorem sent_well_iff {domainName : List UInt8} (nonzero : ∀ c ∈ domainName, c ≠ 0) :
    SentWell domainName ↔ domainName.length + 2 < 2 ^ 31 ∧
      ∀ part ∈ domainName.splitOn dot, 1 ≤ part.length ∧ part.length ≤ 63 := by
  rw [sentWell_iff_encodes, encodes_iff nonzero]

theorem sent_well_sample : SentWell [97, 46, 98] :=
  (sent_well_iff (by simp)).mpr (by decide)

/-- `a..b` is sent with a zero length in the middle of its question. -/
theorem empty_label_sent : ¬ ∀ domainName : List UInt8, (∀ c ∈ domainName, c ≠ 0) →
    SentWell domainName := by
  intro well
  have encodes := ((sentWell_iff_encodes _).mp (well [97, 46, 46, 98] (by simp))).2
  have sized := (encodes_iff (by simp)).mp encodes
  exact absurd (sized [] (by decide)).1 (by simp)

/-! ## Fields that are parsed -/

/-- The text is a row of labels, of none for the root. -/
def Tiled (text : List UInt8) : Prop :=
  ∃ labels, (∀ label ∈ labels, label.length < 128) ∧ text = wire labels

/-- At `getp` stands a name that ends before `endp`, starts with no pointer and has no byte
from 0x80 on where the length of a label is read. -/
structure NameField (s : Stream) (text behind : List UInt8) : Prop where
  split : s.data.drop s.getp = text ++ 0 :: behind
  nonzero : ∀ c ∈ text, c ≠ 0
  inside : s.getp + text.length < s.endp
  two : s.getp + 2 ≤ s.endp
  plain : (text.headD 0).toNat < 192
  lengths : ∀ labels c rest, (∀ label ∈ labels, label.length < 128) →
    text = wire labels ++ c :: rest → c.toNat < 128

/-- A row of labels is put out with dots and passed over; any other text leaves the stream
as it is. -/
structure ParsedWell (s : Stream) (text : List UInt8) : Prop where
  row : ∀ labels, (∀ label ∈ labels, label.length < 128) → text = wire labels →
    ∃ s', dnsPktNameParse s = .ok (.real ([dot].intercalate labels), s') ∧
      s'.data = s.data ∧ s'.endp = s.endp ∧ s'.getp = s.getp + text.length + 1
  other : ¬ Tiled text → dnsPktNameParse s = .ok (.illegal, s)

/-- The text is not empty, and its length is an `int` or what is left of it as one refuses
the text rightly. -/
def LengthHolds (text : List UInt8) : Prop :=
  text ≠ [] ∧ (2 ^ 31 ≤ text.length → ¬ Tiled text ∧
    (text.length % 2 ^ 32 < 2 ^ 31 → ¬ Tiled (text.take (text.length % 2 ^ 32))))

section Field

variable {s : Stream} {text behind : List UInt8} (field : NameField s text behind)

include field

theorem NameField.head : s.byte s.getp < 192 := by
  have first : s.byte s.getp = (text.headD 0).toNat := by
    have found : (s.data.drop s.getp)[0]? = some (text.headD 0) := by
      rw [field.split]
      cases text <;> rfl
    rw [List.getElem?_drop, Nat.add_zero] at found
    simp [Stream.byte, List.getD, found]
  rw [first]
  exact field.plain

omit field in
/-- The check of the first `k` bytes. -/
theorem check_true_of_tiled (text behind : List UInt8) {k : Nat} (tiled : Tiled (text.take k)) :
    checkDnsNamePktFormat (text ++ 0 :: behind) (text.take k).length = .ok true := by
  obtain ⟨labels, short, row⟩ := tiled
  have check := checkDnsNamePktFormat_wire short (text.drop k ++ 0 :: behind)
  rwa [← row, ← List.append_assoc, List.take_append_drop] at check

theorem NameField.check_false {k : Nat} (small : (text.take k).length < 2 ^ 31)
    (untiled : ¬ Tiled (text.take k)) :
    checkDnsNamePktFormat (text ++ 0 :: behind) (text.take k).length = .ok false := by
  rcases text_cases (text.take k) with ⟨labels, short, row⟩ | refused | ⟨labels, rest, short, row⟩
  · exact absurd ⟨labels, short, row⟩ untiled
  · have check := checkDnsNamePktFormat_refused refused small (text.drop k ++ 0 :: behind)
    rwa [← List.append_assoc, List.take_append_drop] at check
  · have whole : text = wire labels ++ 255 :: (rest ++ text.drop k) := by
      rw [← List.cons_append, ← List.append_assoc, ← row, List.take_append_drop]
    exact absurd (field.lengths labels 255 _ short whole) (by decide)

theorem NameField.illegal
    (check : checkDnsNamePktFormat (text ++ 0 :: behind) (intOf text.length) = .ok false) :
    dnsPktNameParse s = .ok (.illegal, s) := by
  rw [dnsPktNameParse_real field.two field.head field.nonzero field.split, check]
  rfl

/-- Where fewer bytes are copied than follow the first length, no NUL is among them. -/
theorem NameField.overrun {k : Nat} (short : k ≤ text.length - 1) (kept : intOf text.length = k)
    (check : checkDnsNamePktFormat (text ++ 0 :: behind) (intOf text.length) = .ok true) :
    dnsPktNameParse s = .error .outOfObject := by
  have copied : ((text ++ 0 :: behind).drop 1).take k = (text.drop 1).take k := by
    cases text with
    | nil =>
        rw [Nat.le_zero.mp short]
        rfl
    | cons c text => exact List.take_append_of_le_length short
  have outside : strlen ((text.drop 1).take k) 0 = .error .outOfObject := by
    have none : ((text.drop 1).take k).findIdx? (· == 0) = none := by
      refine List.findIdx?_eq_none_iff.mpr fun c member => ?_
      simpa using field.nonzero c (List.mem_of_mem_drop (List.mem_of_mem_take member))
    rw [strlen, List.drop_zero, none]
  rw [dnsPktNameParse_real field.two field.head field.nonzero field.split, check]
  simp only [ok_bind, if_true, kept, Int.toNat_natCast, copied, outside, error_bind]

/-- A text of one or more labels whose length is an `int`. -/
theorem NameField.taken (some_ : text ≠ []) (small : text.length < 2 ^ 31)
    {labels : List (List UInt8)} (short : ∀ label ∈ labels, label.length < 128)
    (row : text = wire labels) :
    ∃ s', dnsPktNameParse s = .ok (.real ([dot].intercalate labels), s') ∧
      s'.data = s.data ∧ s'.endp = s.endp ∧ s'.getp = s.getp + text.length + 1 := by
  subst row
  have sized := sized_of_nonzero field.nonzero short
  have room : s.getp + ((wire labels).length + 1) ≤ s.endp := field.inside
  cases labels with
  | nil => exact absurd rfl some_
  | cons label labels =>
      have parse := dnsPktNameParse_row field.two field.head sized field.nonzero small field.split
      rw [streamForwardGetp, dif_pos room, ← intercalate_dot] at parse
      exact ⟨_, parse, rfl, rfl, rfl⟩

omit field in
theorem parsedWell_of_illegal (parse : dnsPktNameParse s = .ok (.illegal, s)) :
    ParsedWell s text ↔ ¬ Tiled text := by
  constructor
  · rintro well ⟨labels, short, row⟩
    obtain ⟨s', real, -⟩ := well.row labels short row
    rw [parse] at real
    cases real
  · intro untiled
    exact ⟨fun labels short row => absurd ⟨labels, short, row⟩ untiled, fun _ => parse⟩

omit field in
theorem not_parsedWell_of_error {fault : Fault} (parse : dnsPktNameParse s = .error fault) :
    ¬ ParsedWell s text := by
  intro well
  by_cases tiled : Tiled text
  · obtain ⟨labels, short, row⟩ := tiled
    obtain ⟨s', real, -⟩ := well.row labels short row
    rw [parse] at real
    cases real
  · have illegal := well.other tiled
    rw [parse] at illegal
    cases illegal

end Field

/-- In a row of labels every length read is that of a label. -/
theorem length_small {c : UInt8} {rest : List UInt8} (row : List (List UInt8))
    {labels : List (List UInt8)}
    (rowShort : ∀ label ∈ row, label.length < 128) (short : ∀ label ∈ labels, label.length < 128)
    (same : wire row = wire labels ++ c :: rest) : c.toNat < 128 := by
  induction labels generalizing row with
  | nil =>
      cases row with
      | nil => cases same
      | cons first row =>
          have small := (List.forall_mem_cons.mp rowShort).1
          rw [wire_cons, wire_nil, List.nil_append, List.cons_append, List.cons.injEq] at same
          rw [← same.1, toNat_ofNat_length small]
          exact small
  | cons label labels ih =>
      obtain ⟨labelShort, others⟩ := List.forall_mem_cons.mp short
      cases row with
      | nil => cases same
      | cons first row =>
          obtain ⟨small, rowOthers⟩ := List.forall_mem_cons.mp rowShort
          rw [wire_cons, wire_cons, List.cons_append, List.cons_append, List.cons_append,
            List.cons.injEq, List.append_assoc] at same
          have length : first.length = label.length := by
            have bytes := congrArg UInt8.toNat same.1
            rwa [toNat_ofNat_length small, toNat_ofNat_length labelShort] at bytes
          exact ih _ rowOthers others (List.append_inj same.2 length).2

/-- The question `a` of a message, at its name. -/
def questionField : Stream := received [1, 97, 0, 0, 1, 0, 1]

theorem questionField_is : NameField questionField [1, 97] (questionField.data.drop 3) where
  split := rfl
  nonzero := by simp
  inside := by decide
  two := by decide
  plain := by decide
  lengths _ _ _ short row :=
    length_small [[97]] (by simp) short row

/-- The question for the root. -/
def rootField : Stream := received [0, 0, 1, 0, 1]

theorem rootField_is : NameField rootField [] (rootField.data.drop 1) where
  split := rfl
  nonzero := by simp
  inside := by decide
  two := by decide
  plain := by decide
  lengths _ _ _ short row := length_small [] (by simp) short row

end Poplar.Domain
