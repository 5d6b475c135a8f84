import Poplar.Domain.Reads

/-!
# Names in a packet

A name the parser takes is a row of labels behind their lengths. The format check
accepts exactly such rows, and decoding one puts dots where the lengths stood.
-/
namespace Poplar.Domain

/-- Each label behind its length; the NUL at the end is not part of it. -/
def wire (labels : List (List UInt8)) : List UInt8 :=
  labels.flatMap fun label => UInt8.ofNat label.length :: label

@[simp] theorem wire_nil : wire [] = [] := rfl

@[simp] theorem wire_cons (label : List UInt8) (labels : List (List UInt8)) :
    wire (label :: labels) = UInt8.ofNat label.length :: label ++ wire labels := by
  simp [wire]

/-- Each further label behind a dot. -/
def dotted (labels : List (List UInt8)) : List UInt8 := labels.flatMap (dot :: ·)

@[simp] theorem dotted_nil : dotted [] = [] := rfl

@[simp] theorem dotted_cons (label : List UInt8) (labels : List (List UInt8)) :
    dotted (label :: labels) = dot :: label ++ dotted labels := by
  simp [dotted]

theorem length_dotted (labels : List (List UInt8)) :
    (dotted labels).length = (wire labels).length := by
  induction labels with
  | nil => rfl
  | cons label labels ih => simp [ih]

theorem length_le_wire (labels : List (List UInt8)) : labels.length ≤ (wire labels).length := by
  induction labels with
  | nil => exact Nat.le_refl 0
  | cons label labels ih =>
      simp only [wire_cons, List.length_append, List.length_cons]
      omega

theorem toNat_ofNat_length {label : List UInt8} (short : label.length < 128) :
    (UInt8.ofNat label.length).toNat = label.length := by
  rw [UInt8.toNat_ofNat']
  exact Nat.mod_eq_of_lt (by omega)

theorem checkLoop_done {buffer : List UInt8} {len fuel ptr : Nat} (past : len ≤ ptr) :
    checkLoop buffer len fuel ptr = .ok ptr := by
  unfold checkLoop
  exact if_neg (by omega)

theorem checkLoop_step {buffer : List UInt8} {len fuel ptr : Nat} (within : ptr < len) :
    checkLoop buffer len (fuel + 1) ptr =
      checkLoop buffer len fuel (ptr + labelStep (buffer.getD ptr 0)) := by
  rw [checkLoop, if_pos within]

/-- The turns over a row of labels, wherever the text ends behind it. -/
theorem checkLoop_skip {labels : List (List UInt8)} (short : ∀ label ∈ labels, label.length < 128)
    (before after : List UInt8) {len : Nat} (inside : before.length + (wire labels).length ≤ len)
    (fuel : Nat) :
    checkLoop (before ++ wire labels ++ after) len (fuel + labels.length) before.length =
      checkLoop (before ++ wire labels ++ after) len fuel
        (before.length + (wire labels).length) := by
  induction labels generalizing before with
  | nil => rfl
  | cons label labels ih =>
      obtain ⟨small, rest⟩ := List.forall_mem_cons.mp short
      simp only [wire_cons, List.length_append, List.length_cons] at inside ⊢
      have step : labelStep (UInt8.ofNat label.length) = label.length + 1 := by
        rw [labelStep, toNat_ofNat_length small, if_pos small]
      have found : (before ++ (UInt8.ofNat label.length :: label ++ wire labels) ++ after).getD
          before.length 0 = UInt8.ofNat label.length := by
        simp [List.getD]
      have next := ih rest (before ++ UInt8.ofNat label.length :: label) (by simp; omega)
      rw [← Nat.add_assoc, checkLoop_step (by omega), found, step]
      simp only [List.length_append, List.length_cons, List.append_assoc, List.cons_append,
        Nat.add_assoc] at next ⊢
      exact next

theorem checkLoop_wire {labels : List (List UInt8)} (short : ∀ label ∈ labels, label.length < 128)
    (before after : List UInt8) {fuel : Nat} (enough : (wire labels).length ≤ fuel) :
    checkLoop (before ++ wire labels ++ after) (before.length + (wire labels).length) fuel
      before.length = .ok (before.length + (wire labels).length) := by
  have turns := length_le_wire labels
  obtain ⟨more, rfl⟩ : ∃ k, fuel = k + labels.length := ⟨fuel - labels.length, by omega⟩
  rw [checkLoop_skip short before after (Nat.le_refl _), checkLoop_done (Nat.le_refl _)]

/-- Behind some labels stands a length that leads past the end of the text. -/
def RefusedText (text : List UInt8) : Prop :=
  ∃ labels c rest, (∀ label ∈ labels, label.length < 128) ∧ text = wire labels ++ c :: rest ∧
    c ≠ 255 ∧ (c.toNat < 128 → rest.length < c.toNat)

/-- Behind some labels stands the byte 0xff, at which the check does not move on. -/
def LoopingText (text : List UInt8) : Prop :=
  ∃ labels rest, (∀ label ∈ labels, label.length < 128) ∧ text = wire labels ++ 255 :: rest

theorem RefusedText.cons {label text : List UInt8} (short : label.length < 128)
    (refused : RefusedText text) : RefusedText (UInt8.ofNat label.length :: label ++ text) := by
  obtain ⟨labels, c, rest, others, rfl, visible, past⟩ := refused
  exact ⟨label :: labels, c, rest, List.forall_mem_cons.mpr ⟨short, others⟩, by simp, visible, past⟩

theorem LoopingText.cons {label text : List UInt8} (short : label.length < 128)
    (looping : LoopingText text) : LoopingText (UInt8.ofNat label.length :: label ++ text) := by
  obtain ⟨labels, rest, others, rfl⟩ := looping
  exact ⟨label :: labels, rest, List.forall_mem_cons.mpr ⟨short, others⟩, by simp⟩

/-- A text is a row of labels, or it goes wrong at the length behind some labels. -/
theorem text_cases (text : List UInt8) :
    (∃ labels, (∀ label ∈ labels, label.length < 128) ∧ text = wire labels) ∨
      RefusedText text ∨ LoopingText text := by
  induction size : text.length using Nat.strong_induction_on generalizing text with
  | h n ih =>
      cases text with
      | nil => exact .inl ⟨[], by simp, rfl⟩
      | cons c rest =>
          by_cases ff : c = 255
          · exact .inr (.inr ⟨[], rest, by simp, by simp [ff]⟩)
          by_cases inside : c.toNat < 128 ∧ c.toNat ≤ rest.length
          · -- one label is cut off, and the rest is shorter
            have long : (rest.take c.toNat).length = c.toNat := by
              rw [List.length_take]
              omega
            have shape : c :: rest =
                UInt8.ofNat (rest.take c.toNat).length :: rest.take c.toNat ++
                  rest.drop c.toNat := by
              rw [long, List.cons_append, List.take_append_drop]
              simp
            have short : (rest.take c.toNat).length < 128 := by
              rw [long]
              exact inside.1
            rw [List.length_cons] at size
            rw [shape]
            rcases ih _ (by rw [← size, List.length_drop]; omega) (rest.drop c.toNat) rfl with
              ⟨labels, others, row⟩ | refused | looping
            · refine .inl ⟨rest.take c.toNat :: labels, ?_, ?_⟩
              · exact List.forall_mem_cons.mpr ⟨short, others⟩
              · rw [row, wire_cons]
            · exact .inr (.inl (refused.cons short))
            · exact .inr (.inr (looping.cons short))
          · refine .inr (.inl ⟨[], c, rest, by simp, by simp, ff, fun small => ?_⟩)
            omega

theorem checkDnsNamePktFormat_wire {labels : List (List UInt8)}
    (short : ∀ label ∈ labels, label.length < 128) (behind : List UInt8) :
    checkDnsNamePktFormat (wire labels ++ behind) (wire labels).length = .ok true := by
  have walk := checkLoop_wire short [] behind (Nat.le_refl (wire labels).length)
  simp only [List.nil_append, List.length_nil, Nat.zero_add] at walk
  rw [checkDnsNamePktFormat, Int.toNat_natCast, walk]
  simp [pure_ok]

/-- The walk up to the length at which the text goes wrong. -/
theorem checkLoop_text {labels : List (List UInt8)} (short : ∀ label ∈ labels, label.length < 128)
    (c : UInt8) (rest behind : List UInt8) :
    ∃ fuel, 0 < fuel ∧
      checkLoop (wire labels ++ c :: rest ++ behind) (wire labels ++ c :: rest).length
          (wire labels ++ c :: rest).length 0 =
        checkLoop (wire labels ++ c :: rest ++ behind) (wire labels ++ c :: rest).length
          fuel (wire labels).length := by
  have turns := length_le_wire labels
  have inside : ([] : List UInt8).length + (wire labels).length ≤
      (wire labels ++ c :: rest).length := by simp
  have skip := checkLoop_skip short [] (c :: rest ++ behind) inside
    ((wire labels ++ c :: rest).length - labels.length)
  refine ⟨(wire labels ++ c :: rest).length - labels.length, ?_, ?_⟩
  · rw [List.length_append, List.length_cons]
    omega
  · rw [Nat.sub_add_cancel (by rw [List.length_append]; omega)] at skip
    simpa using skip

theorem checkDnsNamePktFormat_refused {text : List UInt8} (refused : RefusedText text)
    (small : text.length < 2 ^ 31) (behind : List UInt8) :
    checkDnsNamePktFormat (text ++ behind) text.length = .ok false := by
  obtain ⟨labels, c, rest, short, rfl, visible, past⟩ := refused
  obtain ⟨fuel, some_, walk⟩ := checkLoop_text short c rest behind
  obtain ⟨fuel, rfl⟩ : ∃ k, fuel = k + 1 := ⟨fuel - 1, by omega⟩
  have here : (wire labels ++ c :: rest ++ behind).getD (wire labels).length 0 = c := by
    simp [List.getD]
  have bound : c.toNat < 255 := by
    have := c.toNat_lt
    have : c.toNat ≠ 255 := fun same => visible (UInt8.toNat_inj.mp same)
    omega
  have jump : (wire labels ++ c :: rest).length < (wire labels).length + labelStep c := by
    rw [List.length_append, List.length_cons] at small ⊢
    rw [labelStep]
    split
    · have := past ‹_›
      omega
    · omega
  rw [checkDnsNamePktFormat, Int.toNat_natCast, walk, checkLoop_step (by simp), here,
    checkLoop_done (by omega), ok_bind, pure_ok]
  congr 1
  rw [beq_eq_false_iff_ne]
  omega

/-- At the byte 0xff the walk stands still. -/
theorem checkLoop_stays (labels : List (List UInt8)) (rest behind : List UInt8) (fuel : Nat) :
    checkLoop (wire labels ++ 255 :: rest ++ behind) (wire labels ++ 255 :: rest).length fuel
      (wire labels).length = .error .diverge := by
  have here : (wire labels ++ 255 :: rest ++ behind).getD (wire labels).length 0 = 255 := by
    simp [List.getD]
  have within : (wire labels).length < (wire labels ++ 255 :: rest).length := by simp
  induction fuel with
  | zero => rw [checkLoop, if_pos within]
  | succ fuel ih =>
      rw [checkLoop_step within, here]
      simpa [labelStep] using ih

theorem checkDnsNamePktFormat_looping {text : List UInt8} (looping : LoopingText text)
    (behind : List UInt8) :
    checkDnsNamePktFormat (text ++ behind) text.length = .error .diverge := by
  obtain ⟨labels, rest, short, rfl⟩ := looping
  obtain ⟨fuel, -, walk⟩ := checkLoop_text short 255 rest behind
  rw [checkDnsNamePktFormat, Int.toNat_natCast, walk, checkLoop_stays, error_bind]

theorem signedChar_ofNat_length {label : List UInt8} (short : label.length < 128) :
    signedChar (UInt8.ofNat label.length) = label.length := by
  rw [signedChar, toNat_ofNat_length short, if_pos short]

/-- One turn, from the start of a label to the byte behind it. -/
theorem decodeLoop_step {len fuel : Nat} {before label after : List UInt8} {c : UInt8}
    (more : before.length < len) :
    decodeLoop len (fuel + 1) before.length label.length (before ++ label ++ c :: after) =
      if c ≠ 0 then
        decodeLoop len fuel (before ++ label ++ [dot]).length (signedChar c)
          (before ++ label ++ dot :: after)
      else .ok (before ++ label ++ c :: after) := by
  have place : ((before.length : Int) + label.length).toNat = (before ++ label).length := by
    simp only [List.length_append]
    omega
  have inside : 0 ≤ (before.length : Int) + label.length ∧
      (before.length : Int) + label.length < (before ++ label ++ c :: after).length := by
    simp only [List.length_append, List.length_cons]
    omega
  have read : (before ++ label ++ c :: after).getD (before ++ label).length 0 = c := by
    simp [List.getD]
  have written : (before ++ label ++ c :: after).set (before ++ label).length dot =
      before ++ label ++ dot :: after := by
    rw [List.set_append_right _ _ (Nat.le_refl _), Nat.sub_self, List.set_cons_zero]
  rw [decodeLoop, if_pos (by omega)]
  simp only [if_pos inside, place, read, written]
  rw [List.length_append, List.length_append, List.length_singleton]
  push_cast
  rfl

theorem decodeLoop_wire {label : List UInt8} {labels : List (List UInt8)}
    (sized : ∀ label ∈ labels, label ≠ [] ∧ label.length < 128) (before : List UInt8)
    (nonempty : label ≠ []) {fuel : Nat} (enough : labels.length < fuel) :
    decodeLoop (before ++ label ++ wire labels).length fuel before.length label.length
      (before ++ label ++ wire labels ++ [0]) = .ok (before ++ label ++ dotted labels ++ [0]) := by
  have positive : 0 < label.length := List.length_pos_iff.mpr nonempty
  obtain ⟨fuel, rfl⟩ : ∃ k, fuel = k + 1 := ⟨fuel - 1, by omega⟩
  induction labels generalizing before label fuel with
  | nil =>
      rw [wire_nil, dotted_nil, List.append_nil, decodeLoop_step (by simp; omega)]
      exact if_neg (fun differs => differs rfl)
  | cons next labels ih =>
      obtain ⟨⟨nextNonempty, small⟩, rest⟩ := List.forall_mem_cons.mp sized
      have nextPositive : 0 < next.length := List.length_pos_iff.mpr nextNonempty
      have visible : UInt8.ofNat next.length ≠ 0 := by
        intro zero
        have := toNat_ofNat_length small
        rw [zero] at this
        exact absurd this.symm (by simpa using nextNonempty)
      obtain ⟨fuel, rfl⟩ : ∃ k, fuel = k + 1 := ⟨fuel - 1, by simp at enough; omega⟩
      have later := ih rest (before ++ label ++ [dot]) nextNonempty nextPositive fuel
        (by simp at enough; omega)
      have shape : before ++ label ++ wire (next :: labels) ++ [0] =
          before ++ label ++ UInt8.ofNat next.length :: (next ++ wire labels ++ [0]) := by
        simp
      have sameLength : (before ++ label ++ wire (next :: labels)).length =
          (before ++ label ++ [dot] ++ next ++ wire labels).length := by
        simp only [wire_cons, List.length_append, List.length_cons, List.length_nil]
        omega
      rw [shape, decodeLoop_step (by simp only [List.length_append, wire_cons, List.length_cons]; omega),
        if_pos visible, signedChar_ofNat_length small,
        sameLength]
      simpa using later

theorem offsetFlag_iff {a b : UInt8} :
    (a.toNat * 2 ^ 8 + b.toNat) &&& DOMAIN_NAME_OFFSET_FLAG = DOMAIN_NAME_OFFSET_FLAG ↔
      192 ≤ a.toNat := by
  have boundA := a.toNat_lt
  have boundB := b.toNat_lt
  have top : ∀ x : Nat, x &&& DOMAIN_NAME_OFFSET_FLAG = (x >>> 14 &&& 3) <<< 14 := by
    intro x
    refine Nat.eq_of_testBit_eq fun i => ?_
    have flag : DOMAIN_NAME_OFFSET_FLAG = 3 <<< 14 := rfl
    rw [flag, Nat.testBit_and, Nat.testBit_shiftLeft, Nat.testBit_shiftLeft, Nat.testBit_and,
      Nat.testBit_shiftRight]
    by_cases high : 14 ≤ i
    · simp [high, Nat.add_sub_cancel' high]
    · simp [high]
  have two : ∀ y : Nat, y &&& 3 = y % 4 := fun y => Nat.and_two_pow_sub_one_eq_mod y 2
  rw [top, two, Nat.shiftRight_eq_div_pow, Nat.shiftLeft_eq, DOMAIN_NAME_OFFSET_FLAG]
  omega

variable {s t : Stream} {rest : List UInt8} {a b : UInt8}

theorem dnsPktNameParse_short {left : List UInt8} (shows : s.Shows t left)
    (short : left.length < 2) : dnsPktNameParse s = .error .assertFail := by
  rw [dnsPktNameParse, streamGetwFrom_short shows short]
  rfl

theorem dnsPktNameParse_offset (shows : s.Shows t (a :: b :: rest)) (flag : 192 ≤ a.toNat)
    (nul : 0 ∈ t.data.drop (a.toNat * 2 ^ 8 + b.toNat - DOMAIN_NAME_OFFSET_FLAG)) :
    ∃ s', dnsPktNameParse s = .ok (.offset, s') ∧ s'.Shows t rest := by
  obtain ⟨text, behind, nonzero, split⟩ := exists_text nul
  obtain ⟨s', forward, after⟩ := streamForwardGetp_within shows (n := 2) (by simp)
  refine ⟨s', ?_, after⟩
  rw [dnsPktNameParse, streamGetwFrom_word shows]
  simp only [ok_bind, if_pos (offsetFlag_iff.mpr flag), shows.data, strlen_append nonzero split,
    forward, pure_ok]

theorem intOf_small {n : Nat} (small : n < 2 ^ 31) : intOf n = n := by
  rw [intOf, Nat.mod_eq_of_lt (by omega), if_pos small]

/-- What is left to do for a name that is no offset, whatever its length. -/
theorem dnsPktNameParse_real (two : s.getp + 2 ≤ s.endp) (plain : s.byte s.getp < 192)
    {text behind : List UInt8} (nonzero : ∀ c ∈ text, c ≠ 0)
    (split : s.data.drop s.getp = text ++ 0 :: behind) :
    dnsPktNameParse s = (do
      if ← checkDnsNamePktFormat (text ++ 0 :: behind) (intOf text.length) then
        let queryName := ((text ++ 0 :: behind).drop 1).take (intOf text.length).toNat
        let inner ← strlen queryName 0
        let queryName ← decodeLoop inner (inner + 1) 0 (signedChar (text.headD 0)) queryName
        let s ← streamForwardGetp s (intOf text.length + 1).toNat
        return (.real (cString queryName), s)
      else return (.illegal, s)) := by
  have here : strlen (text ++ 0 :: behind) 0 = .ok text.length := strlen_append nonzero rfl
  have first : (text ++ 0 :: behind).getD 0 0 = text.headD 0 := by cases text <;> rfl
  have noOffset := mt (offsetFlag_iff (a := s.data.getD s.getp 0)
    (b := s.data.getD (s.getp + 1) 0)).mp (Nat.not_le.mpr plain)
  rw [dnsPktNameParse, streamGetwFrom, if_pos two]
  simp only [ok_bind, Stream.byte, if_neg noOffset, split, here, first]

/-- What is left to do for a name that is no offset and whose length is an `int`. -/
theorem dnsPktNameParse_fits (two : s.getp + 2 ≤ s.endp) (plain : s.byte s.getp < 192)
    {text behind : List UInt8} (nonzero : ∀ c ∈ text, c ≠ 0) (small : text.length < 2 ^ 31)
    (split : s.data.drop s.getp = text ++ 0 :: behind) :
    dnsPktNameParse s = (do
      if ← checkDnsNamePktFormat (text ++ 0 :: behind) text.length then
        let queryName := (text ++ [0]).drop 1
        let inner ← strlen queryName 0
        let queryName ← decodeLoop inner (inner + 1) 0 (signedChar (text.headD 0)) queryName
        let s ← streamForwardGetp s (text.length + 1)
        return (.real (cString queryName), s)
      else return (.illegal, s)) := by
  have name : ((text ++ 0 :: behind).drop 1).take text.length = (text ++ [0]).drop 1 := by
    cases text with
    | nil => rfl
    | cons c text => simp [List.take_append, List.take_of_length_le]
  have forward : ((text.length : Int) + 1).toNat = text.length + 1 := by omega
  rw [dnsPktNameParse_real two plain nonzero split]
  simp only [intOf_small small, Int.toNat_natCast, forward, name]

theorem dnsPktNameParse_plain (shows : s.Shows t (a :: b :: rest)) (plain : a.toNat < 192)
    {text behind : List UInt8} (nonzero : ∀ c ∈ text, c ≠ 0) (small : text.length < 2 ^ 31)
    (split : t.data.drop s.getp = text ++ 0 :: behind) :
    dnsPktNameParse s = (do
      if ← checkDnsNamePktFormat (text ++ 0 :: behind) text.length then
        let queryName := (text ++ [0]).drop 1
        let inner ← strlen queryName 0
        let queryName ← decodeLoop inner (inner + 1) 0 (signedChar (text.headD 0)) queryName
        let s ← streamForwardGetp s (text.length + 1)
        return (.real (cString queryName), s)
      else return (.illegal, s)) :=
  dnsPktNameParse_fits (shows.two) (shows.head ▸ plain) nonzero small
    (by rw [shows.data, split])

theorem nonzero_dotted {labels : List (List UInt8)} (nonzero : ∀ c ∈ wire labels, c ≠ 0) :
    ∀ c ∈ dotted labels, c ≠ 0 := by
  intro c member
  obtain ⟨label, inside, here⟩ := List.mem_flatMap.mp member
  rcases List.mem_cons.mp here with rfl | plain
  · decide
  · exact nonzero c (List.mem_flatMap.mpr ⟨label, inside, List.mem_cons_of_mem _ plain⟩)

/-- A row of labels is taken, and put out with dots, if it ends before the packet does. -/
theorem dnsPktNameParse_row (two : s.getp + 2 ≤ s.endp) (plain : s.byte s.getp < 192)
    {label : List UInt8} {labels : List (List UInt8)} {behind : List UInt8}
    (sized : ∀ l ∈ label :: labels, l ≠ [] ∧ l.length < 128)
    (nonzero : ∀ c ∈ wire (label :: labels), c ≠ 0)
    (short : (wire (label :: labels)).length < 2 ^ 31)
    (split : s.data.drop s.getp = wire (label :: labels) ++ 0 :: behind) :
    dnsPktNameParse s =
      (streamForwardGetp s ((wire (label :: labels)).length + 1)).map
        fun s => (.real (label ++ dotted labels), s) := by
  have check : checkDnsNamePktFormat (wire (label :: labels) ++ 0 :: behind)
      (wire (label :: labels)).length = .ok true :=
    checkDnsNamePktFormat_wire (fun l member => (sized l member).2) (0 :: behind)
  obtain ⟨⟨nonempty, small⟩, others⟩ := List.forall_mem_cons.mp sized
  have tail : (wire (label :: labels) ++ [0]).drop 1 = label ++ wire labels ++ [0] := by simp
  have plainTail : ∀ c ∈ label ++ wire labels, c ≠ 0 := fun c member =>
    nonzero c (by rw [wire_cons]; exact List.mem_cons_of_mem _ member)
  have inner : strlen (label ++ wire labels ++ [0]) 0 = .ok (label ++ wire labels).length :=
    strlen_append plainTail rfl
  have decode := decodeLoop_wire others [] nonempty
    (show labels.length < (label ++ wire labels).length + 1 by
      have := length_le_wire labels
      simp only [List.length_append]
      omega)
  have out : cString (label ++ dotted labels ++ [0]) = label ++ dotted labels := by
    refine cString_append fun c member => ?_
    rcases List.mem_append.mp member with inLabel | inDotted
    · exact plainTail c (List.mem_append_left _ inLabel)
    · exact nonzero_dotted (fun d inside => plainTail d (List.mem_append_right _ inside)) c inDotted
  rw [dnsPktNameParse_fits two plain nonzero short split, check]
  simp only [ok_bind, if_true, tail, inner]
  simp only [List.nil_append, List.length_nil, Int.ofNat_zero] at decode
  rw [show signedChar ((wire (label :: labels)).headD 0) = label.length from
    signedChar_ofNat_length small, decode]
  simp only [ok_bind, out]
  cases streamForwardGetp s ((wire (label :: labels)).length + 1) <;> rfl

theorem dnsPktNameParse_wire (shows : s.Shows t (a :: b :: rest)) (plain : a.toNat < 192)
    {label : List UInt8} {labels : List (List UInt8)} {behind : List UInt8}
    (sized : ∀ l ∈ label :: labels, l ≠ [] ∧ l.length < 128)
    (nonzero : ∀ c ∈ wire (label :: labels), c ≠ 0)
    (short : (wire (label :: labels)).length < 2 ^ 31)
    (split : t.data.drop s.getp = wire (label :: labels) ++ 0 :: behind) :
    dnsPktNameParse s =
      (streamForwardGetp s ((wire (label :: labels)).length + 1)).map
        fun s => (.real (label ++ dotted labels), s) :=
  dnsPktNameParse_row (shows.two) (shows.head ▸ plain) sized nonzero short
    (by rw [shows.data, split])

end Poplar.Domain
