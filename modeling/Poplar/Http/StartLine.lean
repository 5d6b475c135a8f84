import Poplar.Http.Targets

/-!
# The start line of a request

What stands before the first CRLF is taken apart at its first two blanks, or refused for
want of them.
-/
namespace Poplar.Http

/-- What stands before the first CRLF. -/
def lineOf (text : List UInt8) : Option (List UInt8) :=
  (strstr HTTP_HEADER_SUFFIX text).map text.take

/-- There is no CRLF, or fewer than two blanks before it. -/
def Wordless (text : List UInt8) : Prop := ∀ line ∈ lineOf text, line.count blank < 2

/-- Nothing is returned exactly for want of a line or of blanks in it; words that fit their
fields are returned as they stand in the line. -/
structure LineRight (text : List UInt8) (parsed : Except Fault (Option HttpRequestSline)) : Prop where
  null : parsed = .ok none ↔ Wordless text
  words : ∀ line ∈ lineOf text, 2 ≤ line.count blank → (front blank line).length < 32 →
    (behind blank (behind blank line)).length < 32 →
      ∃ sline, parsed = .ok (some sline) ∧ blank ∉ sline.method ∧ blank ∉ sline.uri ∧
        sline.method ++ blank :: (sline.uri ++ blank :: sline.httpV) = line

section Counts

variable {s : List UInt8}

theorem count_behind (member : blank ∈ s) : s.count blank = (behind blank s).count blank + 1 := by
  conv_lhs => rw [front_split member]
  rw [List.count_append, List.count_cons_self, List.count_eq_zero.mpr not_mem_front]
  omega

theorem two_le_count_iff : 2 ≤ s.count blank ↔ blank ∈ s ∧ blank ∈ behind blank s := by
  constructor
  · intro two
    have one : blank ∈ s := List.count_pos_iff.mp (by omega)
    have more := count_behind one
    exact ⟨one, List.count_pos_iff.mp (by omega)⟩
  · rintro ⟨one, two⟩
    have more := count_behind one
    have positive := List.count_pos_iff.mpr two
    omega

end Counts

/-- The line of a text, and what is parsed of the text, are those of the line alone. -/
theorem httpRequestStartLineParse_text {text : List UInt8} (nonzero : 0 ∉ text)
    (rest : List UInt8) :
    lineOf text = none ∧ httpRequestStartLineParse (text ++ 0 :: rest) = .ok none ∨
      ∃ line, lineOf text = some line ∧
        strstr HTTP_HEADER_SUFFIX (line ++ HTTP_HEADER_SUFFIX) = some line.length ∧
        httpRequestStartLineParse (text ++ 0 :: rest) = lineParse (line ++ HTTP_HEADER_SUFFIX) := by
  have string : cString (text ++ 0 :: rest) = text :=
    cString_append fun c member same => nonzero (same ▸ member)
  rw [httpRequestStartLineParse_eq, string, lineOf]
  cases found : strstr HTTP_HEADER_SUFFIX text with
  | none =>
      refine .inl ⟨rfl, ?_⟩
      rw [Option.elim_none, if_pos (by simp)]
  | some suffix =>
      obtain ⟨behind, split, inside⟩ := strstr_found found
      have two : HTTP_HEADER_SUFFIX.length = 2 := rfl
      have size : (text.take suffix).length = suffix := by
        rw [List.length_take]
        omega
      refine .inr ⟨text.take suffix, rfl, ?_, ?_⟩
      · refine strstr_cut (by decide) behind ?_
        rw [← split, size, found]
      · rw [Option.elim_some, List.take_append_of_le_length (by omega)]
        congr 1
        refine (congrArg (List.take _) split).trans (List.take_left' ?_)
        rw [List.length_append, size, two]

/-- The line is handled as it should be exactly if no method that is the only word before a
blank is too long for its field. -/
theorem line_right_iff {text : List UInt8} (nonzero : 0 ∉ text) (rest : List UInt8) :
    LineRight text (httpRequestStartLineParse (text ++ 0 :: rest)) ↔
      ∀ line ∈ lineOf text, line.count blank = 1 → (front blank line).length ≤ 32 := by
  rcases httpRequestStartLineParse_text nonzero rest with ⟨none_, parse⟩ | ⟨line, here, last, parse⟩
  · rw [parse]
    refine iff_of_true ⟨iff_of_true rfl ?_, ?_⟩ ?_
    · intro line is
      rw [none_] at is
      cases is
    · intro line is
      rw [none_] at is
      cases is
    · intro line is
      rw [none_] at is
      cases is
  have wordless : Wordless text ↔ ¬ (blank ∈ line ∧ blank ∈ behind blank line) := by
    rw [Wordless, here]
    simp only [Option.mem_def, Option.some.injEq, forall_eq']
    rw [← two_le_count_iff]
    exact Nat.not_le.symm
  rw [parse, lineParse_eq last]
  have narrow : HTTP_METHOD_LEN = 32 := rfl
  have short : HTTP_VERSION_LEN = 32 := rfl
  simp only [here, Option.mem_def, Option.some.injEq, forall_eq']
  by_cases one : blank ∈ line
  case neg =>
    have none_ : line.count blank = 0 := List.count_eq_zero.mpr one
    rw [if_neg one]
    refine iff_of_true ⟨iff_of_true rfl (wordless.mpr fun is => one is.1), ?_⟩ (by omega)
    intro line' is two
    cases here.symm.trans is
    omega
  have counted := count_behind one
  rw [if_pos one]
  by_cases two : blank ∈ behind blank line
  case neg =>
    have single : line.count blank = 1 := by
      rw [counted, List.count_eq_zero.mpr two]
    have refused : Wordless text := wordless.mpr fun is => two is.2
    rw [if_neg two]
    by_cases wide : (front blank line).length > HTTP_METHOD_LEN
    · rw [if_pos wide]
      refine iff_of_false (fun right => ?_) (by omega)
      cases right.null.mpr refused
    · rw [if_neg wide]
      refine iff_of_true ⟨iff_of_true rfl refused, ?_⟩ (by omega)
      intro line' is more
      cases here.symm.trans is
      omega
  have words : ¬ Wordless text := fun is => wordless.mp is ⟨one, two⟩
  have more := two_le_count_iff.mpr ⟨one, two⟩
  rw [if_pos two]
  refine iff_of_true ⟨iff_of_false ?_ words, ?_⟩ (by omega)
  · intro same
    split at same
    · cases same
    · split at same <;> cases same
  · intro line' is _ method version
    cases here.symm.trans is
    rw [if_neg (by omega), if_neg (by omega)]
    refine ⟨_, rfl, not_mem_front, not_mem_front, ?_⟩
    rw [← front_split two, ← front_split one]

theorem line_right_sample :
    LineRight (ascii "GET / HTTP/1.0\r\n")
      (httpRequestStartLineParse (ascii "GET / HTTP/1.0\r\n" ++ 0 :: [])) :=
  (line_right_iff (by decide) []).mpr (by decide)

/-- A line of 33 bytes and one blank more should be refused; its first word is copied over
the end of the field for the method. -/
theorem long_word_overruns :
    ¬ ∀ text rest : List UInt8, 0 ∉ text →
      LineRight text (httpRequestStartLineParse (text ++ 0 :: rest)) := by
  intro right
  have parse : httpRequestStartLineParse
      (List.replicate 33 71 ++ [32, 47, 13, 10] ++ 0 :: []) = .error .outOfObject := by
    decide +kernel
  have refused : Wordless (List.replicate 33 71 ++ [32, 47, 13, 10]) := by
    rw [Wordless]
    decide +kernel
  have null := (right (List.replicate 33 71 ++ [32, 47, 13, 10]) [] (by decide)).null.mpr refused
  rw [parse] at null
  cases null

end Poplar.Http
