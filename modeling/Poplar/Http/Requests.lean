import Poplar.Http.Targets

/-!
# Complete requests

A request is a start line of three words, header lines, an empty
line and a body. Its start line is taken apart into the words it was written with.
-/
namespace Poplar.Http

/-- A complete request other than CONNECT, whose target is an absolute URI. -/
structure Request where
  method : List UInt8
  target : Target
  version : List UInt8
  fields : List (List UInt8)
  body : List UInt8
  methodPlain : ∀ c ∈ method, 32 < c
  targetPlain : ∀ c ∈ target.uri, 32 < c
  versionPlain : ∀ c ∈ version, 32 < c
  notConnect : method ≠ ascii "CONNECT"
  absolute : target.scheme.isSome = true

/-- The words of the start line, with blanks between them. -/
def Request.line (r : Request) : List UInt8 :=
  r.method ++ blank :: (r.target.uri ++ blank :: r.version)

/-- What follows the start line and its end. -/
def Request.rest (r : Request) : List UInt8 :=
  r.fields.flatMap (· ++ HTTP_HEADER_SUFFIX) ++ HTTP_HEADER_SUFFIX ++ r.body

def Request.bytes (r : Request) : List UInt8 := r.line ++ HTTP_HEADER_SUFFIX ++ r.rest

section Lines

variable {s : List UInt8}

/-- Where no CR stands before it, the end of a line is found at once. -/
theorem strstr_suffix (plain : 13 ∉ s) (rest : List UInt8) :
    strstr HTTP_HEADER_SUFFIX (s ++ HTTP_HEADER_SUFFIX ++ rest) = some s.length := by
  induction s with
  | nil => rfl
  | cons c s ih =>
      rw [List.mem_cons, not_or] at plain
      have other : ¬ HTTP_HEADER_SUFFIX.isPrefixOf (c :: (s ++ HTTP_HEADER_SUFFIX ++ rest)) := by
        simp [HTTP_HEADER_SUFFIX, List.isPrefixOf, plain.1]
      rw [List.cons_append, List.cons_append, strstr, if_neg other, ih plain.2]
      rfl

theorem not_mem_of_plain {d : UInt8} (plain : ∀ c ∈ s, 32 < c) (low : d ≤ 32) : d ∉ s := by
  intro member
  have high := plain d member
  rw [UInt8.lt_iff_toNat_lt] at high
  rw [UInt8.le_iff_toNat_le] at low
  omega

end Lines

section Requests

variable (r : Request)

/-- Blanks stand between the words only, and nothing lower in the line. -/
theorem not_mem_line {d : UInt8} (low : d ≤ 32) (other : d ≠ blank) : d ∉ r.line := by
  simp only [Request.line, List.mem_append, List.mem_cons, not_or]
  exact ⟨not_mem_of_plain r.methodPlain low, other, not_mem_of_plain r.targetPlain low, other,
    not_mem_of_plain r.versionPlain low⟩

theorem front_line : front blank r.line = r.method :=
  front_append (not_mem_of_plain r.methodPlain (by decide))

theorem behind_line : behind blank r.line = r.target.uri ++ blank :: r.version :=
  behind_append (not_mem_of_plain r.methodPlain (by decide))

theorem front_target : front blank (r.target.uri ++ blank :: r.version) = r.target.uri :=
  front_append (not_mem_of_plain r.targetPlain (by decide))

theorem behind_target : behind blank (r.target.uri ++ blank :: r.version) = r.version :=
  behind_append (not_mem_of_plain r.targetPlain (by decide))

/-- A start line that fits is taken apart into its words. -/
theorem lineParse_line {parsed : Option HttpRequestSline}
    (parses : lineParse (r.line ++ HTTP_HEADER_SUFFIX) = .ok parsed) :
    parsed = some ⟨r.method, r.target.uri, r.version⟩ := by
  have one : blank ∈ r.line := by simp [Request.line]
  have two : blank ∈ r.target.uri ++ blank :: r.version := by simp
  have last : strstr HTTP_HEADER_SUFFIX (r.line ++ HTTP_HEADER_SUFFIX) = some r.line.length := by
    have found := strstr_suffix (not_mem_line r (by decide : (13 : UInt8) ≤ 32) (by decide)) []
    rwa [List.append_nil] at found
  rw [lineParse_eq last, if_pos one, front_line, behind_line, front_target, behind_target] at parses
  by_cases wide : r.method.length > HTTP_METHOD_LEN
  · rw [if_pos wide] at parses
    cases parses
  · rw [if_neg wide, if_pos two] at parses
    by_cases long : r.version.length > HTTP_VERSION_LEN
    · rw [if_pos long] at parses
      cases parses
    · rw [if_neg long] at parses
      cases parses
      rfl

/-- The bytes up to the end of the start line hold no NUL. -/
theorem cString_bytes : ∃ more, cString r.bytes = r.line ++ HTTP_HEADER_SUFFIX ++ more := by
  have nonzero : ∀ c ∈ r.line ++ HTTP_HEADER_SUFFIX, (c != 0) = true := by
    intro c member
    rw [bne_iff_ne]
    rintro rfl
    rcases List.mem_append.mp member with inLine | inEnd
    · exact not_mem_line r (by decide) (by decide) inLine
    · exact absurd inEnd (by decide)
  exact ⟨r.rest.takeWhile (· != 0), List.takeWhile_append_of_pos nonzero⟩

/-- Whatever follows its start line, a request that is read at all is read as written. -/
theorem httpRequestStartLineParse_bytes {parsed : Option HttpRequestSline}
    (parses : httpRequestStartLineParse (received r.bytes).data = .ok parsed) :
    parsed = some ⟨r.method, r.target.uri, r.version⟩ := by
  obtain ⟨more, text⟩ := cString_bytes r
  have found := strstr_suffix (not_mem_line r (by decide : (13 : UInt8) ≤ 32) (by decide)) more
  rw [httpRequestStartLineParse_eq, cString_received, text, found, Option.elim_some] at parses
  apply lineParse_line r
  rw [← parses]
  congr 1
  have front : r.line ++ HTTP_HEADER_SUFFIX <+: (received r.bytes).data :=
    (List.prefix_append _ r.rest).trans (List.prefix_append _ _)
  obtain ⟨behind, split⟩ := front
  rw [← split]
  exact (List.take_left' (by simp [HTTP_HEADER_SUFFIX])).symm

end Requests

/-- A target is never refused: it is read as some host, or its host does not fit. -/
theorem target_not_refused (t : Target) : getHostIpPostFromURI t.uri ≠ .ok none := by
  rw [getHostIpPostFromURI_eq, behindScheme_uri, Option.elim_some, copyHost]
  split
  · intro same
    cases same
  · intro same
    cases same

end Poplar.Http
