import Poplar.Http.Header

/-!
# Request lines and hosts that fit

Which received bytes are handled within the buffers of the parser, and which targets are
taken apart into the host and the port they were written with.
-/
namespace Poplar.Http

/-- The bytes before the first `c`, or all. -/
def front (c : UInt8) (s : List UInt8) : List UInt8 := s.takeWhile (· != c)

/-- The bytes behind the first `c`. -/
def behind (c : UInt8) (s : List UInt8) : List UInt8 := (s.dropWhile (· != c)).drop 1

section Search

variable {c : UInt8} {s needle rest : List UInt8} {i : Nat}

theorem front_split (member : c ∈ s) : s = front c s ++ c :: behind c s := by
  induction s with
  | nil => cases member
  | cons d s ih =>
      by_cases same : d = c
      · simp [front, behind, same]
      · have later := ih ((List.mem_cons.mp member).resolve_left fun h => same h.symm)
        have head : front c (d :: s) = d :: front c s :=
          List.takeWhile_cons_of_pos (by simpa using same)
        have tail : behind c (d :: s) = behind c s := by
          rw [behind, List.dropWhile_cons_of_pos (by simpa using same), behind]
        rw [head, tail, List.cons_append, ← later]

theorem not_mem_front : c ∉ front c s := fun member => by
  simpa using List.mem_takeWhile_imp member

theorem front_append (absent : c ∉ s) : front c (s ++ c :: rest) = s := by
  rw [front, List.takeWhile_append_of_pos fun d member => by
    simpa using fun same : d = c => absent (same ▸ member)]
  simp

theorem behind_append (absent : c ∉ s) : behind c (s ++ c :: rest) = rest := by
  have split := front_split (s := s ++ c :: rest) (c := c) (by simp)
  rw [front_append absent] at split
  exact (List.cons.inj (List.append_cancel_left split)).2.symm

theorem front_absent (absent : c ∉ s) : front c s = s :=
  List.takeWhile_eq_self_iff.mpr fun d member => by
    simpa using fun same : d = c => absent (same ▸ member)

theorem strstr_char : strstr [c] s = if c ∈ s then some (front c s).length else none := by
  induction s with
  | nil => rfl
  | cons d s ih =>
      rw [strstr, ih]
      by_cases same : c = d
      · simp [front, same]
      · have other : d ≠ c := fun h => same h.symm
        simp [front, same, other, List.isPrefixOf]

/-- Where a search for a byte ends, the string comes apart into `front` and `behind`. -/
theorem split_at_char (found : strstr [c] s = some i) :
    c ∈ s ∧ s.take i = front c s ∧ s.drop (i + 1) = behind c s := by
  rw [strstr_char] at found
  split at found
  case isFalse => cases found
  cases found
  have split := front_split ‹c ∈ s›
  refine ⟨‹_›, ?_, ?_⟩
  · exact (congrArg (List.take _) split).trans List.take_left
  · refine (congrArg (List.drop _) split).trans ?_
    rw [List.append_cons]
    exact List.drop_left' (by simp)

theorem not_mem_of_strstr (missed : strstr [c] s = none) : c ∉ s := by
  intro member
  rw [strstr_char, if_pos member] at missed
  cases missed

/-- A needle found stands where it was found. -/
theorem strstr_found (found : strstr needle s = some i) :
    ∃ rest, s = s.take i ++ needle ++ rest ∧ i + needle.length ≤ s.length := by
  induction s generalizing i with
  | nil =>
      rw [strstr] at found
      split at found
      · cases found
        exact ⟨[], by simp [*], by simp [*]⟩
      · cases found
  | cons d s ih =>
      rw [strstr] at found
      split at found
      case isTrue starts =>
        cases found
        obtain ⟨rest, split⟩ := List.isPrefixOf_iff_prefix.mp starts
        exact ⟨rest, by simp [split], by simp [← split]⟩
      case isFalse =>
        obtain ⟨j, here, rfl⟩ := Option.map_eq_some_iff.mp found
        obtain ⟨rest, split, inside⟩ := ih here
        refine ⟨rest, ?_, by rw [List.length_cons]; omega⟩
        rw [List.take_succ_cons, List.cons_append, List.cons_append, ← split]

end Search

/-- The port a scheme implies and the part behind it; `none` where the scheme is refused. -/
def behindScheme (uri : List UInt8) : Option (Option Int × List UInt8) :=
  match strstr (ascii "://") uri with
  | none => some (none, uri)
  | some i =>
    if i ≥ 25 then none
    else if uri.take i = ascii "http" then some (some DEFAULT_HTTP_PORT, uri.drop (i + 3))
    else if uri.take i = ascii "https" then some (some DEFAULT_HTTPS_PORT, uri.drop (i + 3))
    else none

/-- The bytes up to the first `:`, or up to the first `/` where there is no `:`. -/
def hostPart (rest : List UInt8) : List UInt8 :=
  if colon ∈ rest then front colon rest else front slash rest

/-- The number behind the first `:`, or the port of the scheme. -/
def portPart (port : Option Int) (rest : List UInt8) : Option Int :=
  if colon ∈ rest then some (atoi (front slash (behind colon rest))) else port

/-- What `GetHostIpPostFromURI` finds behind the scheme. -/
def hostAndPort (port : Option Int) (rest : List UInt8) : List UInt8 × Option Int :=
  match strstr [colon] rest with
  | some i =>
    let tail := rest.drop (i + 1)
    let digits := match strstr [slash] tail with
      | some j => tail.take j
      | none => tail
    (rest.take i, some (atoi digits))
  | none =>
    match strstr [slash] rest with
    | some j => (rest.take j, port)
    | none => (rest, port)

theorem hostAndPort_eq (port : Option Int) (rest : List UInt8) :
    hostAndPort port rest = (hostPart rest, portPart port rest) := by
  rw [hostAndPort, hostPart, portPart]
  cases separator : strstr [colon] rest with
  | some i =>
      obtain ⟨member, before, after⟩ := split_at_char separator
      simp only [if_pos member, before, after]
      cases path : strstr [slash] (behind colon rest) with
      | some j => simp only [(split_at_char path).2.1]
      | none => simp only [front_absent (not_mem_of_strstr path)]
  | none =>
      simp only [if_neg (not_mem_of_strstr separator)]
      cases path : strstr [slash] rest with
      | some j => simp only [(split_at_char path).2.1]
      | none => simp only [front_absent (not_mem_of_strstr path)]

/-- The host is copied if it fits into `ipAddr` with its NUL. -/
def copyHost (target : List UInt8 × Option Int) : Except Fault (Option HostPort) :=
  if target.1.length < IPADDR_SIZE then .ok (some ⟨target.1, target.2⟩) else .error .outOfObject

theorem getHostIpPostFromURI_eq (uri : List UInt8) :
    getHostIpPostFromURI uri = (behindScheme uri).elim (.ok none) fun target =>
      copyHost (hostPart target.2, portPart target.1 target.2) := by
  simp only [← hostAndPort_eq]
  rw [getHostIpPostFromURI, behindScheme]
  cases strstr (ascii "://") uri with
  | none => rfl
  | some i =>
      simp only
      split
      · rfl
      split
      · rfl
      split
      · rfl
      · rfl

inductive Scheme where
  | http | https
  deriving DecidableEq, Repr

def Scheme.text : Scheme → List UInt8
  | .http => ascii "http"
  | .https => ascii "https"

def Scheme.port : Scheme → Int
  | .http => DEFAULT_HTTP_PORT
  | .https => DEFAULT_HTTPS_PORT

/-- The number a row of digits stands for. -/
def decimal (digits : List UInt8) : Nat := digits.foldl (fun n c => n * 10 + (c.toNat - 48)) 0

/-- A target in absolute form, or in authority form where there is no scheme. -/
structure Target where
  scheme : Option Scheme
  host : List UInt8
  port : Option (List UInt8)
  rest : Option (List UInt8)
  hostSized : 1 ≤ host.length ∧ host.length ≤ 254
  hostPlain : ∀ c ∈ host, c ≠ colon ∧ c ≠ slash ∧ c ≠ 0
  portNumber : ∀ digits ∈ port, digits ≠ [] ∧ (∀ c ∈ digits, isDigit c = true) ∧
    1 ≤ decimal digits ∧ decimal digits ≤ 65535
  restPlain : ∀ bytes ∈ rest, ∀ c ∈ bytes, c ≠ 0
  authority : scheme = none → port.isSome = true ∧ rest = none

/-- What stands behind the scheme. -/
def Target.tail (t : Target) : List UInt8 :=
  t.host ++ t.port.elim [] (colon :: ·) ++ t.rest.elim [] (slash :: ·)

def Target.uri (t : Target) : List UInt8 :=
  t.scheme.elim [] (fun scheme => scheme.text ++ ascii "://") ++ t.tail

/-- The port written, or the one the scheme implies. -/
def Target.portWritten (t : Target) : Option Int :=
  (t.port.map fun digits => (decimal digits : Int)).or (t.scheme.map Scheme.port)

section Digits

variable {c : UInt8} {digits : List UInt8}

theorem digit_bounds (digit : isDigit c = true) : 48 ≤ c.toNat ∧ c.toNat ≤ 57 := by
  simp only [isDigit, Bool.and_eq_true, decide_eq_true_eq, UInt8.le_iff_toNat_le] at digit
  exact digit

theorem digit_ne (digit : isDigit c = true) {d : UInt8} (other : d.toNat < 48 ∨ 57 < d.toNat) :
    c ≠ d := by
  intro same
  have := digit_bounds digit
  rw [same] at this
  omega

theorem scanDigits_decimal (all : ∀ c ∈ digits, isDigit c = true) (n : Nat) :
    scanDigits 10 n digits = (digits.foldl (fun n c => n * 10 + (c.toNat - 48)) n, []) := by
  induction digits generalizing n with
  | nil => rfl
  | cons c digits ih =>
      obtain ⟨digit, later⟩ := List.forall_mem_cons.mp all
      have bounds := digit_bounds digit
      have value : digitValue 10 c = some (c.toNat - 48) := by
        rw [digitValue, if_pos digit]
        exact if_pos (by omega)
      rw [scanDigits, value]
      exact ih later _

theorem numberAt_decimal (some_ : digits ≠ []) (all : ∀ c ∈ digits, isDigit c = true) :
    numberAt digits = decimal digits := by
  obtain ⟨c, digits, rfl⟩ := List.exists_cons_of_ne_nil some_
  have digit := all c (by simp)
  have bounds := digit_bounds digit
  have visible : isSpace c = false := by
    have blank : c ≠ 32 := digit_ne digit (.inl (by decide))
    have high : ¬ c ≤ 13 := by
      rw [UInt8.le_iff_toNat_le]
      exact fun low => absurd (Nat.le_trans bounds.1 low) (by decide)
    simp [isSpace, blank, high]
  have whole : (c :: digits).dropWhile isSpace = c :: digits :=
    List.dropWhile_cons_of_neg (by simp [visible])
  have minus : c ≠ 45 := digit_ne digit (.inl (by decide))
  have plus : c ≠ 43 := digit_ne digit (.inl (by decide))
  rw [numberAt, whole]
  split
  · cases ‹c :: digits = 45 :: _›
    exact absurd rfl minus
  · cases ‹c :: digits = 43 :: _›
    exact absurd rfl plus
  · rw [scanDigits_decimal all]
    rfl

/-- A port that is one survives the `int`. -/
theorem atoi_decimal (some_ : digits ≠ []) (all : ∀ c ∈ digits, isDigit c = true)
    (high : decimal digits ≤ 65535) : atoi digits = decimal digits := by
  have low : (0 : Int) ≤ decimal digits := Int.natCast_nonneg _
  have long : strtol digits = decimal digits := by
    rw [strtol, numberAt_decimal some_ all, min_eq_right (by omega), max_eq_right (by omega)]
  rw [atoi, long]
  exact Int.bmod_eq_of_le (by omega) (by omega)

end Digits

section Targets

variable {t : Target}

theorem colon_fresh (t : Target) : colon ∉ t.host := fun member => (t.hostPlain _ member).1 rfl

theorem slash_fresh (t : Target) : slash ∉ t.host := fun member => (t.hostPlain _ member).2.1 rfl

theorem digits_fresh {digits : List UInt8} (written : t.port = some digits) : slash ∉ digits := by
  intro member
  have digit := (t.portNumber digits written).2.1 _ member
  exact absurd digit (by decide)

/-- The scheme is taken off, with the port it implies. -/
theorem behindScheme_uri (t : Target) :
    behindScheme t.uri = some (t.scheme.map Scheme.port, t.tail) := by
  cases written : t.scheme with
  | some scheme =>
      have shape : t.uri = scheme.text ++ ascii "://" ++ t.tail := by
        rw [Target.uri, written]
        rfl
      rw [behindScheme, shape]
      cases scheme <;> rfl
  | none =>
      obtain ⟨port, rest⟩ := t.authority written
      have shape : t.uri = t.host ++ t.port.elim [] (colon :: ·) := by
        rw [Target.uri, Target.tail, written, rest]
        simp
      have noSlash : slash ∉ t.uri := by
        rw [shape]
        intro member
        rcases List.mem_append.mp member with inHost | inPort
        · exact slash_fresh t inHost
        · obtain ⟨digits, given⟩ := Option.isSome_iff_exists.mp port
          rw [given] at inPort
          rcases List.mem_cons.mp inPort with same | inDigits
          · exact absurd same (by decide)
          · exact digits_fresh given inDigits
      have missed : strstr (ascii "://") t.uri = none := by
        rw [Option.eq_none_iff_forall_ne_some]
        intro i found
        obtain ⟨behind, split, -⟩ := strstr_found found
        refine noSlash (split ▸ ?_)
        simp [ascii, slash]
      rw [behindScheme, missed]
      rw [Target.uri, written]
      rfl

theorem hostPart_port {digits : List UInt8} (written : t.port = some digits) :
    hostPart t.tail = t.host ∧ portPart (t.scheme.map Scheme.port) t.tail = t.portWritten := by
  obtain ⟨some_, all, _, high⟩ := t.portNumber digits written
  have shape : t.tail = t.host ++ colon :: (digits ++ t.rest.elim [] (slash :: ·)) := by
    rw [Target.tail, written]
    simp
  have number : front slash (digits ++ t.rest.elim [] (slash :: ·)) = digits := by
    have fresh := digits_fresh written
    cases t.rest with
    | none =>
        rw [Option.elim_none, List.append_nil]
        exact front_absent fresh
    | some rest => exact front_append fresh
  rw [shape, hostPart, portPart, if_pos (by simp), if_pos (by simp), front_append (colon_fresh t),
    behind_append (colon_fresh t), number, atoi_decimal some_ all high, Target.portWritten, written]
  exact ⟨rfl, rfl⟩

/-- Without a port the host is found if no `:` stands in the rest, and else it is not. -/
theorem hostPart_rest (absent : t.port = none) :
    if ∀ rest ∈ t.rest, colon ∉ rest then
      hostPart t.tail = t.host ∧ portPart (t.scheme.map Scheme.port) t.tail = t.portWritten
    else hostPart t.tail ≠ t.host := by
  have shape : t.tail = t.host ++ t.rest.elim [] (slash :: ·) := by
    rw [Target.tail, absent]
    simp
  have implied : t.scheme.map Scheme.port = t.portWritten := by
    rw [Target.portWritten, absent]
    rfl
  cases path : t.rest with
  | none =>
      rw [path, Option.elim_none, List.append_nil] at shape
      rw [if_pos (by simp), shape, hostPart, portPart, if_neg (colon_fresh t),
        if_neg (colon_fresh t), front_absent (slash_fresh t), implied]
      exact ⟨rfl, rfl⟩
  | some rest =>
      rw [path, Option.elim_some] at shape
      by_cases inRest : colon ∈ rest
      · rw [if_neg (fun none_ => none_ rest rfl inRest), shape, hostPart, if_pos (by simp [inRest])]
        intro same
        -- the host found reaches over the first slash
        have long : slash ∈ front colon (t.host ++ slash :: rest) := by
          rw [front, List.takeWhile_append_of_pos fun c member => by
            simpa using (t.hostPlain c member).1]
          simp [slash, colon]
        exact slash_fresh t (same ▸ long)
      · have absentColon : colon ∉ t.host ++ slash :: rest := by
          simp only [List.mem_append, List.mem_cons, not_or]
          exact ⟨colon_fresh t, by decide, inRest⟩
        rw [if_pos (fun r is => by cases is; exact inRest), shape, hostPart, portPart,
          if_neg absentColon, if_neg absentColon, front_append (slash_fresh t), implied]
        exact ⟨rfl, rfl⟩

theorem copyHost_eq_iff {host host' : List UInt8} {port port' : Option Int} :
    copyHost (host', port') = .ok (some ⟨host, port⟩) ↔
      host'.length < IPADDR_SIZE ∧ host' = host ∧ port' = port := by
  rw [copyHost]
  split
  · simp [*]
  · simp [*]

end Targets

/-- A target is taken apart into the host and the port written exactly when a port is written
or no `:` stands in the path. -/
theorem target_taken_iff (t : Target) :
    getHostIpPostFromURI t.uri = .ok (some ⟨t.host, t.portWritten⟩) ↔
      t.port.isSome = true ∨ ∀ rest ∈ t.rest, colon ∉ rest := by
  have small : t.host.length < IPADDR_SIZE := Nat.lt_succ_of_le t.hostSized.2
  rw [getHostIpPostFromURI_eq, behindScheme_uri, Option.elim_some, copyHost_eq_iff]
  cases written : t.port with
  | some digits =>
      obtain ⟨host, port⟩ := hostPart_port written
      exact iff_of_true ⟨host ▸ small, host, port⟩ (.inl rfl)
  | none =>
      have found := hostPart_rest written
      by_cases plain : ∀ rest ∈ t.rest, colon ∉ rest
      · rw [if_pos plain] at found
        exact iff_of_true ⟨found.1 ▸ small, found⟩ (.inr plain)
      · rw [if_neg plain] at found
        exact iff_of_false (fun is => found is.2.1) fun is => is.elim (by simp) plain

/-- `http://a/b:c` -/
def colonInPath : Target where
  scheme := some .http
  host := ascii "a"
  port := none
  rest := some (ascii "b:c")
  hostSized := by decide
  hostPlain := by simp [ascii, colon, slash]
  portNumber := by simp
  restPlain := fun bytes is => by cases is; simp [ascii]
  authority := fun absent => by cases absent

theorem colon_in_path_is_port :
    getHostIpPostFromURI colonInPath.uri = .ok (some ⟨ascii "a/b", some 0⟩) := by
  decide +kernel

section Lines

variable {c : UInt8} {s t needle : List UInt8} {i : Nat}

theorem front_append_left (member : c ∈ s) (t : List UInt8) : front c (s ++ t) = front c s := by
  have split := front_split member
  have whole : s ++ t = front c s ++ c :: (behind c s ++ t) := by
    rw [← List.cons_append, ← List.append_assoc, ← split]
  rw [whole, front_append not_mem_front]

theorem behind_append_left (member : c ∈ s) (t : List UInt8) :
    behind c (s ++ t) = behind c s ++ t := by
  have split := front_split member
  have whole : s ++ t = front c s ++ c :: (behind c s ++ t) := by
    rw [← List.cons_append, ← List.append_assoc, ← split]
  rw [whole, behind_append not_mem_front]

/-- A search that skips the front finds the same place behind it. -/
theorem strstr_drop (found : strstr needle (s ++ t) = some (s.length + i)) :
    strstr needle t = some i := by
  induction s with
  | nil => simpa using found
  | cons d s ih =>
      rw [List.cons_append, strstr] at found
      split at found
      · simp at found
        omega
      · obtain ⟨j, here, same⟩ := Option.map_eq_some_iff.mp found
        rw [List.length_cons] at same
        exact ih (by rw [here]; congr 1; omega)

/-- What follows the place found does not matter. -/
theorem strstr_cut (some_ : needle ≠ []) (rest : List UInt8)
    (found : strstr needle (s ++ needle ++ rest) = some s.length) :
    strstr needle (s ++ needle) = some s.length := by
  induction s with
  | nil =>
      obtain ⟨d, needle, rfl⟩ := List.exists_cons_of_ne_nil some_
      exact if_pos (by simp)
  | cons d s ih =>
      rw [List.cons_append, List.cons_append, strstr] at found
      split at found
      · simp at found
      case isFalse missed =>
        obtain ⟨j, here, same⟩ := Option.map_eq_some_iff.mp found
        rw [List.length_cons] at same
        have later := ih (by rw [here]; congr 1; omega)
        rw [List.cons_append, strstr, if_neg, later]
        · rfl
        · refine fun starts => missed (List.isPrefixOf_iff_prefix.mpr ?_)
          have short := List.isPrefixOf_iff_prefix.mp starts
          exact short.trans (by rw [← List.cons_append]; exact List.prefix_append _ _)

end Lines

/-- What `HttpRequestStartLineParse` does with the start line, its CRLF included. -/
def lineParse (startLine : List UInt8) : Except Fault (Option HttpRequestSline) := do
  let some i := strstr [blank] startLine | return none
  let method := startLine.take i
  if method.length > HTTP_METHOD_LEN then throw .outOfObject
  let rest := startLine.drop (i + 1)
  let some j := strstr [blank] rest | return none
  let uri := rest.take j
  let rest := rest.drop (j + 1)
  let some k := strstr HTTP_HEADER_SUFFIX rest | return none
  let httpV := rest.take k
  if httpV.length > HTTP_VERSION_LEN then throw .outOfObject
  return some ⟨method, uri, httpV⟩

theorem httpRequestStartLineParse_eq (data : List UInt8) :
    httpRequestStartLineParse data = (strstr HTTP_HEADER_SUFFIX (cString data)).elim
      (if 0 ∈ data then .ok none else .error .outOfObject)
      fun suffix => lineParse (data.take (suffix + 2)) := by
  rw [httpRequestStartLineParse, strstrIn]
  cases strstr HTTP_HEADER_SUFFIX (cString data) with
  | some suffix => rfl
  | none =>
      by_cases nul : 0 ∈ data
      · simp only [if_pos nul]
        rfl
      · simp only [if_neg nul]
        rfl

/-- The first and the third word of a line leave room for a NUL, and so does the host of the
second; a first word without a second may fill its field. -/
def LineFits (line : List UInt8) : Prop :=
  blank ∈ line → (front blank line).length ≤ 32 ∧
    (blank ∈ behind blank line → (front blank line).length ≤ 31 ∧
      (behind blank (behind blank line)).length ≤ 31 ∧
        ∀ target ∈ behindScheme (front blank (behind blank line)),
          (hostPart target.2).length ≤ 254)

/-- The start line is handled within its buffers, which end in a NUL. -/
def LineSafe (parsed : Except Fault (Option HttpRequestSline)) : Prop :=
  ∃ o, parsed = .ok o ∧ ∀ line ∈ o, line.method.length < HTTP_METHOD_LEN ∧
    line.httpV.length < HTTP_VERSION_LEN ∧ ∃ r, getHostIpPostFromURI line.uri = .ok r

theorem getHostIpPostFromURI_returns_iff {uri : List UInt8} :
    (∃ r, getHostIpPostFromURI uri = .ok r) ↔
      ∀ target ∈ behindScheme uri, (hostPart target.2).length ≤ 254 := by
  rw [getHostIpPostFromURI_eq]
  cases behindScheme uri with
  | none => exact iff_of_true ⟨none, rfl⟩ fun target is => by cases is
  | some target =>
      simp only [Option.elim_some, copyHost, Option.mem_def, Option.some.injEq, forall_eq']
      by_cases room : (hostPart target.2).length < IPADDR_SIZE
      · rw [if_pos room]
        exact iff_of_true ⟨_, rfl⟩ (Nat.le_of_lt_succ room)
      · rw [if_neg room]
        refine iff_of_false ?_ fun small => room (Nat.lt_succ_of_le small)
        rintro ⟨r, same⟩
        cases same

section Lines

variable {c : UInt8} {s : List UInt8}

/-- The search for a blank in a line with its end, and what it takes the line apart into. -/
theorem blank_found (member : blank ∈ s) :
    ∃ i, strstr [blank] (s ++ HTTP_HEADER_SUFFIX) = some i ∧
      (s ++ HTTP_HEADER_SUFFIX).take i = front blank s ∧
      (s ++ HTTP_HEADER_SUFFIX).drop (i + 1) = behind blank s ++ HTTP_HEADER_SUFFIX := by
  have found : strstr [blank] (s ++ HTTP_HEADER_SUFFIX) = some (front blank s).length := by
    rw [strstr_char, if_pos (List.mem_append_left _ member), front_append_left member]
  obtain ⟨-, before, after⟩ := split_at_char found
  rw [front_append_left member] at before
  rw [behind_append_left member] at after
  exact ⟨_, found, before, after⟩

theorem blank_missed (absent : blank ∉ s) : strstr [blank] (s ++ HTTP_HEADER_SUFFIX) = none := by
  rw [strstr_char, if_neg]
  rw [List.mem_append, not_or]
  exact ⟨absent, by decide⟩

/-- Behind a blank of the line its end is still found last. -/
theorem suffix_behind (member : blank ∈ s)
    (last : strstr HTTP_HEADER_SUFFIX (s ++ HTTP_HEADER_SUFFIX) = some s.length) :
    strstr HTTP_HEADER_SUFFIX (behind blank s ++ HTTP_HEADER_SUFFIX) =
      some (behind blank s).length := by
  have split := front_split member
  rw [List.append_cons] at split
  have whole : s ++ HTTP_HEADER_SUFFIX =
      (front blank s ++ [blank]) ++ (behind blank s ++ HTTP_HEADER_SUFFIX) := by
    rw [← List.append_assoc, ← split]
  rw [whole] at last
  refine strstr_drop (last.trans ?_)
  conv_lhs => rw [split]
  rw [List.length_append]

end Lines

/-- The three searches take a line apart at its first two blanks; each copy follows its own. -/
theorem lineParse_eq {line : List UInt8}
    (last : strstr HTTP_HEADER_SUFFIX (line ++ HTTP_HEADER_SUFFIX) = some line.length) :
    lineParse (line ++ HTTP_HEADER_SUFFIX) =
      if blank ∈ line then
        if (front blank line).length > HTTP_METHOD_LEN then .error .outOfObject
        else if blank ∈ behind blank line then
          if (behind blank (behind blank line)).length > HTTP_VERSION_LEN then .error .outOfObject
          else .ok (some ⟨front blank line, front blank (behind blank line),
            behind blank (behind blank line)⟩)
        else .ok none
      else .ok none := by
  by_cases one : blank ∈ line
  case neg =>
    rw [if_neg one, lineParse, blank_missed one]
    rfl
  obtain ⟨i, found, method, rest⟩ := blank_found one
  rw [if_pos one, lineParse, found]
  simp only [method, rest]
  by_cases wide : (front blank line).length > HTTP_METHOD_LEN
  · rw [if_pos wide, if_pos wide]
    rfl
  rw [if_neg wide, if_neg wide]
  by_cases two : blank ∈ behind blank line
  case neg =>
    rw [if_neg two, blank_missed two]
    rfl
  obtain ⟨j, found, uri, rest⟩ := blank_found two
  have ends := suffix_behind two (suffix_behind one last)
  rw [if_pos two, found]
  simp only [uri, rest, ends, List.take_left]
  by_cases long : (behind blank (behind blank line)).length > HTTP_VERSION_LEN
  · rw [if_pos long, if_pos long]
    rfl
  · rw [if_neg long, if_neg long]
    rfl

theorem lineSafe_iff {line : List UInt8}
    (last : strstr HTTP_HEADER_SUFFIX (line ++ HTTP_HEADER_SUFFIX) = some line.length) :
    LineSafe (lineParse (line ++ HTTP_HEADER_SUFFIX)) ↔ LineFits line := by
  have nothing : LineSafe (.ok none) := ⟨none, rfl, fun line is => by cases is⟩
  have overrun : ¬ LineSafe (.error .outOfObject) := by
    rintro ⟨o, same, -⟩
    cases same
  rw [lineParse_eq last, LineFits]
  by_cases one : blank ∈ line
  case neg =>
    rw [if_neg one]
    exact iff_of_true nothing fun is => absurd is one
  simp only [one, if_true, true_implies]
  by_cases wide : (front blank line).length > HTTP_METHOD_LEN
  · rw [if_pos wide]
    exact iff_of_false overrun fun is => Nat.not_lt.mpr is.1 wide
  rw [if_neg wide]
  have narrow : (front blank line).length ≤ 32 := Nat.not_lt.mp wide
  by_cases two : blank ∈ behind blank line
  case neg =>
    rw [if_neg two]
    exact iff_of_true nothing ⟨narrow, fun is => absurd is two⟩
  simp only [narrow, two, if_true, true_implies, true_and]
  by_cases long : (behind blank (behind blank line)).length > HTTP_VERSION_LEN
  · rw [if_pos long]
    refine iff_of_false overrun fun is => ?_
    have : HTTP_VERSION_LEN = 32 := rfl
    omega
  rw [if_neg long, ← getHostIpPostFromURI_returns_iff]
  constructor
  · rintro ⟨o, same, fits⟩
    cases same
    obtain ⟨short, version, host⟩ := fits _ rfl
    exact ⟨Nat.le_of_lt_succ short, Nat.le_of_lt_succ version, host⟩
  · rintro ⟨short, version, host⟩
    refine ⟨_, rfl, fun parsed is => ?_⟩
    cases is
    exact ⟨Nat.lt_succ_of_le short, Nat.lt_succ_of_le version, host⟩

/-- A request is handled within its buffers. -/
def RequestSafe (payload : List UInt8) : Prop :=
  LineSafe (httpRequestStartLineParse (received payload).data)

/-- The search for the end of the line stays in the buffer, and the line it finds fits. -/
def RequestFits (payload : List UInt8) : Prop :=
  (payload.length < MAX_RECV_PACKET_SIZE ∨ 0 ∈ payload ∨
      (strstr HTTP_HEADER_SUFFIX payload).isSome = true) ∧
    ∀ suffix ∈ strstr HTTP_HEADER_SUFFIX (cString payload), LineFits (payload.take suffix)

theorem cString_received (payload : List UInt8) :
    cString (received payload).data = cString payload := by
  have zeros : ∀ n, cString (List.replicate n 0) = [] := fun n => by
    cases n <;> simp [cString, List.replicate_succ]
  have cut := zeros (MAX_RECV_PACKET_SIZE - payload.length)
  rw [cString] at cut
  rw [received, cString, List.takeWhile_append, cut, List.append_nil]
  split
  · exact ((List.takeWhile_prefix _).eq_of_length ‹_›).symm
  · rfl

theorem cString_prefix (s : List UInt8) : cString s <+: s := List.takeWhile_prefix _

theorem take_of_front {s t : List UInt8} (front : s <+: t) {n : Nat} (inside : n ≤ s.length) :
    t.take n = s.take n := by
  obtain ⟨more, rfl⟩ := front
  exact List.take_append_of_le_length inside

theorem cString_of_nonzero {s : List UInt8} (nonzero : 0 ∉ s) : cString s = s :=
  List.takeWhile_eq_self_iff.mpr fun d member => by
    simpa using fun same : d = 0 => nonzero (same ▸ member)

theorem nul_received_iff {payload : List UInt8} (fits : payload.length ≤ MAX_RECV_PACKET_SIZE) :
    0 ∈ (received payload).data ↔ payload.length < MAX_RECV_PACKET_SIZE ∨ 0 ∈ payload := by
  rw [received, List.mem_append, List.mem_replicate, or_comm]
  exact or_congr_left ⟨fun is => by omega, fun is => ⟨by omega, rfl⟩⟩

/-- What a client sends is handled within the buffers exactly when the line fits. -/
theorem request_safe_iff (payload : List UInt8) (fits : payload.length ≤ MAX_RECV_PACKET_SIZE) :
    RequestSafe payload ↔ RequestFits payload := by
  rw [RequestSafe, RequestFits, httpRequestStartLineParse_eq, cString_received]
  cases found : strstr HTTP_HEADER_SUFFIX (cString payload) with
  | none =>
      have missed : 0 ∉ payload → ¬ (strstr HTTP_HEADER_SUFFIX payload).isSome = true := fun nonzero => by
        rw [cString_of_nonzero nonzero] at found
        simp [found]
      have nul := nul_received_iff fits
      rw [Option.elim_none]
      by_cases stops : 0 ∈ (received payload).data
      · rw [if_pos stops]
        refine iff_of_true ⟨none, rfl, fun line is => by cases is⟩ ⟨?_, fun suffix is => by cases is⟩
        exact (nul.mp stops).imp_right .inl
      · rw [if_neg stops]
        obtain ⟨full, nonzero⟩ := not_or.mp (mt nul.mpr stops)
        refine iff_of_false ?_ fun is => is.1.elim full fun is => is.elim nonzero (missed nonzero)
        rintro ⟨o, same, -⟩
        cases same
  | some suffix =>
      have reached : payload.length < MAX_RECV_PACKET_SIZE ∨ 0 ∈ payload ∨
          (strstr HTTP_HEADER_SUFFIX payload).isSome = true := by
        by_cases nul : 0 ∈ payload
        · exact .inr (.inl nul)
        · rw [cString_of_nonzero nul] at found
          exact .inr (.inr (by rw [found]; rfl))
      obtain ⟨rest, split, inside⟩ := strstr_found found
      have two : HTTP_HEADER_SUFFIX.length = 2 := rfl
      have text := cString_prefix payload
      have buffer : cString payload <+: (received payload).data :=
        text.trans (List.prefix_append _ _)
      have line : payload.take suffix = (cString payload).take suffix :=
        take_of_front text (by omega)
      have size : ((cString payload).take suffix).length = suffix := by
        rw [List.length_take]
        omega
      have startLine : (received payload).data.take (suffix + 2) =
          (cString payload).take suffix ++ HTTP_HEADER_SUFFIX := by
        rw [take_of_front buffer (by omega)]
        refine (congrArg (List.take _) split).trans (List.take_left' ?_)
        rw [List.length_append, size, two]
      have last : strstr HTTP_HEADER_SUFFIX ((cString payload).take suffix ++ HTTP_HEADER_SUFFIX) =
          some ((cString payload).take suffix).length := by
        refine strstr_cut (by decide) rest ?_
        rw [← split, size, found]
      rw [Option.elim_some, startLine, lineSafe_iff last, ← line]
      exact ⟨fun is => ⟨reached, fun i same => by cases same; exact is⟩, fun is => is.2 suffix rfl⟩

theorem request_safe_sample :
    RequestSafe (ascii "GET http://a/ HTTP/1.1\r\n") ↔
      RequestFits (ascii "GET http://a/ HTTP/1.1\r\n") :=
  request_safe_iff _ (by decide)

/-- A method of 33 bytes is copied over the end of its field. -/
theorem long_method_overruns :
    httpRequestStartLineParse
        (received (List.replicate 33 71 ++ ascii " / HTTP/1.1\r\n")).data =
      .error .outOfObject := by
  decide +kernel

end Poplar.Http
