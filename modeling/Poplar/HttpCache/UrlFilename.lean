import Poplar.Common.Util
import Poplar.Lib.Bytes

/-!
# The names of cache files: apps/pop_httpcache.c

A name is put together in a buffer of the caller. The file system answers whether the root
of the cache is a directory, and the digest is that of common/md5.c.
-/
namespace Poplar.HttpCache

open Http (ascii slash point)

/-- The root of the cache; `length` is its `strlen`. -/
structure CacheRoot where
  path : List UInt8
  string : ∀ c ∈ path, c ≠ 0

def CacheRoot.length (root : CacheRoot) : Nat := root.path.length

/-- `stat` of a path: whether it succeeds, and then whether the path is a directory. -/
abbrev Stat := List UInt8 → Option Bool

/-- What `MD5Final` leaves. -/
structure Digest where
  bytes : List UInt8
  whole : bytes.length = 16

def percent : UInt8 := 37

def fssafe (c : UInt8) : Bool :=
  if charValue c ≤ 31 ∨ charValue c ≥ 127 then false
  else decide ((97 ≤ c ∧ c ≤ 122) ∨ (65 ≤ c ∧ c ≤ 90) ∨ (48 ≤ c ∧ c ≤ 57) ∨
    c = point ∨ c = 45 ∨ c = 95)

def cacheRootCheck (root : CacheRoot) (stat : Stat) : Int :=
  if root.length = 0 then 0
  else if root.path.getD 0 0 ≠ slash then -2
  else match stat root.path with
    | none => -1
    | some directory => if directory then 1 else -1

/-- `outbuf[j] = c` -/
def writeByte (outbuf : List UInt8) (j : Nat) (c : UInt8) : Except Fault (List UInt8) :=
  if j < outbuf.length then .ok (outbuf.set j c) else .error .outOfObject

/-- `memcpy(outbuf + j, cs, …)` -/
def writeBytes (outbuf : List UInt8) (j : Nat) (cs : List UInt8) : Except Fault (List UInt8) :=
  if j + cs.length ≤ outbuf.length then .ok (Bytes.overwrite outbuf j cs)
  else .error .outOfObject

/-- The loop of `urlDirname` over the rest of the URL; nothing is what `-1` tells. -/
def hostLoop (n : Nat) :
    List UInt8 → List UInt8 → Nat → Except Fault (Option (List UInt8 × Nat))
  | [], outbuf, j => .ok (some (outbuf, j))
  | c :: rest, outbuf, j =>
    if c = slash then .ok (some (outbuf, j))
    else if c = point ∧ rest.head? = some point then .ok none
    else if c = percent ∨ ¬ fssafe c then
      if j + 3 ≥ n then .ok none
      else do
        let outbuf ← writeByte outbuf j percent
        let outbuf ← writeByte outbuf (j + 1) (i2h ((c.toNat &&& 0xF0) >>> 4))
        let outbuf ← writeByte outbuf (j + 2) (i2h (c.toNat &&& 0x0F))
        hostLoop n rest outbuf (j + 3)
    else do
      let outbuf ← writeByte outbuf j c
      if j + 1 ≥ n then .ok none else hostLoop n rest outbuf (j + 1)

/-- `if(outbuf[j - 1] != '/') outbuf[j++] = '/'` -/
def separate (outbuf : List UInt8) (j : Nat) : Except Fault (List UInt8 × Nat) :=
  if outbuf.getD (j - 1) 0 ≠ slash then do
    let outbuf ← writeByte outbuf j slash
    return (outbuf, j + 1)
  else .ok (outbuf, j)

def urlDirname (root : CacheRoot) (stat : Stat) (outbuf : List UInt8) (n : Nat) (url : List UInt8) :
    Except Fault (Option (List UInt8 × Nat)) :=
  if url.length < 8 then .ok none
  else if lwrcmp url (ascii "http://") 7 ≠ 0 then .ok none
  else if cacheRootCheck root stat ≤ 0 then .ok none
  else if n ≤ root.length then .ok none
  else do
    let outbuf ← writeBytes outbuf 0 root.path
    let (outbuf, j) ← separate outbuf root.length
    let some (outbuf, j) ← hostLoop n (url.drop 7) outbuf j | return none
    let outbuf ← writeByte outbuf j slash
    let j := j + 1
    if j ≥ n then return none
    else
      let outbuf ← writeByte outbuf j 0
      return some (outbuf, j)

def urlFilename (root : CacheRoot) (stat : Stat) (md5 : List UInt8 → Digest) (buf : List UInt8)
    (n : Nat) (url : List UInt8) : Except Fault (Option (List UInt8 × Nat)) := do
  let some (buf, j) ← urlDirname root stat buf n url | return none
  if j + 24 ≥ n then return none
  else
    let name ← b64cpy (md5 url).bytes 16 true
    let buf ← writeBytes buf j name
    let buf ← writeByte buf (j + 24) 0
    return some (buf, j + 24)

/-! ## What a name is made of -/

def SafeChar (c : UInt8) : Prop :=
  (97 ≤ c ∧ c ≤ 122) ∨ (65 ≤ c ∧ c ≤ 90) ∨ (48 ≤ c ∧ c ≤ 57) ∨ c = point ∨ c = 45 ∨ c = 95

def HexDigit (c : UInt8) : Prop := (48 ≤ c ∧ c ≤ 57) ∨ (65 ≤ c ∧ c ≤ 70)

/-- A character of the last component: one of `A-Z a-z 0-9 + - =` -/
def NameChar (c : UInt8) : Prop :=
  (65 ≤ c ∧ c ≤ 90) ∨ (97 ≤ c ∧ c ≤ 122) ∨ (48 ≤ c ∧ c ≤ 57) ∨ c = 43 ∨ c = 45 ∨ c = 61

/-- Safe characters, and `%` with two digits behind it. -/
inductive HostText : List UInt8 → Prop
  | nil : HostText []
  | safe {c rest} : SafeChar c → HostText rest → HostText (c :: rest)
  | escape {high low rest} : HexDigit high → HexDigit low → HostText rest →
      HostText (percent :: high :: low :: rest)

/-- What stands behind the scheme up to the first `/`. -/
def hostPart (url : List UInt8) : List UInt8 := (url.drop 7).takeWhile (· ≠ slash)

/-- A byte of the host as it stands in the name. -/
def hostCode (c : UInt8) : List UInt8 :=
  if c = percent ∨ ¬ fssafe c then
    [percent, i2h ((c.toNat &&& 0xF0) >>> 4), i2h (c.toNat &&& 0x0F)]
  else [c]

def encodeHost (host : List UInt8) : List UInt8 := host.flatMap hostCode

/-- The root, with a `/` if it ends in none. -/
def CacheRoot.directory (root : CacheRoot) : List UInt8 :=
  root.path ++ if root.path.getLast? = some slash then [] else [slash]

/-- A file of the root: a directory for the host and a name in it. -/
structure CacheFile (root : CacheRoot) (url path : List UInt8) : Prop where
  shape : ∃ name, path = root.directory ++ encodeHost (hostPart url) ++ [slash] ++ name ∧
    name.length = 24 ∧ ∀ c ∈ name, NameChar c
  host : HostText (encodeHost (hostPart url))
  dots : ¬ [point, point] <:+: encodeHost (hostPart url)
  /-- Behind the root, no component leads up. -/
  inside : ∃ behind, path = root.path ++ behind ∧ [point, point] ∉ behind.splitOn slash

instance (c : UInt8) : Decidable (SafeChar c) := inferInstanceAs (Decidable (_ ∨ _))

instance (c : UInt8) : Decidable (HexDigit c) := inferInstanceAs (Decidable (_ ∨ _))

instance (c : UInt8) : Decidable (NameChar c) := inferInstanceAs (Decidable (_ ∨ _))

/-! ## The text of a buffer -/

section Writes

variable {outbuf outbuf' text cs : List UInt8} {c : UInt8}

/-- A byte written behind the text of a buffer. -/
theorem writeByte_extends (front : text <+: outbuf)
    (writes : writeByte outbuf text.length c = .ok outbuf') : text ++ [c] <+: outbuf' := by
  obtain ⟨more, rfl⟩ := front
  unfold writeByte at writes
  split at writes
  · next inside =>
    cases writes
    cases more with
    | nil => simp at inside
    | cons first more =>
        rw [List.set_append_right _ _ (Nat.le_refl _), Nat.sub_self, List.set_cons_zero]
        exact ⟨more, by simp⟩
  · cases writes

theorem writeBytes_extends (front : text <+: outbuf)
    (writes : writeBytes outbuf text.length cs = .ok outbuf') : text ++ cs <+: outbuf' := by
  obtain ⟨more, rfl⟩ := front
  unfold writeBytes at writes
  split at writes
  · cases writes
    rw [Bytes.overwrite, List.take_left]
    exact List.prefix_append _ _
  · cases writes

end Writes

/-! ## The component for the host -/

section Host

variable {c : UInt8} {host : List UInt8}

theorem hexDigit_i2h : ∀ i < 16, HexDigit (i2h i) := by
  decide

theorem hexDigit_high (c : UInt8) : HexDigit (i2h ((c.toNat &&& 0xF0) >>> 4)) := by
  apply hexDigit_i2h
  have small : c.toNat &&& 0xF0 ≤ 0xF0 := Nat.and_le_right
  rw [Nat.shiftRight_eq_div_pow]
  omega

theorem hexDigit_low (c : UInt8) : HexDigit (i2h (c.toNat &&& 0x0F)) := by
  apply hexDigit_i2h
  have small : c.toNat &&& 0x0F ≤ 0x0F := Nat.and_le_right
  omega

theorem safeChar_of_fssafe (safe : fssafe c = true) : SafeChar c := by
  unfold fssafe at safe
  split at safe
  · cases safe
  · exact of_decide_eq_true safe

theorem encodeHost_cons (c : UInt8) (host : List UInt8) :
    encodeHost (c :: host) = hostCode c ++ encodeHost host := List.flatMap_cons

theorem hostText_encodeHost (host : List UInt8) : HostText (encodeHost host) := by
  induction host with
  | nil => exact .nil
  | cons c host ih =>
      rw [encodeHost_cons, hostCode]
      split
      · exact .escape (hexDigit_high c) (hexDigit_low c) ih
      · next plain =>
        obtain ⟨_, safe⟩ := not_or.mp plain
        exact .safe (safeChar_of_fssafe (not_not.mp safe)) ih

theorem hexDigit_ne_point {h : UInt8} (digit : HexDigit h) : h ≠ point := by
  have noHex : ¬ HexDigit point := by decide
  exact fun same => noHex (same ▸ digit)

/-- Two dots in the code of a host are two in the host. -/
theorem dots_of_encodeHost (apart : ¬ [point, point] <:+: host) :
    ¬ [point, point] <:+: encodeHost host := by
  induction host with
  | nil => exact fun dots => by simp [encodeHost] at dots
  | cons c host ih =>
      rw [List.infix_cons_iff, not_or] at apart
      obtain ⟨first, later⟩ := apart
      have none_later := ih later
      rw [encodeHost_cons, hostCode]
      split
      · have high := hexDigit_ne_point (hexDigit_high c)
        have low := hexDigit_ne_point (hexDigit_low c)
        simp only [List.cons_append, List.nil_append, List.infix_cons_iff, List.cons_prefix_cons,
          not_or]
        refine ⟨fun dots => ?_, fun dots => high dots.1.symm, fun dots => low dots.1.symm, none_later⟩
        exact absurd dots.1 (by decide)
      · next plain =>
        rw [List.singleton_append, List.infix_cons_iff, not_or]
        refine ⟨fun dots => first ?_, none_later⟩
        obtain ⟨isPoint, next⟩ := List.cons_prefix_cons.mp dots
        refine List.cons_prefix_cons.mpr ⟨isPoint, ?_⟩
        -- the code that follows starts with a dot, so the host does
        cases host with
        | nil => simp [encodeHost] at next
        | cons d host =>
            rw [encodeHost_cons, hostCode] at next
            split at next
            · exact absurd (List.cons_prefix_cons.mp next).1 (by decide)
            · rw [List.singleton_append] at next
              exact List.cons_prefix_cons.mpr
                ⟨(List.cons_prefix_cons.mp next).1, List.nil_prefix⟩

/-- No byte of a host text is a `/` or a NUL. -/
theorem HostText.plain {text : List UInt8} (is : HostText text) : ∀ c ∈ text, c ≠ slash ∧ c ≠ 0 := by
  have noHex : ¬ HexDigit slash ∧ ¬ HexDigit 0 := by decide
  have notSafe : ¬ SafeChar slash ∧ ¬ SafeChar 0 := by decide
  have ofHex : ∀ h : UInt8, HexDigit h → h ≠ slash ∧ h ≠ 0 := fun h digit =>
    ⟨fun same => noHex.1 (same ▸ digit), fun same => noHex.2 (same ▸ digit)⟩
  have ofSafe : ∀ c : UInt8, SafeChar c → c ≠ slash ∧ c ≠ 0 := fun c safe =>
    ⟨fun same => notSafe.1 (same ▸ safe), fun same => notSafe.2 (same ▸ safe)⟩
  induction is with
  | nil => simp
  | safe safe _ ih => exact List.forall_mem_cons.mpr ⟨ofSafe _ safe, ih⟩
  | escape high low _ ih =>
      refine List.forall_mem_cons.mpr ⟨by decide, ?_⟩
      exact List.forall_mem_cons.mpr ⟨ofHex _ high, List.forall_mem_cons.mpr ⟨ofHex _ low, ih⟩⟩

end Host

/-! ## The loop and the functions -/

section Names

variable {root : CacheRoot} {stat : Stat} {md5 : List UInt8 → Digest}
variable {n j j' : Nat} {url rest text buf buf' : List UInt8}

/-- The loop writes the code of the host behind the text, and sees no two dots in it. -/
theorem hostLoop_writes (front : text <+: buf)
    (loop : hostLoop n rest buf text.length = .ok (some (buf', j))) :
    text ++ encodeHost (rest.takeWhile (· ≠ slash)) <+: buf' ∧
      j = (text ++ encodeHost (rest.takeWhile (· ≠ slash))).length ∧
      ¬ [point, point] <:+: rest.takeWhile (· ≠ slash) := by
  induction rest generalizing text buf with
  | nil =>
      cases loop
      rw [List.takeWhile_nil, encodeHost, List.flatMap_nil, List.append_nil]
      exact ⟨front, rfl, by simp⟩
  | cons c rest ih =>
      rw [hostLoop] at loop
      by_cases ends : c = slash
      · rw [if_pos ends] at loop
        cases loop
        rw [List.takeWhile_cons_of_neg (by simp [ends]), encodeHost, List.flatMap_nil,
          List.append_nil]
        exact ⟨front, rfl, by simp⟩
      · rw [if_neg ends] at loop
        split at loop
        · cases loop
        · next apart =>
          have undotted : ¬ [point, point] <+: c :: rest.takeWhile (· ≠ slash) := by
            intro dots
            obtain ⟨isPoint, next⟩ := List.cons_prefix_cons.mp dots
            refine apart ⟨isPoint.symm, ?_⟩
            have whole := next.trans (List.takeWhile_prefix _)
            obtain ⟨more, rfl⟩ := whole
            rfl
          rw [List.takeWhile_cons_of_pos (by simp [ends]), encodeHost_cons, ← List.append_assoc,
            List.infix_cons_iff, not_or]
          split at loop
          · next coded =>
            split at loop
            · cases loop
            · obtain ⟨buf1, first, loop⟩ := bind_eq_ok loop
              obtain ⟨buf2, second, loop⟩ := bind_eq_ok loop
              obtain ⟨buf3, third, loop⟩ := bind_eq_ok loop
              have one := writeByte_extends front first
              have two := writeByte_extends one (by rw [List.length_append]; exact second)
              have three := writeByte_extends two (by
                rw [List.length_append, List.length_append]
                exact third)
              have code : text ++ hostCode c = text ++ [percent] ++
                  [i2h ((c.toNat &&& 0xF0) >>> 4)] ++ [i2h (c.toNat &&& 0x0F)] := by
                rw [hostCode, if_pos coded]
                simp
              rw [← code] at three
              have length : (text ++ hostCode c).length = text.length + 3 := by
                rw [hostCode, if_pos coded, List.length_append]
                rfl
              rw [← length] at loop
              obtain ⟨written, same, later⟩ := ih three loop
              exact ⟨written, same, undotted, later⟩
          · next plain =>
            obtain ⟨buf1, first, loop⟩ := bind_eq_ok loop
            have one := writeByte_extends front first
            have code : hostCode c = [c] := if_neg plain
            split at loop
            · cases loop
            · rw [show text.length + 1 = (text ++ [c]).length by simp] at loop
              obtain ⟨written, same, later⟩ := ih one loop
              rw [code]
              exact ⟨written, same, undotted, later⟩

/-- Behind the root, a `/` is written where the root ends in none. -/
theorem separate_eq (some_ : root.path ≠ []) (front : root.path <+: buf) :
    separate buf root.length =
      if root.path.getLast? = some slash then .ok (buf, root.length)
      else do
        let outbuf ← writeByte buf root.length slash
        return (outbuf, root.length + 1) := by
  have last : buf[root.length - 1]? = root.path.getLast? := by
    obtain ⟨more, rfl⟩ := front
    have positive := List.length_pos_of_ne_nil some_
    rw [List.getLast?_eq_getElem?, CacheRoot.length, List.getElem?_append_left (by omega)]
  rw [separate, List.getD_eq_getElem?_getD, last]
  by_cases ends : root.path.getLast? = some slash
  · rw [if_pos ends, ends]
    exact if_neg (by simp)
  · have other : root.path.getLast?.getD 0 ≠ slash := by
      cases at_end : root.path.getLast? with
      | none => exact absurd (List.getLast?_eq_none_iff.mp at_end) some_
      | some c => exact fun same => ends (at_end.trans (congrArg some same))
    rw [if_neg ends]
    exact if_pos other

theorem separate_writes (some_ : root.path ≠ []) (front : root.path <+: buf)
    (separates : separate buf root.length = .ok (buf', j)) :
    root.directory <+: buf' ∧ j = root.directory.length := by
  rw [separate_eq some_ front] at separates
  unfold CacheRoot.directory
  split at separates
  · next ends =>
    cases separates
    rw [if_pos ends, List.append_nil]
    exact ⟨front, rfl⟩
  · next bare =>
    obtain ⟨buf1, writes, rest⟩ := bind_eq_ok separates
    cases rest
    rw [if_neg bare]
    exact ⟨writeByte_extends front writes, by simp [CacheRoot.length]⟩

theorem path_nonempty (checked : 0 < cacheRootCheck root stat) : root.path ≠ [] := by
  intro empty
  rw [cacheRootCheck, CacheRoot.length, empty] at checked
  exact Int.lt_irrefl 0 checked

/-- The directory of a URL: the root, and a component for the host. -/
theorem urlDirname_writes (made : urlDirname root stat buf n url = .ok (some (buf', j))) :
    root.directory ++ encodeHost (hostPart url) ++ [slash] ++ [0] <+: buf' ∧
      j = (root.directory ++ encodeHost (hostPart url) ++ [slash]).length ∧
      ¬ [point, point] <:+: hostPart url := by
  unfold urlDirname at made
  split at made
  · cases made
  · split at made
    · cases made
    · split at made
      · cases made
      · next checked =>
        have some_ : root.path ≠ [] := path_nonempty (Int.not_le.mp checked)
        split at made
        · cases made
        · obtain ⟨buf1, copies, made⟩ := bind_eq_ok made
          obtain ⟨⟨buf2, j2⟩, separates, made⟩ := bind_eq_ok made
          have front : root.path <+: buf1 := writeBytes_extends List.nil_prefix copies
          obtain ⟨directory, rfl⟩ := separate_writes some_ front separates
          obtain ⟨looped, loop, made⟩ := bind_eq_ok made
          cases looped with
          | none => cases made
          | some result =>
              obtain ⟨buf3, j3⟩ := result
              obtain ⟨host, rfl, apart⟩ := hostLoop_writes directory loop
              obtain ⟨buf4, closes, made⟩ := bind_eq_ok made
              have closed := writeByte_extends host closes
              dsimp only at made
              split at made
              · cases made
              · obtain ⟨buf5, ends, made⟩ := bind_eq_ok made
                have length : ∀ text : List UInt8, (text ++ [slash]).length = text.length + 1 :=
                  fun _ => List.length_append
                cases made
                have ended := writeByte_extends closed (by rw [length]; exact ends)
                exact ⟨ended, (length _).symm, apart⟩

theorem dirname_string (root : CacheRoot) (url : List UInt8) :
    ∀ c ∈ root.directory ++ encodeHost (hostPart url) ++ [slash], c ≠ 0 := by
  intro c member
  rw [List.mem_append, List.mem_append] at member
  rcases member with (ofRoot | ofHost) | ofSlash
  · rw [CacheRoot.directory, List.mem_append] at ofRoot
    rcases ofRoot with inPath | separator
    · exact root.string c inPath
    · split at separator
      · cases separator
      · rw [List.mem_singleton.mp separator]
        decide
  · exact ((hostText_encodeHost _).plain c ofHost).2
  · rw [List.mem_singleton.mp ofSlash]
    decide

theorem nameChar_of_b64fss : ∀ c ∈ b64fss, NameChar c := by
  decide +kernel

/-- A path made is the C string in the buffer. -/
theorem urlFilename_writes (made : urlFilename root stat md5 buf n url = .ok (some (buf', j))) :
    ∃ name, b64cpy (md5 url).bytes 16 true = .ok name ∧ name.length = 24 ∧
      (∀ c ∈ name, NameChar c) ∧
      cString buf' = root.directory ++ encodeHost (hostPart url) ++ [slash] ++ name ∧
      j = (cString buf').length ∧ ¬ [point, point] <:+: hostPart url := by
  rw [urlFilename] at made
  obtain ⟨directory, dirname, made⟩ := bind_eq_ok made
  cases directory with
  | none => cases made
  | some result =>
      obtain ⟨buf1, j1⟩ := result
      obtain ⟨ended, rfl, apart⟩ := urlDirname_writes dirname
      have front := (List.prefix_append _ _).trans ended
      obtain ⟨name, copies, length, letters⟩ := b64cpy_ok (md5 url).whole.ge true
      dsimp only at made
      split at made
      · cases made
      · rw [copies, ok_bind] at made
        obtain ⟨buf2, writes, made⟩ := bind_eq_ok made
        obtain ⟨buf3, ends, made⟩ := bind_eq_ok made
        cases made
        have whole := writeBytes_extends front writes
        have total : (root.directory ++ encodeHost (hostPart url) ++ [slash]).length + 24 =
            (root.directory ++ encodeHost (hostPart url) ++ [slash] ++ name).length := by
          have size : name.length = 24 := length
          simp only [List.length_append, size]
        rw [total] at ends
        have ended := writeByte_extends whole ends
        have named : ∀ c ∈ name, NameChar c := by
          intro c member
          rcases letters c member with known | fill
          · exact nameChar_of_b64fss c known
          · rw [fill]
            decide
        have noNul : ¬ NameChar 0 := by decide
        have text : cString buf' = root.directory ++ encodeHost (hostPart url) ++ [slash] ++ name := by
          obtain ⟨more, rfl⟩ := ended
          rw [List.append_assoc _ [0]]
          apply cString_append
          intro c member
          rcases List.mem_append.mp member with ofDirectory | ofName
          · exact dirname_string root url c ofDirectory
          · exact fun zero => noNul (zero ▸ named c ofName)
        refine ⟨name, copies, length, named, text, ?_, apart⟩
        rw [text]
        exact total

/-- The path of a URL is that of a file of the root. -/
theorem urlFilename_inside (made : urlFilename root stat md5 buf n url = .ok (some (buf', j))) :
    CacheFile root url (cString buf') ∧ j = (cString buf').length := by
  obtain ⟨name, -, length, letters, text, counted, apart⟩ := urlFilename_writes made
  have host := hostText_encodeHost (hostPart url)
  have dots := dots_of_encodeHost apart
  refine ⟨⟨⟨name, text, length, letters⟩, host, dots, ?_⟩, counted⟩
  have hostOne : slash ∉ encodeHost (hostPart url) := fun member => (host.plain slash member).1 rfl
  have nameOne : slash ∉ name := fun member => absurd (letters slash member) (by decide)
  have components : [point, point] ∉
      (encodeHost (hostPart url) ++ slash :: name).splitOn slash := by
    rw [List.splitOn_append_cons_self_of_not_mem hostOne, List.splitOn_eq_singleton nameOne]
    intro member
    rcases List.mem_cons.mp member with isHost | isName
    · exact dots (isHost ▸ List.infix_refl _)
    · rw [← List.mem_singleton.mp isName] at length
      cases length
  rw [text, CacheRoot.directory]
  by_cases ends : root.path.getLast? = some slash
  · refine ⟨encodeHost (hostPart url) ++ slash :: name, ?_, components⟩
    rw [if_pos ends]
    simp
  · refine ⟨slash :: (encodeHost (hostPart url) ++ slash :: name), ?_, ?_⟩
    · rw [if_neg ends]
      simp
    · rw [List.splitOn_cons_eq_if_modifyHead, if_pos (by simp)]
      intro member
      rcases List.mem_cons.mp member with empty | later
      · cases empty
      · exact components later

end Names

def sampleRoot : CacheRoot where
  path := [slash, 99]
  string := by simp [slash]

/-- All paths are directories. -/
def allDirectories : Stat := fun _ => some true

def zeroDigest : Digest := ⟨List.replicate 16 0, rfl⟩

theorem sample_made :
    urlFilename sampleRoot allDirectories (fun _ => zeroDigest) (List.replicate 30 1) 30
      (ascii "http://a") = .ok (some (ascii "/c/a/AAAAAAAAAAAAAAAAAAAAAA==" ++ [0], 29)) := by
  decide +kernel

theorem urlFilename_sample :
    CacheFile sampleRoot (ascii "http://a")
        (cString (ascii "/c/a/AAAAAAAAAAAAAAAAAAAAAA==" ++ [0])) ∧
      29 = (cString (ascii "/c/a/AAAAAAAAAAAAAAAAAAAAAA==" ++ [0])).length :=
  urlFilename_inside sample_made

end Poplar.HttpCache
