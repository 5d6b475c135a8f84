import Poplar.HttpCache.UrlFilename

/-!
# Which names are told apart

The directory of a URL tells its host, and the last component the digest. Both are written
within the buffer, but for one byte of a buffer that the root fills up.
-/
namespace Poplar.HttpCache

open Http (ascii slash point)

/-! ## The name of a file -/

def digestName (digest : Digest) : List UInt8 :=
  match b64cpy digest.bytes 16 true with
  | .ok name => name
  | .error _ => []

def cacheName (root : CacheRoot) (md5 : List UInt8 → Digest) (url : List UInt8) : List UInt8 :=
  root.directory ++ encodeHost (hostPart url) ++ [slash] ++ digestName (md5 url)

section Name

variable {root : CacheRoot} {stat : Stat} {md5 : List UInt8 → Digest}
variable {n j : Nat} {url url' buf buf' : List UInt8}

theorem cString_made (made : urlFilename root stat md5 buf n url = .ok (some (buf', j))) :
    cString buf' = cacheName root md5 url := by
  obtain ⟨name, encoded, -, -, text, -⟩ := urlFilename_writes made
  rw [text, cacheName, digestName, encoded]

theorem digestName_length (digest : Digest) : (digestName digest).length = 24 := by
  obtain ⟨name, encoded, length, -⟩ := b64cpy_ok digest.whole.ge true
  rw [digestName, encoded]
  exact length

theorem digestName_injective {digest digest' : Digest}
    (same : digestName digest = digestName digest') : digest.bytes = digest'.bytes := by
  have decoded : ∀ digest : Digest,
      Codes.decode b64fss 61 (digestName digest) = some digest.bytes := by
    intro digest
    obtain ⟨name, encoded, -, read⟩ := b64cpy_decodes digest.bytes true
    rw [digest.whole] at encoded
    rw [digestName, encoded]
    exact read
  exact Option.some.inj ((decoded digest).symm.trans (same ▸ decoded digest'))

/-- URLs of different digests have different files. -/
theorem cacheName_apart (apart : (md5 url).bytes ≠ (md5 url').bytes) :
    cacheName root md5 url ≠ cacheName root md5 url' := by
  intro same
  have lengths : (digestName (md5 url)).length = (digestName (md5 url')).length := by
    rw [digestName_length, digestName_length]
  exact apart (digestName_injective (List.append_inj' same lengths).2)

end Name

/-- Any bytes are read back from their base64, and names of different digests differ. -/
theorem b64cpy_lossless (src : List UInt8) (fss : Bool) :
    (∃ out, b64cpy src src.length fss = .ok out ∧ out.length = 4 * ((src.length + 2) / 3) ∧
      Codes.decode (if fss then b64fss else b64) 61 out = some src) ∧
    ∀ (root : CacheRoot) (stat stat' : Stat) (md5 : List UInt8 → Digest) (n n' j j' : Nat)
      (url url' buf buf' out out' : List UInt8),
      urlFilename root stat md5 buf n url = .ok (some (out, j)) →
      urlFilename root stat' md5 buf' n' url' = .ok (some (out', j')) →
      (md5 url).bytes ≠ (md5 url').bytes → cString out ≠ cString out' := by
  refine ⟨b64cpy_decodes src fss, ?_⟩
  intro root stat stat' md5 n n' j j' url url' buf buf' out out' made made' apart
  rw [cString_made made, cString_made made']
  exact cacheName_apart apart

/-- The digest of all zeros, and for one URL that of all ones. -/
def twoDigests (url : List UInt8) : Digest :=
  if url = ascii "http://b" then ⟨List.replicate 16 255, rfl⟩ else zeroDigest

theorem two_digests_made :
    urlFilename sampleRoot allDirectories twoDigests (List.replicate 30 1) 30 (ascii "http://a") =
        .ok (some (ascii "/c/a/AAAAAAAAAAAAAAAAAAAAAA==" ++ [0], 29)) ∧
      urlFilename sampleRoot allDirectories twoDigests (List.replicate 30 1) 30 (ascii "http://b") =
        .ok (some (ascii "/c/b/---------------------w==" ++ [0], 29)) := by
  decide +kernel

theorem b64cpy_lossless_sample :
    cString (ascii "/c/a/AAAAAAAAAAAAAAAAAAAAAA==" ++ [0]) ≠
      cString (ascii "/c/b/---------------------w==" ++ [0]) :=
  (b64cpy_lossless [] true).2 _ _ _ _ _ _ _ _ _ _ _ _ _ _ two_digests_made.1 two_digests_made.2
    (by decide +kernel)

/-! ## Hosts -/

section Hosts

theorem i2h_injective : ∀ i < 16, ∀ k < 16, i2h i = i2h k → i = k := by
  decide

theorem high_half (c : UInt8) : (c.toNat &&& 0xF0) >>> 4 = c.toNat / 16 := by
  have small := c.toNat_lt
  rw [Nat.shiftRight_and_distrib, Nat.shiftRight_eq_div_pow]
  exact (low_bits (c.toNat / 16) 4).trans (Nat.mod_eq_of_lt (by omega))

theorem low_half (c : UInt8) : c.toNat &&& 0x0F = c.toNat % 16 := low_bits c.toNat 4

theorem escape_injective {c d : UInt8}
    (high : i2h ((c.toNat &&& 0xF0) >>> 4) = i2h ((d.toNat &&& 0xF0) >>> 4))
    (low : i2h (c.toNat &&& 0x0F) = i2h (d.toNat &&& 0x0F)) : c = d := by
  have smallC := c.toNat_lt
  have smallD := d.toNat_lt
  rw [high_half, high_half] at high
  rw [low_half, low_half] at low
  have above := i2h_injective _ (by omega) _ (by omega) high
  have below := i2h_injective _ (by omega) _ (by omega) low
  apply UInt8.toNat_inj.mp
  omega

/-- A character that stands for itself is no `%`, which starts the three for any other one. -/
theorem hostCode_prefixFree : Codes.PrefixFree hostCode := by
  constructor
  · intro c
    rw [hostCode]
    split <;> simp
  · intro c d begins
    by_cases coded : c = percent ∨ ¬ fssafe c
    · by_cases other : d = percent ∨ ¬ fssafe d
      · rw [hostCode, hostCode, if_pos coded, if_pos other] at begins
        have same := begins.eq_of_length rfl
        simp only [List.cons.injEq, and_true, true_and] at same
        exact escape_injective same.1 same.2
      · rw [hostCode, hostCode, if_pos coded, if_neg other] at begins
        exact absurd begins.length_le (by simp)
    · have first : c ∈ hostCode d := by
        apply begins.subset
        rw [hostCode, if_neg coded]
        exact List.mem_singleton_self c
      by_cases other : d = percent ∨ ¬ fssafe d
      · rw [hostCode, hostCode, if_neg coded, if_pos other] at begins
        exact absurd (.inl (List.cons_prefix_cons.mp begins).1) coded
      · rw [hostCode, if_neg other] at first
        exact List.mem_singleton.mp first

theorem encodeHost_injective : Function.Injective encodeHost :=
  hostCode_prefixFree.flatMap_injective

variable {root : CacheRoot} {stat stat' : Stat} {n n' j j' : Nat}
variable {url url' buf buf' out out' : List UInt8}

/-- A directory made is the C string in the buffer. -/
theorem urlDirname_text (made : urlDirname root stat buf n url = .ok (some (out, j))) :
    cString out = root.directory ++ encodeHost (hostPart url) ++ [slash] ∧
      j = (cString out).length := by
  obtain ⟨front, counted, -⟩ := urlDirname_writes made
  obtain ⟨more, rfl⟩ := front
  have text : cString (root.directory ++ encodeHost (hostPart url) ++ [slash] ++ [0] ++ more) =
      root.directory ++ encodeHost (hostPart url) ++ [slash] := by
    rw [List.append_assoc _ [0]]
    exact cString_append (dirname_string root url)
  refine ⟨text, ?_⟩
  rw [text]
  exact counted

/-- Two URLs have the same directory if and only if they have the same host. -/
theorem urlDirname_eq_iff (made : urlDirname root stat buf n url = .ok (some (out, j)))
    (made' : urlDirname root stat' buf' n' url' = .ok (some (out', j'))) :
    cString out = cString out' ↔ hostPart url = hostPart url' := by
  rw [(urlDirname_text made).1, (urlDirname_text made').1]
  constructor
  · intro same
    have hosts := List.append_cancel_left (List.append_cancel_right same)
    exact encodeHost_injective hosts
  · intro same
    rw [same]

end Hosts

/-- A host of one plain character, in a buffer that has two bytes more than are used. -/
theorem plain_made :
    urlDirname sampleRoot allDirectories (List.replicate 8 1) 8 (ascii "http://a") =
      .ok (some (ascii "/c/a/" ++ [0, 1, 1], 5)) := by
  decide +kernel

theorem escaped_made :
    urlDirname sampleRoot allDirectories (List.replicate 8 1) 8 (ascii "http://%/a") =
      .ok (some (ascii "/c/%25/" ++ [0], 7)) := by
  decide +kernel

theorem urlDirname_eq_sample :
    cString (ascii "/c/a/" ++ [0, 1, 1]) = cString (ascii "/c/%25/" ++ [0]) ↔
      hostPart (ascii "http://a") = hostPart (ascii "http://%/a") :=
  urlDirname_eq_iff plain_made escaped_made

/-! ## Room -/

/-- The bytes behind the scheme begin with nothing that is written out longer, and not with what
is refused. -/
def WrittenAtOnce (rest : List UInt8) : Prop :=
  ∀ c ∈ rest.head?, c ≠ slash → ¬ (c = point ∧ rest.tail.head? = some point) ∧ c ≠ percent ∧
    fssafe c = true

/-- The root takes all of the buffer but one byte, and needs a `/` behind it; what comes next is
one byte of the name. -/
structure Overrun (root : CacheRoot) (n : Nat) (url : List UInt8) : Prop where
  bare : root.path.getLast? ≠ some slash
  full : n = root.length + 1
  long : 8 ≤ url.length
  scheme : lwrcmp url (ascii "http://") 7 = 0
  written : WrittenAtOnce (url.drop 7)

/-- All writes stay in the buffer of `n` bytes, and what is told is where the NUL is. -/
def Bounded (n : Nat) (made : Except Fault (Option (List UInt8 × Nat))) : Prop :=
  ∃ result, made = .ok result ∧ ∀ out j, result = some (out, j) →
    out.length = n ∧ j < n ∧ out[j]? = some 0 ∧ j = (cString out).length

section Room

variable {root : CacheRoot} {stat : Stat} {md5 : List UInt8 → Digest} {n j : Nat}
variable {url rest buf : List UInt8} {c : UInt8}

theorem writeByte_ok (room : j < buf.length) (c : UInt8) :
    writeByte buf j c = .ok (buf.set j c) := if_pos room

/-- With a byte left, the loop stays in the buffer and leaves a byte. -/
theorem hostLoop_bounded (rest : List UInt8) (size : buf.length = n) (room : j < n) :
    ∃ looped, hostLoop n rest buf j = .ok looped ∧
      ∀ out k, looped = some (out, k) → out.length = n ∧ k < n := by
  induction rest generalizing buf j with
  | nil =>
      refine ⟨_, rfl, ?_⟩
      rintro out k ⟨⟩
      exact ⟨size, room⟩
  | cons c rest ih =>
      rw [hostLoop]
      split
      · refine ⟨_, rfl, ?_⟩
        rintro out k ⟨⟩
        exact ⟨size, room⟩
      · split
        · exact ⟨none, rfl, by simp⟩
        · split
          · split
            · exact ⟨none, rfl, by simp⟩
            · rw [writeByte_ok (by omega), ok_bind,
                writeByte_ok (by rw [List.length_set]; omega), ok_bind,
                writeByte_ok (by rw [List.length_set, List.length_set]; omega), ok_bind]
              apply ih
              · simpa using size
              · omega
          · rw [writeByte_ok (by omega), ok_bind]
            split
            · exact ⟨none, rfl, by simp⟩
            · apply ih
              · simpa using size
              · omega

/-- What `urlDirname` does behind the root. -/
def closeHost (n : Nat) (rest outbuf : List UInt8) (j : Nat) :
    Except Fault (Option (List UInt8 × Nat)) := do
  let some (outbuf, j) ← hostLoop n rest outbuf j | return none
  let outbuf ← writeByte outbuf j slash
  let j := j + 1
  if j ≥ n then return none
  else
    let outbuf ← writeByte outbuf j 0
    return some (outbuf, j)

theorem closeHost_bounded (size : buf.length = n) (room : j < n) :
    ∃ result, closeHost n rest buf j = .ok result ∧
      ∀ out k, result = some (out, k) → out.length = n ∧ k < n := by
  obtain ⟨looped, loop, inside⟩ := hostLoop_bounded rest size room
  rw [closeHost, loop, ok_bind]
  cases looped with
  | none => exact ⟨none, rfl, by simp⟩
  | some result =>
      obtain ⟨out, k⟩ := result
      obtain ⟨length, left⟩ := inside out k rfl
      dsimp only
      rw [writeByte_ok (by omega), ok_bind]
      split
      · exact ⟨none, rfl, by simp⟩
      · rw [writeByte_ok (by rw [List.length_set]; omega), ok_bind]
        refine ⟨_, rfl, ?_⟩
        rintro out' k' ⟨⟩
        constructor
        · rw [List.length_set, List.length_set, length]
        · omega

/-- Where the root leaves no byte, the next one is written behind the buffer, -/
theorem closeHost_full (size : buf.length = n) (written : WrittenAtOnce rest) :
    closeHost n rest buf n = .error .outOfObject := by
  have beyond : ∀ c, writeByte buf n c = .error .outOfObject := fun c => if_neg (by omega)
  have stops : hostLoop n rest buf n = .ok (some (buf, n)) →
      closeHost n rest buf n = .error .outOfObject := by
    intro loop
    rw [closeHost, loop, ok_bind]
    dsimp only
    rw [beyond]
    rfl
  cases rest with
  | nil => exact stops rfl
  | cons c rest =>
      by_cases ends : c = slash
      · apply stops
        rw [hostLoop]
        exact if_pos ends
      · obtain ⟨undotted, plain, safe⟩ := written c rfl ends
        rw [List.tail_cons] at undotted
        have uncoded : ¬ (c = percent ∨ ¬ fssafe c) := by
          rintro (isPercent | refused)
          · exact plain isPercent
          · exact refused safe
        rw [closeHost, hostLoop, if_neg ends, if_neg undotted, if_neg uncoded, beyond]
        rfl

/-- unless the URL is refused there. -/
theorem closeHost_refused (buf : List UInt8) (n : Nat) (unwritten : ¬ WrittenAtOnce rest) :
    closeHost n rest buf n = .ok none := by
  have refused : hostLoop n rest buf n = .ok none := by
    cases rest with
    | nil => exact absurd (by rintro c ⟨⟩) unwritten
    | cons c rest =>
        rw [hostLoop]
        have head : ¬ (c ≠ slash → ¬ (c = point ∧ rest.head? = some point) ∧ c ≠ percent ∧
            fssafe c = true) := by
          intro written
          apply unwritten
          rintro d ⟨⟩
          exact written
        obtain ⟨more, rejected⟩ := Classical.not_imp.mp head
        rw [if_neg more]
        by_cases dots : c = point ∧ rest.head? = some point
        · exact if_pos dots
        · have coded : c = percent ∨ ¬ fssafe c := by
            by_contra plain
            obtain ⟨other, safe⟩ := not_or.mp plain
            exact rejected ⟨dots, other, not_not.mp safe⟩
          rw [if_neg dots, if_pos coded, if_pos (by omega)]
  rw [closeHost, refused]
  rfl

/-- `urlDirname` where the URL, the root and the size pass the checks before the first write. -/
theorem urlDirname_passed (long : 8 ≤ url.length) (scheme : lwrcmp url (ascii "http://") 7 = 0)
    (checked : 0 < cacheRootCheck root stat) (fits : root.length < n) (size : buf.length = n) :
    ∃ front, front.length = n ∧ urlDirname root stat buf n url =
      if root.path.getLast? = some slash then closeHost n (url.drop 7) front root.length
      else closeHost n (url.drop 7) (front.set root.length slash) (root.length + 1) := by
  have copied : writeBytes buf 0 root.path = .ok (Bytes.overwrite buf 0 root.path) := by
    apply if_pos
    rw [CacheRoot.length] at fits
    omega
  have length : (Bytes.overwrite buf 0 root.path).length = n := by
    rw [Bytes.overwrite_length, size]
    rw [CacheRoot.length] at fits
    omega
  refine ⟨Bytes.overwrite buf 0 root.path, length, ?_⟩
  rw [urlDirname, if_neg (by omega), if_neg (by simpa using scheme), if_neg (by omega),
    if_neg (by omega), copied, ok_bind,
    separate_eq (path_nonempty checked) (writeBytes_extends List.nil_prefix copied)]
  split
  · rfl
  · rw [writeByte_ok (by omega)]
    rfl

/-- The buffer keeps its size, and what is told is an index of it. -/
def Kept (n : Nat) (made : Except Fault (Option (List UInt8 × Nat))) : Prop :=
  ∃ result, made = .ok result ∧ ∀ out k, result = some (out, k) → out.length = n ∧ k < n

theorem kept_none : Kept n (.ok none) := ⟨none, rfl, by simp⟩

theorem urlDirname_overruns (checked : 0 < cacheRootCheck root stat) (size : buf.length = n)
    (overrun : Overrun root n url) : urlDirname root stat buf n url = .error .outOfObject := by
  have fits : root.length < n := by
    rw [overrun.full]
    exact Nat.lt_succ_self _
  obtain ⟨front, length, passed⟩ := urlDirname_passed overrun.long overrun.scheme checked fits size
  rw [passed, if_neg overrun.bare, ← overrun.full]
  exact closeHost_full (by rw [List.length_set, length]) overrun.written

/-- A root that does not pass the check has no directories. -/
theorem urlDirname_unchecked (unchecked : ¬ 0 < cacheRootCheck root stat) :
    urlDirname root stat buf n url = .ok none := by
  unfold urlDirname
  split
  · rfl
  · split
    · rfl
    · exact if_pos (Int.not_lt.mp unchecked)

/-- The directory stays in the buffer if and only if the root does not fill it up. -/
theorem urlDirname_kept_iff (checked : 0 < cacheRootCheck root stat) (size : buf.length = n) :
    Kept n (urlDirname root stat buf n url) ↔ ¬ Overrun root n url := by
  by_cases long : 8 ≤ url.length
  · by_cases scheme : lwrcmp url (ascii "http://") 7 = 0
    · by_cases fits : root.length < n
      · obtain ⟨front, length, passed⟩ := urlDirname_passed long scheme checked fits size
        rw [passed]
        split
        · next ends =>
          exact iff_of_true (closeHost_bounded length fits) fun overrun => overrun.bare ends
        · next bare =>
          by_cases full : n = root.length + 1
          · by_cases written : WrittenAtOnce (url.drop 7)
            · have overrun : Overrun root n url := ⟨bare, full, long, scheme, written⟩
              have faults := passed.symm.trans (urlDirname_overruns checked size overrun)
              rw [if_neg bare] at faults
              refine iff_of_false ?_ (not_not.mpr overrun)
              rintro ⟨result, made, -⟩
              cases faults.symm.trans made
            · rw [← full, closeHost_refused _ _ written]
              exact iff_of_true kept_none fun overrun => written overrun.written
          · refine iff_of_true (closeHost_bounded ?_ (by omega)) fun overrun => full overrun.full
            rw [List.length_set, length]
      · have refused : urlDirname root stat buf n url = .ok none := by
          rw [urlDirname, if_neg (by omega), if_neg (by simpa using scheme), if_neg (by omega),
            if_pos (by omega)]
        rw [refused]
        refine iff_of_true kept_none fun overrun => fits ?_
        rw [overrun.full]
        exact Nat.lt_succ_self _
    · have refused : urlDirname root stat buf n url = .ok none := by
        rw [urlDirname, if_neg (by omega), if_pos scheme]
      rw [refused]
      exact iff_of_true kept_none fun overrun => scheme overrun.scheme
  · have refused : urlDirname root stat buf n url = .ok none := by
      rw [urlDirname, if_pos (by omega)]
    rw [refused]
    exact iff_of_true kept_none fun overrun => long overrun.long

/-- The digest stays in the buffer behind a directory that does. -/
theorem urlFilename_kept (md5 : List UInt8 → Digest)
    (kept : Kept n (urlDirname root stat buf n url)) :
    Kept n (urlFilename root stat md5 buf n url) := by
  obtain ⟨result, dirname, inside⟩ := kept
  rw [urlFilename, dirname, ok_bind]
  cases result with
  | none => exact kept_none
  | some made =>
      obtain ⟨out, k⟩ := made
      obtain ⟨length, index⟩ := inside out k rfl
      obtain ⟨name, copies, letters, -⟩ := b64cpy_ok (md5 url).whole.ge true
      have count : name.length = 24 := letters
      dsimp only
      split
      · exact kept_none
      · next room =>
        have writes : writeBytes out k name = .ok (Bytes.overwrite out k name) := if_pos (by omega)
        have same : (Bytes.overwrite out k name).length = n := by
          rw [Bytes.overwrite_length (by omega), length]
        rw [copies, ok_bind, writes, ok_bind, writeByte_ok (by omega), ok_bind]
        refine ⟨_, rfl, ?_⟩
        rintro out' k' ⟨⟩
        constructor
        · rw [List.length_set, same]
        · omega

/-- A C string that does not fill its buffer ends at a NUL. -/
theorem cString_ends {s : List UInt8} (short : (cString s).length < s.length) :
    s[(cString s).length]? = some 0 := by
  induction s with
  | nil => cases short
  | cons c s ih =>
      by_cases ends : c = 0
      · subst ends
        rfl
      · have head : cString (c :: s) = c :: cString s :=
          List.takeWhile_cons_of_pos (by simpa using ends)
        rw [head, List.length_cons, List.length_cons] at short
        rw [head, List.length_cons, List.getElem?_cons_succ]
        exact ih (Nat.lt_of_succ_lt_succ short)

end Room

/-! ## Names that are made -/

section Made

variable {root : CacheRoot} {stat : Stat} {n j : Nat} {url rest buf : List UInt8}

/-- With room for the host, the loop gets to its end. -/
theorem hostLoop_ends (size : buf.length = n)
    (room : j + (encodeHost (rest.takeWhile (· ≠ slash))).length < n)
    (apart : ¬ [point, point] <:+: rest.takeWhile (· ≠ slash)) :
    ∃ out, hostLoop n rest buf j =
        .ok (some (out, j + (encodeHost (rest.takeWhile (· ≠ slash))).length)) ∧ out.length = n := by
  induction rest generalizing buf j with
  | nil => exact ⟨buf, rfl, size⟩
  | cons c rest ih =>
      rw [hostLoop]
      by_cases ends : c = slash
      · rw [if_pos ends, List.takeWhile_cons_of_neg (by simp [ends])]
        exact ⟨buf, rfl, size⟩
      · rw [List.takeWhile_cons_of_pos (by simpa using ends), encodeHost_cons,
          List.length_append] at room ⊢
        rw [List.takeWhile_cons_of_pos (by simpa using ends), List.infix_cons_iff, not_or] at apart
        have undotted : ¬ (c = point ∧ rest.head? = some point) := by
          rintro ⟨isPoint, next⟩
          apply apart.1
          cases rest with
          | nil => cases next
          | cons d rest =>
              cases next
              rw [isPoint, List.takeWhile_cons_of_pos (by decide)]
              exact List.prefix_append [point, point] _
        rw [if_neg ends, if_neg undotted]
        by_cases coded : c = percent ∨ ¬ fssafe c
        · have three : (hostCode c).length = 3 := by
            rw [hostCode, if_pos coded]
            rfl
          rw [three] at room ⊢
          rw [if_pos coded, if_neg (by omega), writeByte_ok (by omega), ok_bind,
            writeByte_ok (by rw [List.length_set]; omega), ok_bind,
            writeByte_ok (by rw [List.length_set, List.length_set]; omega), ok_bind, ← Nat.add_assoc]
          apply ih
          · simpa using size
          · omega
          · exact apart.2
        · have one : (hostCode c).length = 1 := by
            rw [hostCode, if_neg coded]
            rfl
          rw [one] at room ⊢
          rw [if_neg coded, writeByte_ok (by omega), ok_bind, if_neg (by omega), ← Nat.add_assoc]
          apply ih
          · simpa using size
          · omega
          · exact apart.2

theorem closeHost_ends (rest buf : List UInt8) (size : buf.length = n)
    (room : j + (encodeHost (rest.takeWhile (· ≠ slash))).length + 1 < n)
    (apart : ¬ [point, point] <:+: rest.takeWhile (· ≠ slash)) :
    ∃ out, closeHost n rest buf j =
        .ok (some (out, j + (encodeHost (rest.takeWhile (· ≠ slash))).length + 1)) ∧
      out.length = n := by
  obtain ⟨out, loop, length⟩ := hostLoop_ends size (Nat.lt_of_succ_lt room) apart
  rw [closeHost, loop, ok_bind]
  dsimp only
  rw [writeByte_ok (by omega), ok_bind, if_neg (by omega),
    writeByte_ok (by rw [List.length_set]; omega), ok_bind]
  exact ⟨_, rfl, by rw [List.length_set, List.length_set, length]⟩

theorem directory_length (root : CacheRoot) :
    root.directory.length =
      if root.path.getLast? = some slash then root.length else root.length + 1 := by
  unfold CacheRoot.directory
  split
  · rw [List.append_nil, CacheRoot.length]
  · rw [List.length_append, CacheRoot.length]
    rfl

/-- With room for all of it, the name of a URL is made. -/
theorem urlFilename_made (long : 8 ≤ url.length) (scheme : lwrcmp url (ascii "http://") 7 = 0)
    (checked : 0 < cacheRootCheck root stat) (size : buf.length = n)
    (room : root.directory.length + (encodeHost (hostPart url)).length + 25 < n)
    (apart : ¬ [point, point] <:+: hostPart url) (md5 : List UInt8 → Digest) :
    ∃ out j, urlFilename root stat md5 buf n url = .ok (some (out, j)) := by
  have separator := directory_length root
  have fits : root.length < n := by
    split at separator <;> omega
  have dirname : ∃ out k, urlDirname root stat buf n url = .ok (some (out, k)) ∧ out.length = n ∧
      k = root.directory.length + (encodeHost (hostPart url)).length + 1 := by
    obtain ⟨front, length, passed⟩ := urlDirname_passed long scheme checked fits size
    rw [passed]
    split at separator
    · next ends =>
      rw [separator] at room
      obtain ⟨out, closes, same⟩ := closeHost_ends (url.drop 7) front length
        (Nat.lt_of_le_of_lt (Nat.add_le_add_left (by decide : 1 ≤ 25) _) room) apart
      rw [if_pos ends, closes, separator]
      exact ⟨_, _, rfl, same, rfl⟩
    · next bare =>
      rw [separator] at room
      obtain ⟨out, closes, same⟩ := closeHost_ends (url.drop 7)
        (front.set root.length slash) (by rw [List.length_set, length])
        (Nat.lt_of_le_of_lt (Nat.add_le_add_left (by decide : 1 ≤ 25) _) room) apart
      rw [if_neg bare, closes, separator]
      exact ⟨_, _, rfl, same, rfl⟩
  obtain ⟨out, k, runs, length, index⟩ := dirname
  obtain ⟨name, copies, letters, -⟩ := b64cpy_ok (md5 url).whole.ge true
  have count : name.length = 24 := letters
  have writes : writeBytes out k name = .ok (Bytes.overwrite out k name) := if_pos (by omega)
  rw [urlFilename, runs, ok_bind]
  dsimp only
  rw [if_neg (by omega), copies, ok_bind, writes, ok_bind,
    writeByte_ok (by rw [Bytes.overwrite_length (by omega)]; omega), ok_bind]
  exact ⟨_, _, rfl⟩

end Made

end Poplar.HttpCache
