import Poplar.Common.Md5
import Poplar.HttpCache.Stored

/-!
# Runs of the cache

The context of `md5` is static: a call finds what the call before left in it. The files of a
run are those of the stores that did not fail, one written over the other.
-/
namespace Poplar.HttpCache

open Http (ascii)

/-! ## The digest of a URL -/

def md5 (ctx : Md5.Ctx) (key : List UInt8) : Md5.Ctx × Digest :=
  let ctx := Md5.md5Final (Md5.md5Update (Md5.md5Init ctx) key (UInt32.ofNat key.length))
  (ctx, ⟨ctx.digest.toList, ctx.digest.length_toList⟩)

def urlDigest (url : List UInt8) : Digest :=
  ⟨Md5.digestOf url, by simp [Md5.digestOf, Bytes.cut]⟩

theorem md5_digest (ctx : Md5.Ctx) {key : List UInt8} (int : key.length < 2 ^ 31) :
    (md5 ctx key).2 = urlDigest key := by
  have short : ∀ piece ∈ [key], piece.length < 2 ^ 32 := by
    intro piece member
    rw [List.mem_singleton.mp member]
    omega
  have digest := ((Md5.took_init ctx).updates short).digest
  rw [List.nil_append, List.flatten_singleton] at digest
  unfold md5 urlDigest
  rw [Digest.mk.injEq]
  exact digest

/-- The digest is all that a name takes of the URL besides its host. -/
theorem urlFilename_digest (ctx : Md5.Ctx) {url : List UInt8} (int : url.length < 2 ^ 31)
    (root : CacheRoot) (stat : Stat) (buf : List UInt8) (n : Nat) :
    urlFilename root stat (fun key => (md5 ctx key).2) buf n url =
      urlFilename root stat urlDigest buf n url := by
  have digest : (fun key => (md5 ctx key).2) url = urlDigest url := md5_digest ctx int
  unfold urlFilename
  rw [digest]

/-! ## Calls one after the other -/

inductive Request where
  | store (URI data : List UInt8)
  | get (URI : List UInt8) (buflen : Nat)

def Request.url : Request → List UInt8
  | .store URI _ => URI
  | .get URI _ => URI

inductive Answer where
  | stored (rc : Int)
  | got (length : Nat) (out_buf : List UInt8)

section Runs

variable {σ : Type} (disk : Disk σ) (root : CacheRoot) (stat : Stat) (tries : Nat)

/-- The context after `urlFilename`, which digests the URL if there is room for the name. -/
def contextAfter (ctx : Md5.Ctx) (url : List UInt8) : Md5.Ctx :=
  match urlDirname root stat nameBuffer 1024 url with
  | .ok (some (_, j)) => if j + 24 ≥ 1024 then ctx else (md5 ctx url).1
  | _ => ctx

def Request.context (ctx : Md5.Ctx) : Request → Md5.Ctx
  | .store URI data =>
    if data.length ≥ CACHE_DISK_STORE_SIZE_MAX then ctx else contextAfter root stat ctx URI
  | .get URI _ => contextAfter root stat ctx URI

def Request.answer (ctx : Md5.Ctx) : Request → σ → Except Fault (Answer × σ)
  | .store URI data, s => do
    let (rc, s) ← cacheDiskStore disk root stat (fun key => (md5 ctx key).2) tries URI data s
    return (.stored rc, s)
  | .get URI buflen, s => do
    let (length, out_buf) ← cacheDiskGet disk root stat (fun key => (md5 ctx key).2) URI buflen s
    return (.got length out_buf, s)

def run : List Request → Md5.Ctx → σ → Except Fault (List Answer × Md5.Ctx × σ)
  | [], ctx, s => .ok ([], ctx, s)
  | call :: calls, ctx, s => do
    let (answer, s) ← call.answer disk root stat tries ctx s
    let (answers, ctx, s) ← run calls (call.context root stat ctx) s
    return (answer :: answers, ctx, s)

def fileOf (url : List UInt8) : List UInt8 := cacheName root urlDigest url

/-- The data of the stores that went into this file. -/
def written (name : List UInt8) : List Request → List Answer → List (List UInt8)
  | .store URI data :: calls, .stored rc :: answers =>
    if rc = 0 ∧ fileOf root URI = name then data :: written name calls answers
    else written name calls answers
  | _ :: calls, _ :: answers => written name calls answers
  | _, _ => []

end Runs

/-! ## The bytes of a file -/

/-- The byte at `i` of the last of these that is longer than `i`. -/
def latest (i : Nat) (datas : List (List UInt8)) : Option UInt8 :=
  datas.reverse.findSome? fun data => data[i]?

theorem latest_append (i : Nat) (datas later : List (List UInt8)) :
    latest i (datas ++ later) = (latest i later).or (latest i datas) := by
  unfold latest
  rw [List.reverse_append, List.findSome?_append]

def byteAt (content : Option (List UInt8)) (i : Nat) : Option UInt8 :=
  content.bind fun bytes => bytes[i]?

theorem byteAt_overwrite (content : Option (List UInt8)) (data : List UInt8) (i : Nat) :
    byteAt (some (Bytes.overwrite (content.getD []) 0 data)) i =
      data[i]?.or (byteAt content i) := by
  have behind : byteAt content i = (content.getD [])[i]? := by
    cases content <;> rfl
  rw [behind]
  show (Bytes.overwrite (content.getD []) 0 data)[i]? = _
  rw [Bytes.overwrite, List.take_zero, List.nil_append, Nat.zero_add]
  by_cases inside : i < data.length
  · rw [List.getElem?_append_left inside, List.getElem?_eq_getElem inside]
    rfl
  · have past : data.length ≤ i := Nat.not_lt.mp inside
    rw [List.getElem?_append_right past, List.getElem?_drop, Nat.add_sub_cancel' past,
      List.getElem?_eq_none past, Option.none_or]

section Files

variable {σ : Type} {disk : Disk σ} (files : Files disk) {root : CacheRoot} {stat : Stat}
variable {tries : Nat}

theorem named_by_digest (ctx : Md5.Ctx) {url : List UInt8} (int : url.length < 2 ^ 31) :
    cacheName root (fun key => (md5 ctx key).2) url = fileOf root url := by
  unfold fileOf cacheName
  dsimp only
  rw [md5_digest ctx int]

/-- A call leaves each file as the store it is has written it. -/
theorem answer_bytes {call : Request} {ctx : Md5.Ctx} {s s' : σ} {answer : Answer}
    (int : call.url.length < 2 ^ 31)
    (answers : call.answer disk root stat tries ctx s = .ok (answer, s')) (name : List UInt8)
    (i : Nat) :
    byteAt (files.content s' name) i =
      (latest i (written root name [call] [answer])).or (byteAt (files.content s name) i) := by
  cases call with
  | get URI buflen =>
    obtain ⟨got, -, returns⟩ := bind_eq_ok answers
    cases returns
    rfl
  | store URI data =>
    obtain ⟨⟨rc, mid⟩, stores, returns⟩ := bind_eq_ok answers
    cases returns
    rcases cacheDiskStore_content files stores with ⟨failed, same⟩ | ⟨whole, overwritten, -⟩
    · have none : written root name [.store URI data] [.stored rc] = [] := by
        simp [written, failed]
      rw [same, none]
      rfl
    · have named : cacheName root (fun key => (md5 ctx key).2) URI = fileOf root URI :=
        named_by_digest ctx int
      rw [Overwritten, named] at overwritten
      by_cases here : fileOf root URI = name
      · have one : written root name [.store URI data] [.stored rc] = [data] := by
          simp [written, whole, here]
        have byte : latest i [data] = data[i]? := List.findSome?_singleton
        rw [one, overwritten, here, Function.update_self, byteAt_overwrite, byte]
      · have none : written root name [.store URI data] [.stored rc] = [] := by
          simp [written, here]
        rw [none, overwritten, Function.update_of_ne (Ne.symm here)]
        rfl

theorem written_cons (root : CacheRoot) (name : List UInt8) (call : Request) (calls : List Request)
    (answer : Answer) (answers : List Answer) :
    written root name (call :: calls) (answer :: answers) =
      written root name [call] [answer] ++ written root name calls answers := by
  cases call with
  | get URI buflen => rfl
  | store URI data =>
    cases answer with
    | got length out_buf => rfl
    | stored rc =>
      by_cases here : rc = 0 ∧ fileOf root URI = name
      · simp [written, here]
      · simp [written, here]

/-- Byte for byte, a file holds what the last store that was long enough has written. -/
theorem run_bytes {calls : List Request} {ctx ctx' : Md5.Ctx} {s s' : σ} {answers : List Answer}
    (int : ∀ call ∈ calls, call.url.length < 2 ^ 31)
    (ran : run disk root stat tries calls ctx s = .ok (answers, ctx', s')) (name : List UInt8)
    (i : Nat) :
    byteAt (files.content s' name) i =
      (latest i (written root name calls answers)).or (byteAt (files.content s name) i) := by
  induction calls generalizing ctx s answers with
  | nil =>
    cases ran
    rfl
  | cons call calls ih =>
    obtain ⟨short, others⟩ := List.forall_mem_cons.mp int
    obtain ⟨⟨answer, mid⟩, first, rest⟩ := bind_eq_ok ran
    obtain ⟨⟨answers', ctx'', s''⟩, later, returns⟩ := bind_eq_ok rest
    cases returns
    rw [ih others later, answer_bytes files short first, written_cons root name call calls,
      latest_append, Option.or_assoc]

/-- A file that is there stays, and a store that does not fail makes it. -/
theorem answer_there {call : Request} {ctx : Md5.Ctx} {s s' : σ} {answer : Answer}
    {name : List UInt8}
    (int : call.url.length < 2 ^ 31)
    (answers : call.answer disk root stat tries ctx s = .ok (answer, s'))
    (there : (files.content s name).isSome ∨ written root name [call] [answer] ≠ []) :
    (files.content s' name).isSome := by
  cases call with
  | get URI buflen =>
    obtain ⟨got, -, returns⟩ := bind_eq_ok answers
    cases returns
    exact there.resolve_right fun some => some rfl
  | store URI data =>
    obtain ⟨⟨rc, mid⟩, stores, returns⟩ := bind_eq_ok answers
    cases returns
    rcases cacheDiskStore_content files stores with ⟨failed, same⟩ | ⟨-, overwritten, -⟩
    · rw [same]
      exact there.resolve_right fun some => some (by simp [written, failed])
    · have named : cacheName root (fun key => (md5 ctx key).2) URI = fileOf root URI :=
        named_by_digest ctx int
      rw [Overwritten, named] at overwritten
      by_cases here : fileOf root URI = name
      · rw [overwritten, here, Function.update_self]
        rfl
      · rw [overwritten, Function.update_of_ne (Ne.symm here)]
        exact there.resolve_right fun some => some (by simp [written, here])

theorem run_there {calls : List Request} {ctx ctx' : Md5.Ctx} {s s' : σ} {answers : List Answer}
    {name : List UInt8} (int : ∀ call ∈ calls, call.url.length < 2 ^ 31)
    (ran : run disk root stat tries calls ctx s = .ok (answers, ctx', s'))
    (there : (files.content s name).isSome ∨ written root name calls answers ≠ []) :
    (files.content s' name).isSome := by
  induction calls generalizing ctx s answers with
  | nil =>
    cases ran
    exact there.resolve_right fun some => some rfl
  | cons call calls ih =>
    obtain ⟨short, others⟩ := List.forall_mem_cons.mp int
    obtain ⟨⟨answer, mid⟩, first, rest⟩ := bind_eq_ok ran
    obtain ⟨⟨answers', ctx'', s''⟩, later, returns⟩ := bind_eq_ok rest
    cases returns
    apply ih others later
    rw [written_cons root name call calls] at there
    by_cases now : written root name [call] [answer] = []
    · rw [now, List.nil_append] at there
      exact there.imp_left fun before => answer_there files short first (.inl before)
    · exact .inl (answer_there files short first (.inr now))

/-- What `fread` leaves of a file in the buffer of zeros. -/
theorem buffer_byte (bytes : List UInt8) {buflen i : Nat} (inside : i < buflen) :
    (Bytes.overwrite (List.replicate buflen 0) 0 (bytes.take buflen))[i]? =
      some (bytes[i]?.getD 0) := by
  rw [Bytes.overwrite, List.take_zero, List.nil_append, Nat.zero_add]
  by_cases held : i < bytes.length
  · have front : i < (bytes.take buflen).length := by
      rw [List.length_take]
      omega
    rw [List.getElem?_append_left front, List.getElem?_take_of_lt inside,
      List.getElem?_eq_getElem held]
    rfl
  · have past : bytes.length ≤ i := Nat.not_lt.mp held
    have whole : bytes.take buflen = bytes := List.take_of_length_le (by omega)
    rw [whole, List.getElem?_append_right past, List.getElem?_drop, Nat.add_sub_cancel' past,
      List.getElem?_replicate, if_pos inside, List.getElem?_eq_none past]
    rfl

theorem get_text {URI buf bytes : List UInt8} {j buflen size : Nat} {s : σ}
    {md5 : List UInt8 → Digest}
    (accepted : urlFilename root stat md5 nameBuffer 1024 URI = .ok (some (buf, j)))
    (holds : files.content s (cacheName root md5 URI) = some bytes)
    (nonzero : ∀ i < size, bytes[i]?.getD 0 ≠ 0) (zero : bytes[size]?.getD 0 = 0)
    (room : size < buflen) (int : buflen < 2 ^ 31) :
    ∃ out_buf, cacheDiskGet disk root stat md5 URI buflen s = .ok (size, out_buf) ∧
      ∀ i < size, out_buf[i]? = some (bytes[i]?.getD 0) := by
  have read : ∀ i < buflen, (Bytes.overwrite (List.replicate buflen 0) 0 (bytes.take buflen))[i]? =
      some (bytes[i]?.getD 0) := fun i inside => buffer_byte bytes inside
  have gets : cacheDiskGet disk root stat md5 URI buflen s = do
      let size ← strlen (Bytes.overwrite (List.replicate buflen 0) 0 (bytes.take buflen)) 0
      return (size % 2 ^ 32, Bytes.overwrite (List.replicate buflen 0) 0 (bytes.take buflen)) := by
    rw [cacheDiskGet, accepted, ok_bind]
    simp only [cString_made accepted, files.accesses holds, files.reads buflen holds,
      not_true_eq_false, if_false]
  generalize Bytes.overwrite (List.replicate buflen 0) 0 (bytes.take buflen) = out at read gets
  have long : size < out.length := by
    by_contra short
    have none := read size room
    rw [List.getElem?_eq_none (Nat.not_lt.mp short)] at none
    cases none
  have text : (out.take size).length = size := by
    rw [List.length_take, Nat.min_eq_left (Nat.le_of_lt long)]
  have length : strlen (out.take size ++ out.drop size) 0 = .ok (out.take size).length := by
    apply strlen_eq_iff.mpr
    constructor
    · intro c member same
      obtain ⟨i, inside, rfl⟩ := List.mem_iff_getElem.mp member
      have early : i < size := text ▸ inside
      have byte := read i (Nat.lt_trans early room)
      rw [List.getElem?_eq_getElem (Nat.lt_trans early long), Option.some.injEq] at byte
      rw [List.getElem_take, byte] at same
      exact nonzero i early same
    · rw [List.getElem?_drop, Nat.add_zero, read size room, zero]
  rw [List.take_append_drop, text] at length
  refine ⟨out, ?_, fun i early => read i (Nat.lt_trans early room)⟩
  rw [gets, length, ok_bind, Nat.mod_eq_of_lt (by omega)]
  rfl

/-- After any run a get tells the bytes up to the first NUL, each that of the last store that
was long enough. -/
theorem run_gets {calls : List Request} {ctx ctx' : Md5.Ctx} {s s' : σ} {answers : List Answer}
    {URI buf : List UInt8} {j buflen size : Nat} {text : Nat → Option UInt8}
    (int : ∀ call ∈ Request.get URI buflen :: calls, call.url.length < 2 ^ 31)
    (ran : run disk root stat tries calls ctx s = .ok (answers, ctx', s'))
    (accepted : urlFilename root stat urlDigest nameBuffer 1024 URI = .ok (some (buf, j)))
    (stored : written root (fileOf root URI) calls answers ≠ [])
    (bytes : ∀ i, text i = (latest i (written root (fileOf root URI) calls answers)).or
      (byteAt (files.content s (fileOf root URI)) i))
    (nonzero : ∀ i < size, (text i).getD 0 ≠ 0) (zero : (text size).getD 0 = 0)
    (room : size < buflen) (buffer : buflen < 2 ^ 31) :
    ∃ out_buf, (Request.get URI buflen).answer disk root stat tries ctx' s' =
        .ok (.got size out_buf, s') ∧ ∀ i < size, out_buf[i]? = text i := by
  obtain ⟨get, others⟩ := List.forall_mem_cons.mp int
  have short : URI.length < 2 ^ 31 := get
  obtain ⟨held, holds⟩ := Option.isSome_iff_exists.mp (run_there files others ran (.inr stored))
  have same : ∀ i, text i = held[i]? := by
    intro i
    rw [bytes, ← run_bytes files others ran, holds]
    rfl
  rw [← named_by_digest ctx' short] at holds
  rw [← urlFilename_digest ctx' short] at accepted
  simp only [same] at nonzero zero ⊢
  obtain ⟨out, gets, told⟩ := get_text files accepted holds nonzero zero room buffer
  refine ⟨out, ?_, ?_⟩
  · rw [Request.answer, gets]
    rfl
  · intro i early
    rw [told i early]
    have byte := nonzero i early
    cases found : held[i]? with
    | none =>
      rw [found] at byte
      exact absurd rfl byte
    | some c => rfl

end Files

/-- Its file holds some bytes, and there is no other. -/
def heldDisk (bytes : List UInt8) : SimpleDisk where
  files name := if name = fileOf sampleRoot sampleURI then some bytes else none
  handles := []

/-- What a static context holds at first. -/
def staticCtx : Md5.Ctx where
  i := (0, 0)
  buf := Vector.replicate 4 0
  input := Vector.replicate 64 0
  digest := Vector.replicate 16 0

theorem digest_accepted : ∃ buf j,
    urlFilename sampleRoot allDirectories urlDigest nameBuffer 1024 sampleURI =
      .ok (some (buf, j)) := by
  have accepted : (urlFilename sampleRoot allDirectories urlDigest nameBuffer 1024
      sampleURI).toOption.join.isSome = true := by
    decide +kernel
  cases made : urlFilename sampleRoot allDirectories urlDigest nameBuffer 1024 sampleURI with
  | error fault => simp [made, Except.toOption] at accepted
  | ok result =>
    cases result with
    | none => simp [made, Except.toOption] at accepted
    | some pair => exact ⟨pair.1, pair.2, rfl⟩

/-- `b` written over `cd` is got back as `bd`. -/
theorem run_gets_sample : ∃ ctx' s' out_buf,
    run simpleDisk sampleRoot allDirectories 1 [.store sampleURI [98]] staticCtx
      (heldDisk [99, 100]) = .ok ([.stored 0], ctx', s') ∧
    (Request.get sampleURI 10).answer simpleDisk sampleRoot allDirectories 1 ctx' s' =
      .ok (.got 2 out_buf, s') ∧
    ∀ i < 2, out_buf[i]? = [98, 100][i]? := by
  obtain ⟨buf, j, accepted⟩ := digest_accepted
  have short : sampleURI.length < 2 ^ 31 := by decide
  have holds : simpleFiles.content (heldDisk [99, 100]) (fileOf sampleRoot sampleURI) =
      some [99, 100] := by
    dsimp only [simpleFiles, heldDisk]
    exact if_pos rfl
  have made := accepted
  rw [← urlFilename_digest staticCtx short] at made
  rw [← named_by_digest staticCtx short] at holds
  have returns : ∃ s', cacheDiskStore simpleDisk sampleRoot allDirectories
      (fun key => (md5 staticCtx key).2) 1 sampleURI [98] (heldDisk [99, 100]) = .ok (0, s') :=
    cacheDiskStore_returns simpleFiles made (by decide) holds
  obtain ⟨s', stores⟩ := returns
  have ran : run simpleDisk sampleRoot allDirectories 1 [.store sampleURI [98]] staticCtx
      (heldDisk [99, 100]) = .ok ([.stored 0],
        (Request.store sampleURI [98]).context sampleRoot allDirectories staticCtx, s') := by
    rw [run, Request.answer, stores]
    rfl
  have here : written sampleRoot (fileOf sampleRoot sampleURI) [.store sampleURI [98]] [.stored 0] =
      [[98]] := by
    simp [written]
  rw [named_by_digest staticCtx short] at holds
  have bytes : ∀ i, [98, 100][i]? =
      (latest i (written sampleRoot (fileOf sampleRoot sampleURI) [.store sampleURI [98]]
        [.stored 0])).or (byteAt (simpleFiles.content (heldDisk [99, 100])
          (fileOf sampleRoot sampleURI)) i) := by
    intro i
    rw [here, holds]
    match i with
    | 0 => rfl
    | 1 => rfl
    | i + 2 => rfl
  have got : ∃ out_buf, (Request.get sampleURI 10).answer simpleDisk sampleRoot allDirectories 1
        ((Request.store sampleURI [98]).context sampleRoot allDirectories staticCtx) s' =
          .ok (.got 2 out_buf, s') ∧ ∀ i < 2, out_buf[i]? = [98, 100][i]? :=
    run_gets simpleFiles (by decide) ran accepted (by rw [here]; simp) bytes (by decide) rfl
      (by decide) (by decide)
  obtain ⟨out_buf, gets, told⟩ := got
  exact ⟨_, s', out_buf, ran, gets, told⟩

end Poplar.HttpCache
