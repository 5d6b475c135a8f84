import Poplar.HttpCache.Disk
import Poplar.HttpCache.Names

/-!
# What is stored and got back

A disk that performs every call completely, whatever it does else. A store writes over the
file from its start; a get takes the bytes up to the first NUL.
-/
namespace Poplar.HttpCache

open Http (ascii slash point)

variable {σ : Type}

/-- A disk that performs its calls completely: `content` is what the files hold, and `handle`
the file that a descriptor is at the start of. -/
structure Files (disk : Disk σ) where
  content : σ → List UInt8 → Option (List UInt8)
  handle : σ → Nat → Option (List UInt8)
  opens : ∀ {s name old}, content s name = some old → ∃ fd s',
    disk.openFile name false s = (.ok fd, s') ∧ content s' = content s ∧ handle s' fd = some name
  misses : ∀ {s name}, content s name = none → ∃ errno s',
    disk.openFile name false s = (.error errno, s') ∧ content s' = content s
  creates : ∀ {s name fd s'}, disk.openFile name true s = (.ok fd, s') →
    content s name = none ∧ content s' = Function.update (content s) name (some []) ∧
      handle s' fd = some name
  refuses : ∀ {s name errno s'}, disk.openFile name true s = (.error errno, s') →
    content s' = content s
  mkdirs : ∀ name s, content (disk.mkdir name s).2 = content s
  writes : ∀ {s fd name old} data, handle s fd = some name → content s name = some old →
    ∃ s', disk.write fd data s = (.ok data.length, s') ∧
      content s' = Function.update (content s) name (some (Bytes.overwrite old 0 data))
  closes : ∀ fd s, content (disk.close fd s) = content s
  accesses : ∀ {s name old}, content s name = some old → disk.access name s = true
  reads : ∀ {s name old} n, content s name = some old → disk.readFile name n s = some (old.take n)

/-! ## What the calls leave of the files -/

section Effects

variable {disk : Disk σ} (files : Files disk)
variable {root : CacheRoot} {stat : Stat} {md5 : List UInt8 → Digest}
variable {name URI data old : List UInt8} {fuel n tries fd path_start : Nat} {rc : Int} {s s' : σ}

theorem makeDirectories_content {made : Bool}
    (makes : makeDirectories disk name fuel n s = .ok (made, s')) :
    files.content s' = files.content s := by
  induction fuel generalizing n s with
  | zero => cases makes
  | succ fuel ih =>
      rw [makeDirectories] at makes
      split at makes
      · dsimp only at makes
        split at makes
        · cases makes
          rfl
        · split at makes
          · cases makes
          · have kept := files.mkdirs (name.take (scanComponent name 512 n + 1)) s
            split at makes
            · next errno mid result =>
              rw [result] at kept
              split at makes
              · cases makes
                exact kept
              · exact (ih makes).trans kept
            · next result =>
              rw [result] at kept
              exact (ih makes).trans kept
      · cases makes
        rfl

/-- The file created is empty, and its descriptor at its start. -/
def Created (s s' : σ) (name : List UInt8) : Option Nat → Prop
  | none => files.content s' = files.content s
  | some fd => files.content s name = none ∧
      files.content s' = Function.update (files.content s) name (some []) ∧
      files.handle s' fd = some name

theorem createFile_content {fd : Option Nat}
    (creates : createFile disk name path_start s = .ok (fd, s')) :
    Created files s s' name fd := by
  unfold createFile at creates
  generalize (if name.getD path_start 0 = slash then path_start + 1 else path_start) = start
    at creates
  dsimp only at creates
  split at creates
  · cases creates
    exact rfl
  · split at creates
    · next opened =>
      cases creates
      exact files.creates opened
    · next mid refused =>
      have kept := files.refuses refused
      split at creates
      · cases creates
        exact kept
      · obtain ⟨⟨made, mid'⟩, makes, creates⟩ := bind_eq_ok creates
        have still := (makeDirectories_content files makes).trans kept
        dsimp only at creates
        split at creates
        · split at creates
          · next opened =>
            cases creates
            obtain ⟨missing, content, handle⟩ := files.creates opened
            rw [still] at missing content
            exact ⟨missing, content, handle⟩
          · next refused' =>
            cases creates
            exact (files.refuses refused').trans still
        · cases creates
          exact still

theorem storeOpened_content (small : data.length < 2 ^ 32) (handle : files.handle s fd = some name)
    (holds : files.content s name = some old)
    (stores : storeOpened disk tries data fd s = .ok (rc, s')) :
    rc = 0 ∧ files.content s' =
      Function.update (files.content s) name (some (Bytes.overwrite old 0 data)) := by
  obtain ⟨mid, writes, content⟩ := files.writes data handle holds
  have whole : shortWrite data.length data.length = false := by
    rw [shortWrite, Int.emod_eq_of_lt (by omega) (by omega)]
    simp
  cases tries with
  | zero => cases stores
  | succ tries =>
      rw [storeOpened, writeAgain, writes] at stores
      simp only [ok_bind, whole] at stores
      cases stores
      exact ⟨rfl, (files.closes fd mid).trans content⟩

/-- The file with the data written over it. -/
def Overwritten (s s' : σ) (name data : List UInt8) : Prop :=
  files.content s' = Function.update (files.content s) name
    (some (Bytes.overwrite ((files.content s name).getD []) 0 data))

/-- A store that does not fail writes over the file of the URL; one that fails leaves all files. -/
theorem cacheDiskStore_content
    (stores : cacheDiskStore disk root stat md5 tries URI data s = .ok (rc, s')) :
    (rc = -1 ∧ files.content s' = files.content s) ∨
      (rc = 0 ∧ Overwritten files s s' (cacheName root md5 URI) data ∧
        ∃ buf j, urlFilename root stat md5 nameBuffer 1024 URI = .ok (some (buf, j))) := by
  unfold cacheDiskStore at stores
  split at stores
  · cases stores
    exact .inl ⟨rfl, rfl⟩
  · next fits =>
    have small : data.length < 2 ^ 32 := by
      unfold CACHE_DISK_STORE_SIZE_MAX at fits
      omega
    obtain ⟨made, filename, stores⟩ := bind_eq_ok stores
    cases made with
    | none =>
        cases stores
        exact .inl ⟨rfl, rfl⟩
    | some result =>
        obtain ⟨buf, j⟩ := result
        have named := cString_made filename
        dsimp only at stores
        split at stores
        · cases stores
          exact .inl ⟨rfl, rfl⟩
        · rw [named] at stores
          cases holds : files.content s (cacheName root md5 URI) with
          | some old =>
              obtain ⟨fd, mid, opens, kept, handle⟩ := files.opens holds
              rw [opens] at stores
              obtain ⟨returns, content⟩ := storeOpened_content files small handle (by rw [kept, holds])
                stores
              refine .inr ⟨returns, ?_, buf, j, filename⟩
              rw [Overwritten, content, kept, holds]
              rfl
          | none =>
              obtain ⟨errno, mid, misses, kept⟩ := files.misses holds
              rw [misses] at stores
              obtain ⟨⟨fd, mid'⟩, creates, stores⟩ := bind_eq_ok stores
              have created := createFile_content files creates
              cases fd with
              | none =>
                  cases stores
                  exact .inl ⟨rfl, Eq.trans created kept⟩
              | some fd =>
                  obtain ⟨-, content, handle⟩ := created
                  have empty : files.content mid' (cacheName root md5 URI) = some [] := by
                    rw [content, Function.update_self]
                  obtain ⟨returns, written⟩ := storeOpened_content files small handle empty stores
                  refine .inr ⟨returns, ?_, buf, j, filename⟩
                  rw [Overwritten, written, content, Function.update_idem, kept, holds]
                  rfl

/-- A store over a file does not fail. -/
theorem cacheDiskStore_returns {buf : List UInt8} {j : Nat}
    (made : urlFilename root stat md5 nameBuffer 1024 URI = .ok (some (buf, j)))
    (small : data.length < CACHE_DISK_STORE_SIZE_MAX)
    (holds : files.content s (cacheName root md5 URI) = some old) :
    ∃ s', cacheDiskStore disk root stat md5 (tries + 1) URI data s = .ok (0, s') := by
  obtain ⟨name, -, length, -, text, counted, -⟩ := urlFilename_writes made
  have positive : ¬ j ≤ 0 := by
    rw [counted, text, List.length_append, length]
    omega
  obtain ⟨fd, mid, opens, kept, handle⟩ := files.opens holds
  rw [← kept] at holds
  obtain ⟨written, writes, -⟩ := files.writes data handle holds
  have whole : shortWrite data.length data.length = false := by
    unfold CACHE_DISK_STORE_SIZE_MAX at small
    rw [shortWrite, Int.emod_eq_of_lt (by omega) (by omega)]
    simp
  refine ⟨disk.close fd written, ?_⟩
  rw [cacheDiskStore, if_neg (Nat.not_le.mpr small), made, ok_bind]
  simp only [if_neg positive, cString_made made, opens, storeOpened, writeAgain, writes, ok_bind,
    whole]
  rfl

end Effects

/-! ## Getting back -/

section Gets

variable (disk : Disk σ) (root : CacheRoot) (stat : Stat) (md5 : List UInt8 → Digest)

/-- The length is told, and the bytes stand in front of the buffer. -/
def Gets (URI data : List UInt8) (buflen : Nat) (s : σ) : Prop :=
  ∃ out_buf, cacheDiskGet disk root stat md5 URI buflen s = .ok (data.length, out_buf) ∧
    out_buf.take data.length = data

/-- Stores one after the other, whatever they return. -/
def storeAll (tries : Nat) : List (List UInt8 × List UInt8) → σ → Except Fault σ
  | [], s => .ok s
  | (URI, data) :: rest, s => do
    let (_, s) ← cacheDiskStore disk root stat md5 tries URI data s
    storeAll tries rest s

/-- What a text ends with in a buffer. -/
theorem strlen_eq_iff {text rest : List UInt8} :
    strlen (text ++ rest) 0 = .ok text.length ↔ (∀ c ∈ text, c ≠ 0) ∧ rest[0]? = some 0 := by
  constructor
  · intro length
    rw [strlen, List.drop_zero] at length
    cases found : (text ++ rest).findIdx? (· == 0) with
    | none => simp [found] at length
    | some k =>
        rw [found] at length
        cases length
        obtain ⟨inside, zero, before⟩ := List.findIdx?_eq_some_iff_getElem.mp found
        constructor
        · intro c member same
          obtain ⟨j, small, rfl⟩ := List.mem_iff_getElem.mp member
          have early := before j small
          rw [List.getElem_append_left small, same] at early
          exact early rfl
        · have there : (text ++ rest)[text.length]? = some 0 := by
            rw [List.getElem?_eq_getElem inside]
            exact congrArg some (eq_of_beq zero)
          rwa [List.getElem?_append_right (Nat.le_refl _), Nat.sub_self] at there
  · rintro ⟨nonzero, zero⟩
    cases rest with
    | nil => cases zero
    | cons c rest =>
        cases zero
        exact strlen_append nonzero rfl

theorem strlen_lt {object : List UInt8} {size : Nat} (length : strlen object 0 = .ok size) :
    size < object.length := by
  rw [strlen, List.drop_zero] at length
  cases found : object.findIdx? (· == 0) with
  | none => simp [found] at length
  | some k =>
      rw [found] at length
      cases length
      obtain ⟨inside, -⟩ := List.findIdx?_eq_some_iff_getElem.mp found
      exact inside

variable {disk root stat md5}
variable {URI data old buf : List UInt8} {buflen tries j : Nat} {s s' : σ} (files : Files disk)

/-- What a read of a file written over puts into a zeroed buffer: the data, then what the file had
behind it. -/
theorem buffer_read (old : List UInt8) {data : List UInt8} {buflen : Nat} (room : data.length < buflen) : ∃ rest,
    Bytes.overwrite (List.replicate buflen 0) 0 ((Bytes.overwrite old 0 data).take buflen) =
      data ++ rest ∧
    rest[0]? = some (old.getD data.length 0) ∧ data.length + rest.length = buflen := by
  have content : (Bytes.overwrite old 0 data).take buflen =
      data ++ (old.drop data.length).take (buflen - data.length) := by
    rw [Bytes.overwrite, List.take_zero, List.nil_append, Nat.zero_add, List.take_append,
      List.take_of_length_le (Nat.le_of_lt room)]
  rw [content]
  refine ⟨(old.drop data.length).take (buflen - data.length) ++ List.replicate
    (buflen - (data.length + ((old.drop data.length).take (buflen - data.length)).length)) 0,
    ?_, ?_, ?_⟩
  · rw [Bytes.overwrite, List.take_zero, List.nil_append, Nat.zero_add, List.drop_replicate,
      List.length_append, List.append_assoc]
  · by_cases more : data.length < old.length
    · rw [List.getElem?_append_left (by rw [List.length_take, List.length_drop]; omega),
        List.getElem?_take_of_lt (by omega), List.getElem?_drop, Nat.add_zero,
        List.getD_eq_getElem?_getD, List.getElem?_eq_getElem more]
      rfl
    · have none_behind : old.drop data.length = [] := List.drop_eq_nil_of_le (Nat.not_lt.mp more)
      have zero : old.getD data.length 0 = 0 := by
        rw [List.getD_eq_getElem?_getD, List.getElem?_eq_none (Nat.not_lt.mp more)]
        rfl
      rw [none_behind, List.take_nil, List.nil_append, zero, List.length_nil, Nat.add_zero,
        List.getElem?_replicate, if_pos (by omega)]
  · rw [List.length_append, List.length_replicate, List.length_take]
    omega

/-- A file written over is got back exactly if the data has no NUL and one follows it. -/
theorem gets_iff (made : urlFilename root stat md5 nameBuffer 1024 URI = .ok (some (buf, j)))
    (holds : files.content s (cacheName root md5 URI) = some (Bytes.overwrite old 0 data))
    (room : data.length < buflen) (int : buflen < 2 ^ 31) :
    Gets disk root stat md5 URI data buflen s ↔
      (∀ c ∈ data, c ≠ 0) ∧ old.getD data.length 0 = 0 := by
  have named := cString_made made
  obtain ⟨rest, buffer, first, length⟩ := buffer_read old room
  have gets : cacheDiskGet disk root stat md5 URI buflen s = do
      let size ← strlen (data ++ rest) 0
      return (size % 2 ^ 32, data ++ rest) := by
    rw [cacheDiskGet, made, ok_bind]
    simp only [named, files.accesses holds, files.reads buflen holds, buffer, not_true_eq_false,
      if_false]
  have whole : strlen (data ++ rest) 0 = .ok data.length ↔
      Gets disk root stat md5 URI data buflen s := by
    rw [Gets, gets]
    cases found : strlen (data ++ rest) 0 with
    | error fault =>
        refine iff_of_false (fun same => by cases same) ?_
        rintro ⟨out, same, -⟩
        cases same
    | ok size =>
        have bound : size < (data ++ rest).length := strlen_lt found
        rw [List.length_append, length] at bound
        constructor
        · intro same
          cases same
          refine ⟨data ++ rest, ?_, List.take_left⟩
          rw [ok_bind, Nat.mod_eq_of_lt (by omega)]
          rfl
        · rintro ⟨out, same, -⟩
          rw [ok_bind, Nat.mod_eq_of_lt (by omega)] at same
          cases same
          rfl
  rw [← whole, strlen_eq_iff, first, Option.some.injEq]

/-- Stores for other URLs leave the file of this one. -/
theorem storeAll_content {others : List (List UInt8 × List UInt8)}
    (apart : ∀ other ∈ others, (md5 other.1).bytes ≠ (md5 URI).bytes)
    (stores : storeAll disk root stat md5 tries others s = .ok s') :
    files.content s' (cacheName root md5 URI) = files.content s (cacheName root md5 URI) := by
  induction others generalizing s with
  | nil =>
      cases stores
      rfl
  | cons other others ih =>
      obtain ⟨here, later⟩ := List.forall_mem_cons.mp apart
      rw [storeAll] at stores
      obtain ⟨⟨rc, mid⟩, first, rest⟩ := bind_eq_ok stores
      have kept : files.content mid (cacheName root md5 URI) =
          files.content s (cacheName root md5 URI) := by
        rcases cacheDiskStore_content files first with ⟨-, same⟩ | ⟨-, written, -⟩
        · rw [same]
        · rw [written, Function.update_of_ne (cacheName_apart here).symm]
      rw [ih later rest, kept]

/-- What is stored is got back until the next store for the URL, exactly if the data has no
NUL, and the file was no longer or had one where the data ends. -/
theorem stored_gets_iff {others : List (List UInt8 × List UInt8)} {s₀ : σ}
    (stored : cacheDiskStore disk root stat md5 tries URI data s₀ = .ok (0, s))
    (apart : ∀ other ∈ others, (md5 other.1).bytes ≠ (md5 URI).bytes)
    (later : storeAll disk root stat md5 tries others s = .ok s')
    (room : data.length < buflen) (int : buflen < 2 ^ 31) :
    Gets disk root stat md5 URI data buflen s' ↔
      (∀ c ∈ data, c ≠ 0) ∧
        ((files.content s₀ (cacheName root md5 URI)).getD []).getD data.length 0 = 0 := by
  rcases cacheDiskStore_content files stored with ⟨failed, -⟩ | ⟨-, written, buf, j, made⟩
  · cases failed
  · refine gets_iff files made ?_ room int
    rw [storeAll_content files apart later, written, Function.update_self]

end Gets

/-! ## A disk -/

/-- The files by their names, and by their descriptors; all directories are there. -/
structure SimpleDisk where
  files : List UInt8 → Option (List UInt8)
  handles : List (List UInt8)

/-- A descriptor is the place of its file in the list of those opened. -/
def simpleDisk : Disk SimpleDisk where
  openFile name create s :=
    if create then
      match s.files name with
      | some _ => (.error .EEXIST, s)
      | none => (.ok s.handles.length,
          { files := Function.update s.files name (some []), handles := s.handles ++ [name] })
    else
      match s.files name with
      | some _ => (.ok s.handles.length, { s with handles := s.handles ++ [name] })
      | none => (.error .ENOENT, s)
  mkdir _ s := (.error .EEXIST, s)
  write fd data s :=
    match s.handles[fd]? with
    | none => (.error .other, s)
    | some name => (.ok data.length, { s with
        files := Function.update s.files name
          (some (Bytes.overwrite ((s.files name).getD []) 0 data)) })
  close _ s := s
  access name s := (s.files name).isSome
  readFile name n s := (s.files name).map fun bytes => bytes.take n

theorem handle_new (handles : List (List UInt8)) (name : List UInt8) :
    (handles ++ [name])[handles.length]? = some name := by
  rw [List.getElem?_append_right (Nat.le_refl _), Nat.sub_self]
  rfl

def simpleFiles : Files simpleDisk where
  content := SimpleDisk.files
  handle s fd := s.handles[fd]?
  opens {s name _} holds :=
    ⟨s.handles.length, { s with handles := s.handles ++ [name] },
      by simp [simpleDisk, holds], rfl, handle_new _ _⟩
  misses {s _} missing := ⟨.ENOENT, s, by simp [simpleDisk, missing], rfl⟩
  creates {s name fd s'} created := by
    cases holds : s.files name with
    | some old => simp [simpleDisk, holds] at created
    | none =>
        simp only [simpleDisk, holds, if_true, Prod.mk.injEq, Except.ok.injEq] at created
        obtain ⟨rfl, rfl⟩ := created
        exact ⟨rfl, rfl, handle_new _ _⟩
  refuses {s name _ _} refused := by
    cases holds : s.files name with
    | some old =>
        simp only [simpleDisk, holds, if_true, Prod.mk.injEq] at refused
        rw [← refused.2]
    | none => simp [simpleDisk, holds] at refused
  mkdirs _ _ := rfl
  writes {s fd name old} data handle holds :=
    ⟨{ s with files := Function.update s.files name (some (Bytes.overwrite old 0 data)) },
      by simp [simpleDisk, handle, holds], rfl⟩
  closes _ _ := rfl
  accesses holds := by simp [simpleDisk, holds]
  reads n holds := by simp [simpleDisk, holds]

/-- `http://a` -/
def sampleURI : List UInt8 := ascii "http://a"

/-- Its file holds some bytes, and there is no other. -/
def sampleDisk (bytes : List UInt8) : SimpleDisk where
  files name := if name = cacheName sampleRoot (fun _ => zeroDigest) sampleURI then some bytes
    else none
  handles := []

theorem sample_accepted : ∃ buf j, urlFilename sampleRoot allDirectories (fun _ => zeroDigest)
    nameBuffer 1024 sampleURI = .ok (some (buf, j)) := by
  have accepted : (urlFilename sampleRoot allDirectories (fun _ => zeroDigest) nameBuffer 1024
      sampleURI).toOption.join.isSome = true := by
    decide +kernel
  cases made : urlFilename sampleRoot allDirectories (fun _ => zeroDigest) nameBuffer 1024
      sampleURI with
  | error fault => simp [made, Except.toOption] at accepted
  | ok result =>
      cases result with
      | none => simp [made, Except.toOption] at accepted
      | some pair => exact ⟨pair.1, pair.2, rfl⟩

theorem sample_holds (bytes : List UInt8) : simpleFiles.content (sampleDisk bytes)
    (cacheName sampleRoot (fun _ => zeroDigest) sampleURI) = some bytes := by
  dsimp only [simpleFiles, sampleDisk]
  exact if_pos rfl

theorem sample_stores (bytes : List UInt8) : ∃ s, cacheDiskStore simpleDisk sampleRoot
    allDirectories (fun _ => zeroDigest) 1 sampleURI [98] (sampleDisk bytes) = .ok (0, s) := by
  obtain ⟨buf, j, made⟩ := sample_accepted
  exact cacheDiskStore_returns simpleFiles made (by decide) (sample_holds bytes)

theorem stored_gets_sample : ∃ s, cacheDiskStore simpleDisk sampleRoot allDirectories
      (fun _ => zeroDigest) 1 sampleURI [98] (sampleDisk [99]) = .ok (0, s) ∧
    (Gets simpleDisk sampleRoot allDirectories (fun _ => zeroDigest) sampleURI [98] 10 s ↔
      (∀ c ∈ [98], c ≠ (0 : UInt8)) ∧
        ((simpleFiles.content (sampleDisk [99]) (cacheName sampleRoot (fun _ => zeroDigest)
          sampleURI)).getD []).getD 1 0 = 0) := by
  obtain ⟨s, stored⟩ := sample_stores [99]
  have later : storeAll simpleDisk sampleRoot allDirectories (fun _ => zeroDigest) 1 [] s = .ok s :=
    rfl
  exact ⟨s, stored, stored_gets_iff simpleFiles stored (by simp) later (by decide) (by decide)⟩

/-- A byte stored over two is got back as two. -/
theorem longer_file_got :
    ¬ ∀ (bytes data : List UInt8) (s : SimpleDisk),
      cacheDiskStore simpleDisk sampleRoot allDirectories (fun _ => zeroDigest) 1 sampleURI data
        (sampleDisk bytes) = .ok (0, s) →
      0 < data.length → data.length < CACHE_DISK_STORE_SIZE_MAX → ∀ buflen, data.length < buflen →
        buflen < 2 ^ 31 →
        Gets simpleDisk sampleRoot allDirectories (fun _ => zeroDigest) sampleURI data buflen s := by
  intro all
  obtain ⟨s, stored⟩ := sample_stores [99, 100]
  have gets := all _ _ s stored (by decide) (by decide) 10 (by decide) (by decide)
  rcases cacheDiskStore_content simpleFiles stored with ⟨failed, -⟩ | ⟨-, written, buf, j, made⟩
  · cases failed
  · have holds : simpleFiles.content s (cacheName sampleRoot (fun _ => zeroDigest) sampleURI) =
        some (Bytes.overwrite [99, 100] 0 [98]) := by
      rw [written, Function.update_self, sample_holds]
      rfl
    have zero := ((gets_iff simpleFiles made holds (by decide) (by decide)).mp gets).2
    exact absurd zero (by decide)

end Poplar.HttpCache
