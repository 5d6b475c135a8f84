import Poplar.HttpCache.Calls

/-!
# What a store returns

The result of `write` becomes unsigned where it is compared with the length, so that `-1` is
not short. The descriptor opened is closed in any case.
-/
namespace Poplar.HttpCache

open Http (ascii slash point)

variable {σ : Type}

/-- The writes from a state on until one is not interrupted: how many are, and what the last one
tells. -/
inductive Writes (disk : Disk σ) (data : List UInt8) (fd : Nat) :
    σ → Nat → Except Errno Nat → σ → Prop
  | last {s result s'} : disk.write fd data s = (result, s') → result ≠ .error .EINTR →
      Writes disk data fd s 0 result s'
  | again {s s₁ k result s'} : disk.write fd data s = (.error .EINTR, s₁) →
      Writes disk data fd s₁ k result s' → Writes disk data fd s (k + 1) result s'

def Call.opened : Call → Option Nat
  | .openFile _ _ (.ok fd) => some fd
  | _ => none

def Call.closed : Call → Option Nat
  | .close fd => some fd
  | _ => none

def Call.written : Call → Option (Except Errno Nat)
  | .write _ _ result => some result
  | _ => none

/-- The store has returned 0 if its last write has told the whole length and -1 otherwise, and it
has closed what it has opened. -/
structure Verdict (data : List UInt8) (rc : Int) (calls : List Call) : Prop where
  complete : (calls.filterMap Call.written).getLast? = some (.ok data.length) → rc = 0
  short : (calls.filterMap Call.written).getLast? ≠ some (.ok data.length) → rc = -1
  closes : calls.filterMap Call.closed = calls.filterMap Call.opened

section Write

variable {disk : Disk σ} {data : List UInt8} {fd k tries : Nat} {result : Except Errno Nat}
variable {s s' : σ} {calls : List Call}

/-- What `write` returns. -/
def writeValue : Except Errno Nat → Int
  | .ok count => count
  | .error _ => -1

/-- The calls of the writes, the last one after `k` that are interrupted. -/
def writeCalls (fd : Nat) (data : List UInt8) (k : Nat) (result : Except Errno Nat) : List Call :=
  List.replicate k (.write fd data (.error .EINTR)) ++ [.write fd data result]

theorem Writes.settled (writes : Writes disk data fd s k result s') : result ≠ .error .EINTR := by
  induction writes with
  | last _ other => exact other
  | again _ _ ih => exact ih

theorem Writes.unique {k' : Nat} {result' : Except Errno Nat} {s'' : σ}
    (writes : Writes disk data fd s k result s') (writes' : Writes disk data fd s k' result' s'') :
    result = result' := by
  induction writes generalizing k' with
  | last once other =>
      cases writes' with
      | last once' other' => exact (Prod.mk.inj (once.symm.trans once')).1
      | again once' _ => exact absurd (Prod.mk.inj (once.symm.trans once')).1 other
  | again once _ ih =>
      cases writes' with
      | last once' other' => exact absurd (Prod.mk.inj (once'.symm.trans once)).1 other'
      | again once' later' =>
          obtain ⟨-, same⟩ := Prod.mk.inj (once.symm.trans once')
          subst same
          exact ih later'

theorem Writes.counted {count : Nat}
    (within : ∀ fd s count s', disk.write fd data s = (.ok count, s') → count ≤ data.length)
    (writes : Writes disk data fd s k (.ok count) s') : count ≤ data.length := by
  generalize told : (Except.ok count : Except Errno Nat) = result at writes
  induction writes with
  | last once other =>
      subst told
      exact within _ _ _ _ once
  | again _ _ ih => exact ih told

theorem writeAgain_recorded (writes : Writes disk data fd s k result s') (enough : k < tries) :
    writeAgain (recorded disk) data fd tries (s, calls) =
      .ok (writeValue result, s', calls ++ writeCalls fd data k result) := by
  induction writes generalizing tries calls with
  | @last s result s' once other =>
      obtain ⟨tries, rfl⟩ := Nat.exists_eq_add_of_lt enough
      rw [Nat.zero_add, writeAgain, recorded_write once]
      cases result with
      | ok count => rfl
      | error errno =>
          have different : errno ≠ .EINTR := fun same => other (congrArg _ same)
          exact if_neg different
  | @again s s₁ k result s' once later ih =>
      cases tries with
      | zero => cases enough
      | succ tries =>
          rw [writeAgain, recorded_write once]
          dsimp only
          rw [if_pos rfl, ih (Nat.lt_of_succ_lt_succ enough), List.append_assoc, writeCalls,
            writeCalls, List.replicate_succ]
          rfl

/-- A length is short as it is; `-1` is not short of any length below 2^32. -/
theorem shortWrite_iff (small : data.length < 2 ^ 32)
    (counted : ∀ count, result = .ok count → count ≤ data.length) :
    shortWrite (writeValue result) data.length = true ↔
      ∃ count, result = .ok count ∧ count < data.length := by
  rw [shortWrite, decide_eq_true_iff]
  cases result with
  | ok count =>
      have inside := counted count rfl
      have value : (writeValue (.ok count) % 2 ^ 32).toNat = count := by
        rw [writeValue]
        omega
      rw [value]
      constructor
      · intro less
        exact ⟨count, rfl, less⟩
      · rintro ⟨count, same, less⟩
        cases same
        exact less
  | error errno =>
      have value : (writeValue (.error errno) % 2 ^ 32).toNat = 2 ^ 32 - 1 := by
        rw [writeValue]
        rfl
      rw [value]
      constructor
      · intro less
        omega
      · rintro ⟨count, impossible, -⟩
        cases impossible

theorem storeOpened_recorded (writes : Writes disk data fd s k result s') (enough : k < tries) :
    storeOpened (recorded disk) tries data fd (s, calls) =
      .ok (if shortWrite (writeValue result) data.length then -1 else 0, disk.close fd s',
        calls ++ writeCalls fd data k result ++ [.close fd]) := by
  rw [storeOpened, writeAgain_recorded writes enough, ok_bind]
  dsimp only
  split <;> rfl

end Write

/-! ## The file of a store -/

/-- The calls before the first write. -/
structure Opening (fd : Option Nat) (calls : List Call) : Prop where
  opened : calls.filterMap Call.opened = fd.toList
  closed : calls.filterMap Call.closed = []
  written : calls.filterMap Call.written = []

/-- The file that `CacheDiskStore` opens or creates. -/
def storeFile (disk : Disk σ) (root : CacheRoot) (name : List UInt8) (s : σ) :
    Except Fault (Option Nat × σ) :=
  let opened := disk.openFile name false s
  match opened.1 with
  | .ok fd => .ok (some fd, opened.2)
  | .error _ => createFile disk name root.length opened.2

/-- What is done with it, if there is one. -/
def storeIn (disk : Disk σ) (tries : Nat) (data : List UInt8) :
    Option Nat → σ → Except Fault (Int × σ)
  | none, s => .ok (-1, s)
  | some fd, s => storeOpened disk tries data fd s

section File

variable {disk : Disk σ} {root : CacheRoot} {stat : Stat} {md5 : List UInt8 → Digest}
variable {url name buf : List UInt8} {s s' : σ} {calls : List Call} {fd : Option Nat} {j : Nat}

theorem Creation.opening (creation : Creation disk root url name s fd s' calls) :
    Opening fd calls := by
  cases creation with
  | untried stops => exact ⟨rfl, rfl, rfl⟩
  | @first _ result opens other => cases result <;> exact ⟨rfl, rfl, rfl⟩
  | @unprepared _ _ result first stays last => cases result <;> exact ⟨rfl, rfl, rfl⟩
  | stopped first reaches makes leaves => exact ⟨rfl, rfl, rfl⟩
  | @second _ _ _ _ result first reaches makes leaves last =>
      cases result <;> exact ⟨rfl, rfl, rfl⟩

theorem Path.storeFile_opening (path : Path root url name) (disk : Disk σ) (s : σ) :
    ∃ fd s' calls, storeFile (recorded disk) root name (s, []) = .ok (fd, s', calls) ∧
      Opening fd calls := by
  cases opens : disk.openFile name false s with
  | mk result s₁ =>
      rw [storeFile, recorded_openFile opens]
      cases result with
      | ok fd => exact ⟨some fd, s₁, _, rfl, ⟨rfl, rfl, rfl⟩⟩
      | error errno =>
          obtain ⟨fd, s', more, creates, creation⟩ :=
            path.createFile_creation disk s₁ [.openFile name false (.error errno)]
          obtain ⟨opened, closed, written⟩ := creation.opening
          exact ⟨fd, s', _, creates, ⟨opened, closed, written⟩⟩

theorem cacheDiskStore_made (disk : Disk σ) (tries : Nat) (data : List UInt8) (s : σ)
    (small : data.length < CACHE_DISK_STORE_SIZE_MAX)
    (made : urlFilename root stat md5 nameBuffer 1024 url = .ok (some (buf, j))) :
    cacheDiskStore disk root stat md5 tries url data s =
      (storeFile disk root (cString buf) s >>= fun file => storeIn disk tries data file.1 file.2) := by
  have positive : ¬ j ≤ 0 := by
    have behind := (path_made made).behind
    have counted := (urlFilename_inside made).2
    omega
  rw [cacheDiskStore, if_neg (Nat.not_le.mpr small), made, ok_bind]
  dsimp only
  rw [if_neg positive, storeFile]
  cases disk.openFile (cString buf) false s with
  | mk result s₁ =>
      cases result with
      | ok fd => rfl
      | error errno =>
          dsimp only
          cases createFile disk (cString buf) root.length s₁ with
          | error fault => rfl
          | ok created =>
              obtain ⟨fd, s₂⟩ := created
              cases fd with
              | none => rfl
              | some fd => rfl

/-- The directories are the same with the calls written down, -/
theorem makeDirectories_recorded (disk : Disk σ) (name : List UInt8) (fuel n : Nat) (s : σ)
    (calls : List Call) :
    (makeDirectories (recorded disk) name fuel n (s, calls)).map (fun ran => (ran.1, ran.2.1)) =
      makeDirectories disk name fuel n s := by
  induction fuel generalizing n s calls with
  | zero => rfl
  | succ fuel ih =>
      rw [makeDirectories, makeDirectories]
      split
      · dsimp only
        split
        · rfl
        · split
          · rfl
          · cases makes : disk.mkdir (name.take (scanComponent name 512 n + 1)) s with
            | mk result s' =>
                rw [recorded_mkdir makes]
                cases result with
                | ok _ => exact ih _ s' _
                | error errno =>
                    dsimp only
                    split
                    · rfl
                    · exact ih _ s' _
      · rfl

/-- and so is the file. -/
theorem createFile_recorded (disk : Disk σ) (root : CacheRoot) (name : List UInt8) (s : σ)
    (calls : List Call) :
    (createFile (recorded disk) name root.length (s, calls)).map (fun ran => (ran.1, ran.2.1)) =
      createFile disk name root.length s := by
  rw [createFile_eq, createFile_eq]
  split
  · rfl
  · cases opens : disk.openFile name true s with
    | mk result s₁ =>
        rw [recorded_openFile opens]
        dsimp only
        split
        · rw [← makeDirectories_recorded disk name 1025 (startOf root name) s₁
            (calls ++ [.openFile name true result])]
          cases makeDirectories (recorded disk) name 1025 (startOf root name)
              (s₁, calls ++ [.openFile name true result]) with
          | error fault => rfl
          | ok ran =>
              obtain ⟨made, s₂, calls₂⟩ := ran
              cases made with
              | false => rfl
              | true => rfl
        · rfl

theorem storeFile_recorded {calls' : List Call}
    (opens : storeFile (recorded disk) root name (s, calls) = .ok (fd, s', calls')) :
    storeFile disk root name s = .ok (fd, s') := by
  cases first : disk.openFile name false s with
  | mk result s₁ =>
      rw [storeFile, recorded_openFile first] at opens
      rw [storeFile, first]
      cases result with
      | ok opened =>
          cases opens
          rfl
      | error errno =>
          have plain := createFile_recorded disk root name s₁
            (calls ++ [.openFile name false (.error errno)])
          dsimp only at opens ⊢
          rw [opens] at plain
          exact plain.symm

/-- The verdict over the calls of a store that has had its file. -/
theorem verdict_written {fd k : Nat} {data : List UInt8} {result : Except Errno Nat} {rc : Int}
    (opening : Opening (some fd) calls) :
    Verdict data rc (calls ++ writeCalls fd data k result ++ [Call.close fd]) ↔
      (result = .ok data.length → rc = 0) ∧ (result ≠ .ok data.length → rc = -1) := by
  have last : ((calls ++ writeCalls fd data k result ++ [Call.close fd]).filterMap
      Call.written).getLast? = some result := by
    rw [List.filterMap_append, List.filterMap_append, opening.written, writeCalls,
      List.filterMap_append, List.nil_append, List.append_assoc]
    exact List.getLast?_concat
  have closes : (calls ++ writeCalls fd data k result ++ [Call.close fd]).filterMap Call.closed =
      (calls ++ writeCalls fd data k result ++ [Call.close fd]).filterMap Call.opened := by
    have plain : ∀ call ∈ writeCalls fd data k result, call.closed = none ∧ call.opened = none := by
      intro call member
      rcases List.mem_append.mp member with interrupted | final
      · rw [List.eq_of_mem_replicate interrupted]
        exact ⟨rfl, rfl⟩
      · rw [List.mem_singleton.mp final]
        exact ⟨rfl, rfl⟩
    have noClose : (writeCalls fd data k result).filterMap Call.closed = [] :=
      List.filterMap_eq_nil_iff.mpr fun call member => (plain call member).1
    have noOpen : (writeCalls fd data k result).filterMap Call.opened = [] :=
      List.filterMap_eq_nil_iff.mpr fun call member => (plain call member).2
    rw [List.filterMap_append, List.filterMap_append, List.filterMap_append, List.filterMap_append,
      opening.opened, opening.closed, noClose, noOpen]
    rfl
  constructor
  · intro verdict
    constructor
    · intro whole
      exact verdict.complete (last.trans (congrArg some whole))
    · intro other
      exact verdict.short fun whole => other (Option.some.inj (last.symm.trans whole))
  · rintro ⟨complete, short⟩
    constructor
    · intro whole
      exact complete (Option.some.inj (last.symm.trans whole))
    · intro other
      exact short fun whole => other (last.trans (congrArg some whole))
    · exact closes

end File

/-- The write to the file of the store fails, for good. -/
def WriteFails (disk : Disk σ) (root : CacheRoot) (stat : Stat) (md5 : List UInt8 → Digest)
    (URI data : List UInt8) (s : σ) : Prop :=
  ∃ buf j fd s₁ k errno s₂,
    urlFilename root stat md5 nameBuffer 1024 URI = .ok (some (buf, j)) ∧
      storeFile disk root (cString buf) s = .ok (some fd, s₁) ∧
      Writes disk data fd s₁ k (.error errno) s₂

/-- With enough tries, the store returns `rc` after these calls. -/
def Returns (disk : Disk σ) (root : CacheRoot) (stat : Stat) (md5 : List UInt8 → Digest)
    (URI data : List UInt8) (s : σ) (rc : Int) (calls : List Call) : Prop :=
  ∃ least s', ∀ tries, least ≤ tries →
    cacheDiskStore (recorded disk) root stat md5 tries URI data (s, []) = .ok (rc, s', calls)

section Store

variable {disk : Disk σ} {root : CacheRoot} {stat : Stat} {md5 : List UInt8 → Digest}
variable {URI data : List UInt8} {s : σ}
variable (small : data.length < CACHE_DISK_STORE_SIZE_MAX)
variable (counted : ∀ fd s count s', disk.write fd data s = (.ok count, s') → count ≤ data.length)
variable (answered : ∀ fd s, ∃ k result s', Writes disk data fd s k result s')

theorem nameBuffer_kept (root : CacheRoot) (stat : Stat) (md5 : List UInt8 → Digest)
    (URI : List UInt8) :
    (∃ result, urlFilename root stat md5 nameBuffer 1024 URI = .ok result) ↔
      (0 < cacheRootCheck root stat → ¬ Overrun root 1024 URI) := by
  have size : nameBuffer.length = 1024 := List.length_replicate
  constructor
  · rintro ⟨result, made⟩ checked
    obtain ⟨directory, dirname, -⟩ := bind_eq_ok made
    intro overrun
    cases dirname.symm.trans (urlDirname_overruns checked size overrun)
  · intro room
    by_cases checked : 0 < cacheRootCheck root stat
    · have kept : Kept 1024 (urlDirname root stat nameBuffer 1024 URI) :=
        (urlDirname_kept_iff checked size).mpr (room checked)
      obtain ⟨result, made, -⟩ := urlFilename_kept md5 kept
      exact ⟨result, made⟩
    · refine ⟨none, ?_⟩
      rw [urlFilename, urlDirname_unchecked checked]
      rfl

include small counted answered

/-- The store returns the verdict on its last write, with the descriptor closed, if and only if the
name stays in its buffer and that write does not fail. -/
theorem store_right_iff :
    (∃ rc calls, Returns disk root stat md5 URI data s rc calls ∧ Verdict data rc calls) ↔
      (0 < cacheRootCheck root stat → ¬ Overrun root 1024 URI) ∧
        ¬ WriteFails disk root stat md5 URI data s := by
  rw [← nameBuffer_kept root stat md5 URI]
  have within : data.length < 2 ^ 32 := Nat.lt_trans small (by decide)
  constructor
  · rintro ⟨rc, calls, ⟨least, s', runs⟩, verdict⟩
    have named : ∃ result, urlFilename root stat md5 nameBuffer 1024 URI = .ok result := by
      have run := runs least (Nat.le_refl least)
      rw [cacheDiskStore, if_neg (Nat.not_le.mpr small)] at run
      obtain ⟨result, made, -⟩ := bind_eq_ok run
      exact ⟨result, made⟩
    refine ⟨named, ?_⟩
    rintro ⟨buf, j, fd, s₁, k, errno, s₂, made, opens, writes⟩
    obtain ⟨fd', s₁', before, opened, opening⟩ := (path_made made).storeFile_opening disk s
    cases opens.symm.trans (storeFile_recorded opened)
    have unnoticed : ¬ shortWrite (writeValue (.error errno)) data.length = true := by
      rw [shortWrite_iff within (by rintro count ⟨⟩)]
      rintro ⟨count, impossible, -⟩
      cases impossible
    have run := runs (max least (k + 1)) (Nat.le_max_left _ _)
    rw [cacheDiskStore_made _ _ _ _ small made, opened, ok_bind, storeIn,
      storeOpened_recorded writes (Nat.le_max_right _ _)] at run
    cases run
    have failed : (Except.error errno : Except Errno Nat) ≠ .ok data.length := fun same => by
      cases same
    have value := ((verdict_written opening).mp verdict).2 failed
    rw [if_neg unnoticed] at value
    cases value
  · rintro ⟨⟨result, made⟩, holds⟩
    cases result with
    | none =>
        refine ⟨-1, [], ⟨0, s, ?_⟩, ?_⟩
        · intro tries _
          rw [cacheDiskStore, if_neg (Nat.not_le.mpr small), made]
          rfl
        · constructor
          · intro whole
            cases whole
          · intro _
            rfl
          · rfl
    | some named =>
        obtain ⟨buf, j⟩ := named
        obtain ⟨fd, s₁, before, opened, opening⟩ := (path_made made).storeFile_opening disk s
        cases fd with
        | none =>
            refine ⟨-1, before, ⟨0, s₁, ?_⟩, ?_⟩
            · intro tries _
              rw [cacheDiskStore_made _ _ _ _ small made, opened]
              rfl
            · refine ⟨?_, fun _ => rfl, ?_⟩
              · intro whole
                rw [opening.written] at whole
                cases whole
              · rw [opening.closed, opening.opened]
                rfl
        | some fd =>
            obtain ⟨k, result, s₂, writes⟩ := answered fd s₁
            have counts : ∀ count, result = .ok count → count ≤ data.length := by
              rintro count rfl
              exact writes.counted counted
            have succeeds : ∀ errno, result ≠ .error errno := by
              rintro errno rfl
              exact holds ⟨buf, j, fd, s₁, k, errno, s₂, made, storeFile_recorded opened, writes⟩
            refine ⟨if shortWrite (writeValue result) data.length then -1 else 0,
              before ++ writeCalls fd data k result ++ [.close fd],
              ⟨k + 1, disk.close fd s₂, ?_⟩, (verdict_written opening).mpr ?_⟩
            · intro tries enough
              rw [cacheDiskStore_made _ _ _ _ small made, opened, ok_bind, storeIn,
                storeOpened_recorded writes enough]
            · have short := shortWrite_iff within counts
              cases result with
              | error errno => exact absurd rfl (succeeds errno)
              | ok count =>
                  have bound := counts count rfl
                  constructor
                  · intro whole
                    cases whole
                    apply if_neg
                    rw [short]
                    rintro ⟨count, same, less⟩
                    cases same
                    exact Nat.lt_irrefl _ less
                  · intro other
                    apply if_pos
                    apply short.mpr
                    refine ⟨count, rfl, Nat.lt_of_le_of_ne bound ?_⟩
                    exact fun same => other (congrArg _ same)

end Store

theorem store_right_sample :
    (∃ rc calls, Returns directoryDisk sampleRoot allDirectories (fun _ => zeroDigest) (longHost 1) [65]
        rootDirectories rc calls ∧ Verdict [65] rc calls) ↔
      (0 < cacheRootCheck sampleRoot allDirectories → ¬ Overrun sampleRoot 1024 (longHost 1)) ∧
        ¬ WriteFails directoryDisk sampleRoot allDirectories (fun _ => zeroDigest) (longHost 1) [65]
          rootDirectories := by
  apply store_right_iff
  · decide
  · intro fd s count s' writes
    cases writes
    exact Nat.le_refl 1
  · intro fd s
    exact ⟨0, _, _, .last rfl (by rintro ⟨⟩)⟩

/-- Every file is there, and every write fails. -/
def brokenDisk : Disk Unit where
  openFile _ _ _ := (.ok 5, ())
  mkdir _ _ := (.ok (), ())
  write _ _ _ := (.error .other, ())
  close _ _ := ()
  access _ _ := true
  readFile _ _ _ := none

theorem failed_write_returns_zero : ∃ calls,
    Returns brokenDisk sampleRoot allDirectories (fun _ => zeroDigest) (longHost 1) [65] () 0 calls ∧
      ¬ Verdict [65] 0 calls := by
  obtain ⟨buf, j, made⟩ := longHost_made (n := 1) (by decide : 0 < cacheRootCheck sampleRoot _) (by decide)
    (by decide)
  have writes : Writes brokenDisk [65] 5 () 0 (.error .other) () := .last rfl (by rintro ⟨⟩)
  have opening : Opening (some 5) [.openFile (cString buf) false (.ok 5)] := ⟨rfl, rfl, rfl⟩
  refine ⟨[.openFile (cString buf) false (.ok 5)] ++ writeCalls 5 [65] 0 (.error .other) ++
    [.close 5], ⟨1, (), ?_⟩, ?_⟩
  · intro tries enough
    rw [cacheDiskStore_made _ _ _ _ (by decide) made]
    exact storeOpened_recorded writes enough
  · rw [verdict_written opening]
    rintro ⟨-, short⟩
    exact absurd (short (by rintro ⟨⟩)) (by decide)

end Poplar.HttpCache
