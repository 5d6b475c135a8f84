import Poplar.HttpCache.Disk
import Poplar.HttpCache.Names

/-!
# The calls of a store

The calls of the disk are written down, with what they tell. Of the two limits in
`createFile` the smaller one decides which directories are made; a write that fails is taken
for a complete one.
-/
namespace Poplar.HttpCache

open Http (ascii slash point)

variable {σ : Type}

/-- A call and what it tells. -/
inductive Call where
  | openFile (name : List UInt8) (create : Bool) (result : Except Errno Nat)
  | mkdir (dir : List UInt8) (result : Except Errno Unit)
  | write (fd : Nat) (data : List UInt8) (result : Except Errno Nat)
  | close (fd : Nat)

/-- The disk, whose calls are written down. -/
def recorded (disk : Disk σ) : Disk (σ × List Call) where
  openFile name create s :=
    let ran := disk.openFile name create s.1
    (ran.1, ran.2, s.2 ++ [.openFile name create ran.1])
  mkdir dir s :=
    let ran := disk.mkdir dir s.1
    (ran.1, ran.2, s.2 ++ [.mkdir dir ran.1])
  write fd data s :=
    let ran := disk.write fd data s.1
    (ran.1, ran.2, s.2 ++ [.write fd data ran.1])
  close fd s := (disk.close fd s.1, s.2 ++ [.close fd])
  access name s := disk.access name s.1
  readFile name n s := disk.readFile name n s.1

section Recorded

variable {disk : Disk σ} {s s' : σ} {calls : List Call} {name dir data : List UInt8} {fd : Nat}

theorem recorded_openFile {create : Bool} {result : Except Errno Nat}
    (opens : disk.openFile name create s = (result, s')) :
    (recorded disk).openFile name create (s, calls) =
      (result, s', calls ++ [.openFile name create result]) := by
  simp only [recorded, opens]

theorem recorded_mkdir {result : Except Errno Unit} (makes : disk.mkdir dir s = (result, s')) :
    (recorded disk).mkdir dir (s, calls) = (result, s', calls ++ [.mkdir dir result]) := by
  simp only [recorded, makes]

theorem recorded_write {result : Except Errno Nat} (writes : disk.write fd data s = (result, s')) :
    (recorded disk).write fd data (s, calls) = (result, s', calls ++ [.write fd data result]) := by
  simp only [recorded, writes]

end Recorded

/-! ## The directories of a path -/

/-- A `mkdir` after which the directory is there. -/
def leavesThere : Except Errno Unit → Bool
  | .ok _ => true
  | .error errno => errno = .EEXIST

section Scan

variable {name : List UInt8} {n fuel : Nat}

/-- The scan stops at a `/`, at the end or at index 512, and passes none of them. -/
theorem scanComponent_stops (name : List UInt8) (n fuel : Nat) (enough : 512 ≤ n + fuel) :
    ∃ m, scanComponent name fuel n = m ∧ n ≤ m ∧
      (∀ k, n ≤ k → k < m → name.getD k 0 ≠ slash ∧ k < 512) ∧
      (name.getD m 0 = slash ∨ name.getD m 0 = 0 ∨ 512 ≤ m) := by
  induction fuel generalizing n with
  | zero =>
      refine ⟨n, rfl, Nat.le_refl n, ?_, .inr (.inr enough)⟩
      intro k above below
      omega
  | succ fuel ih =>
      rw [scanComponent]
      split
      · next goes =>
        obtain ⟨m, scan, above, passed, stopped⟩ := ih (n := n + 1) (by omega)
        refine ⟨m, scan, by omega, ?_, stopped⟩
        intro k from_ before
        by_cases here : k = n
        · rw [here]
          exact ⟨goes.1, goes.2.2⟩
        · exact passed k (by omega) before
      · next stops =>
        refine ⟨n, rfl, Nat.le_refl n, ?_, ?_⟩
        · intro k above below
          omega
        · by_contra goes
          obtain ⟨other, more⟩ := not_or.mp goes
          obtain ⟨byte, small⟩ := not_or.mp more
          exact stops ⟨other, byte, Nat.not_le.mp small⟩

variable {disk : Disk σ} {s : σ} {h : Nat}

/-- No directory is made where every `/` is beyond 512 and behind the first byte looked at. -/
theorem makeDirectories_far
    (far : ∀ k, n ≤ k → name.getD k 0 = slash → 512 < k ∧ n < k) :
    makeDirectories disk name (fuel + 1) n s = .ok (true, s) := by
  rw [makeDirectories]
  split
  · obtain ⟨m, scan, above, passed, -⟩ := scanComponent_stops name n 512 (by omega)
    have plain : name.getD m 0 ≠ slash := by
      intro found
      obtain ⟨beyond, behind⟩ := far m above found
      obtain ⟨-, small⟩ := passed (m - 1) (by omega) (by omega)
      omega
    dsimp only
    rw [scan, if_pos (.inl plain)]
  · rfl

/-- The directory that ends at the first `/` is made where the scan gets there. -/
theorem makeDirectories_near {result : Except Errno Unit} {s' : σ} (found : name.getD h 0 = slash)
    (above : n ≤ h) (near : h ≤ 512 ∨ n = h) (room : h + 1 < 1024)
    (first : ∀ k, n ≤ k → k < h → name.getD k 0 ≠ slash ∧ name.getD k 0 ≠ 0)
    (makes : disk.mkdir (name.take (h + 1)) s = (result, s')) :
    makeDirectories disk name (fuel + 1) n s =
      if leavesThere result then makeDirectories disk name fuel (h + 1) s' else .ok (false, s') := by
  obtain ⟨m, scan, from_, passed, stopped⟩ := scanComponent_stops name n 512 (by omega)
  have reached : m = h := by
    rcases Nat.lt_trichotomy m h with before | same | behind
    · obtain ⟨other, byte⟩ := first m from_ before
      rcases stopped with slashHere | nulHere | limit
      · exact absurd slashHere other
      · exact absurd nulHere byte
      · omega
    · exact same
    · exact absurd found (passed h above behind).1
  have some_ : name.getD n 0 ≠ 0 := by
    rcases Nat.lt_or_eq_of_le above with before | same
    · exact (first n (Nat.le_refl n) before).2
    · rw [same, found]
      decide
  have inside : ¬ (name.getD h 0 ≠ slash ∨ h ≥ 1024) := by
    rintro (other | beyond)
    · exact other found
    · omega
  rw [makeDirectories, if_pos ⟨some_, by omega⟩]
  dsimp only
  rw [scan, reached, if_neg inside, if_neg (by omega), makes]
  cases result with
  | ok _ => rfl
  | error errno =>
      by_cases known : errno = .EEXIST
      · have there : leavesThere (.error errno) = true := decide_eq_true known
        rw [if_pos there]
        exact if_neg (not_not.mpr known)
      · have missing : ¬ leavesThere (.error errno) = true := fun there =>
          known (of_decide_eq_true there)
        rw [if_neg missing]
        exact if_pos known

end Scan

/-- The directories of a path beyond the separator of the root, the shorter ones first. -/
def directoriesBeyond (root : CacheRoot) (name : List UInt8) : List (List UInt8) :=
  ((List.range name.length).filter fun i =>
    root.directory.length ≤ i ∧ name.getD i 0 = slash).map fun i => name.take (i + 1)

/-- Where the `/` behind the host stands in the path of a URL. -/
def hostEnd (root : CacheRoot) (url : List UInt8) : Nat :=
  root.directory.length + (encodeHost (hostPart url)).length

section Paths

variable {root : CacheRoot} {stat : Stat} {md5 : List UInt8 → Digest}
variable {n j k : Nat} {url buf buf' : List UInt8}

theorem directory_ends (root : CacheRoot) :
    1 ≤ root.directory.length ∧ root.directory.getD (root.directory.length - 1) 0 = slash := by
  have last : root.directory.getLast? = some slash := by
    unfold CacheRoot.directory
    by_cases ends : root.path.getLast? = some slash
    · rw [if_pos ends, List.append_nil, ends]
    · rw [if_neg ends, List.getLast?_append]
      rfl
  rw [List.getLast?_eq_getElem?] at last
  constructor
  · rcases Nat.eq_zero_or_pos root.directory.length with zero | positive
    · rw [List.eq_nil_of_length_eq_zero zero] at last
      cases last
    · exact positive
  · rw [List.getD_eq_getElem?_getD, last]
    rfl

/-- A path made: the root, the host, a `/` and a name without one. -/
structure Path (root : CacheRoot) (url name : List UInt8) : Prop where
  parts : ∃ file, name = root.directory ++ encodeHost (hostPart url) ++ slash :: file ∧ slash ∉ file
  string : ∀ c ∈ name, c ≠ 0
  short : name.length < 1024
  behind : hostEnd root url + 25 = name.length

theorem urlFilename_room (made : urlFilename root stat md5 buf n url = .ok (some (buf', j))) :
    j < n := by
  rw [urlFilename] at made
  obtain ⟨directory, -, made⟩ := bind_eq_ok made
  cases directory with
  | none => cases made
  | some result =>
      dsimp only at made
      split at made
      · cases made
      · next room =>
        obtain ⟨name, -, made⟩ := bind_eq_ok made
        obtain ⟨buf1, -, made⟩ := bind_eq_ok made
        obtain ⟨buf2, -, made⟩ := bind_eq_ok made
        cases made
        exact Nat.not_le.mp room

theorem path_made (made : urlFilename root stat md5 buf 1024 url = .ok (some (buf', j))) :
    Path root url (cString buf') := by
  obtain ⟨file, -, length, letters, text, counted, -⟩ := urlFilename_writes made
  constructor
  · refine ⟨file, ?_, fun member => absurd (letters slash member) (by decide)⟩
    rw [text, List.append_assoc _ [slash]]
    rfl
  · intro c member
    rw [text, List.mem_append] at member
    rcases member with ofDirectory | ofName
    · exact dirname_string root url c ofDirectory
    · have noNul : ¬ NameChar 0 := by decide
      exact fun zero => noNul (zero ▸ letters c ofName)
  · rw [← counted]
    exact urlFilename_room made
  · rw [text, hostEnd]
    simp only [List.length_append, List.length_singleton, length]

variable {name : List UInt8} (path : Path root url name)

include path

/-- Beyond the root, the path has one `/`. -/
theorem Path.slash_iff (beyond : root.directory.length ≤ k) :
    name.getD k 0 = slash ↔ k = hostEnd root url := by
  obtain ⟨file, rfl, plain⟩ := path.parts
  have host := hostText_encodeHost (hostPart url)
  rw [List.getD_eq_getElem?_getD]
  constructor
  · intro found
    rcases Nat.lt_trichotomy k (hostEnd root url) with before | same | after
    · have inside : k - root.directory.length < (encodeHost (hostPart url)).length := by
        rw [hostEnd] at before
        omega
      rw [List.append_assoc, List.getElem?_append_right beyond, List.getElem?_append_left inside,
        List.getElem?_eq_getElem inside] at found
      exact absurd found (host.plain _ (List.getElem_mem inside)).1
    · exact same
    · rw [List.getElem?_append_right (by rw [List.length_append, ← hostEnd]; omega),
        List.length_append, ← hostEnd] at found
      obtain ⟨i, rfl⟩ := Nat.exists_eq_add_of_lt after
      rw [(by omega : hostEnd root url + i + 1 - hostEnd root url = i + 1),
        List.getElem?_cons_succ] at found
      cases there : file[i]? with
      | none =>
          rw [there] at found
          cases found
      | some c =>
          rw [there] at found
          have same : c = slash := found
          exact absurd (same ▸ List.mem_of_getElem? there) plain
  · intro same
    rw [same, List.getElem?_append_right (by rw [List.length_append, ← hostEnd]),
      List.length_append, ← hostEnd, Nat.sub_self]
    rfl

theorem Path.not_nul (inside : k < name.length) : name.getD k 0 ≠ 0 := by
  rw [List.getD_eq_getElem?_getD, List.getElem?_eq_getElem inside]
  exact path.string _ (List.getElem_mem inside)

theorem Path.directoriesBeyond :
    directoriesBeyond root name = [name.take (hostEnd root url + 1)] := by
  have length := path.behind
  have only : (List.range name.length).filter
      (fun i => decide (root.directory.length ≤ i ∧ name.getD i 0 = slash)) =
      (List.range name.length).filter (fun i => decide (i = hostEnd root url)) := by
    apply List.filter_congr
    intro i _
    rw [decide_eq_decide]
    constructor
    · rintro ⟨beyond, found⟩
      exact (path.slash_iff beyond).mp found
    · intro same
      have beyond : root.directory.length ≤ i := same ▸ Nat.le_add_right _ _
      exact ⟨beyond, (path.slash_iff beyond).mpr same⟩
  have once : (List.range name.length).count (hostEnd root url) = 1 :=
    List.count_eq_one_of_mem List.nodup_range (List.mem_range.mpr (by omega))
  rw [HttpCache.directoriesBeyond, only, List.filter_eq, once]
  rfl

/-- The name begins with the separator of the root. -/
theorem Path.separator : name.getD (root.directory.length - 1) 0 = slash := by
  obtain ⟨file, rfl, -⟩ := path.parts
  obtain ⟨positive, ends⟩ := directory_ends root
  rw [List.getD_eq_getElem?_getD] at ends ⊢
  rw [List.append_assoc, List.getElem?_append_left (by omega)]
  exact ends

end Paths

/-! ## Creating the file -/

/-- Where `createFile` starts to look for directories. -/
def startOf (root : CacheRoot) (name : List UInt8) : Nat :=
  if name.getD root.length 0 = slash then root.length + 1 else root.length

/-- The scan gets to the `/` behind the host: not with 512 bytes before it, unless it is the first
byte looked at, and not where it is taken for the separator of the root. -/
def Reaches (root : CacheRoot) (url : List UInt8) : Prop :=
  (hostPart url = [] → root.path.getLast? ≠ some slash) ∧
    (hostPart url ≠ [] → hostEnd root url ≤ 512)

section Start

variable {root : CacheRoot} {url name : List UInt8}

theorem encodeHost_length_zero : (encodeHost (hostPart url)).length = 0 ↔ hostPart url = [] := by
  constructor
  · intro none_
    exact encodeHost_injective (List.eq_nil_of_length_eq_zero none_)
  · intro empty
    rw [empty]
    rfl

theorem Path.startOf_eq (path : Path root url name) :
    startOf root name =
      if root.path.getLast? = some slash ∧ hostPart url = [] then hostEnd root url + 1
      else root.directory.length := by
  have length := directory_length root
  have empty : (encodeHost (hostPart url)).length = 0 ↔ hostPart url = [] := encodeHost_length_zero
  rw [startOf]
  by_cases ends : root.path.getLast? = some slash
  · rw [if_pos ends] at length
    have found := path.slash_iff (k := root.length) (Nat.le_of_eq length)
    rw [hostEnd] at found ⊢
    by_cases none_ : hostPart url = []
    · have zero := empty.mpr none_
      rw [if_pos (found.mpr (by omega)), if_pos ⟨ends, none_⟩]
      omega
    · have some_ : (encodeHost (hostPart url)).length ≠ 0 := fun zero => none_ (empty.mp zero)
      have other : ¬ name.getD root.length 0 = slash := by
        intro here
        have same := found.mp here
        omega
      rw [if_neg other, if_neg fun both => none_ both.2, length]
  · rw [if_neg ends] at length
    have found := path.separator
    rw [length, Nat.add_sub_cancel] at found
    rw [if_pos found, if_neg fun both => ends both.1, length]

theorem Path.start_near (path : Path root url name) (reaches : Reaches root url) :
    startOf root name = root.directory.length ∧
      (hostEnd root url ≤ 512 ∨ startOf root name = hostEnd root url) := by
  have start := path.startOf_eq
  rw [if_neg fun both => reaches.1 both.2 both.1] at start
  refine ⟨start, ?_⟩
  by_cases none_ : hostPart url = []
  · right
    rw [start, hostEnd, encodeHost_length_zero.mpr none_, Nat.add_zero]
  · exact .inl (reaches.2 none_)

theorem Path.start_far (path : Path root url name) (stays : ¬ Reaches root url) :
    root.directory.length ≤ startOf root name ∧
      (hostEnd root url < startOf root name ∨
        512 < hostEnd root url ∧ startOf root name < hostEnd root url) := by
  have start := path.startOf_eq
  split at start
  · rw [start, hostEnd]
    exact ⟨by omega, .inl (by omega)⟩
  · next apart =>
    refine ⟨Nat.le_of_eq start.symm, .inr ?_⟩
    by_cases none_ : hostPart url = []
    · exact absurd ⟨fun _ ends => apart ⟨ends, none_⟩, fun some_ => absurd none_ some_⟩ stays
    · have beyond : ¬ hostEnd root url ≤ 512 := fun near =>
        stays ⟨fun empty => absurd empty none_, fun _ => near⟩
      have some_ : (encodeHost (hostPart url)).length ≠ 0 := fun zero =>
        none_ (encodeHost_length_zero.mp zero)
      rw [start, hostEnd]
      rw [hostEnd] at beyond
      omega

variable {disk : Disk σ} {s s' : σ} {calls : List Call} {fuel : Nat}

/-- Where the scan gets there, the directory of the host is made, -/
theorem Path.makes_near (path : Path root url name) (reaches : Reaches root url)
    {result : Except Errno Unit}
    (makes : disk.mkdir (name.take (hostEnd root url + 1)) s = (result, s')) :
    makeDirectories (recorded disk) name (fuel + 2) (startOf root name) (s, calls) =
      .ok (leavesThere result,
        s', calls ++ [.mkdir (name.take (hostEnd root url + 1)) result]) := by
  obtain ⟨start, near⟩ := path.start_near reaches
  have inside := path.behind
  have short := path.short
  have front : root.directory.length ≤ hostEnd root url := Nat.le_add_right _ _
  have found : name.getD (hostEnd root url) 0 = slash := (path.slash_iff front).mpr rfl
  have first : ∀ k, startOf root name ≤ k → k < hostEnd root url →
      name.getD k 0 ≠ slash ∧ name.getD k 0 ≠ 0 := by
    intro k from_ before
    constructor
    · intro slashHere
      exact Nat.ne_of_lt before ((path.slash_iff (by omega)).mp slashHere)
    · exact path.not_nul (by omega)
  rw [makeDirectories_near found (by omega) near (by omega) first (recorded_mkdir makes)]
  cases leaves : leavesThere result with
  | false => rfl
  | true =>
      have none_ : ∀ k, hostEnd root url + 1 ≤ k → name.getD k 0 = slash →
          512 < k ∧ hostEnd root url + 1 < k := by
        intro k behind slashHere
        have same := (path.slash_iff (by omega)).mp slashHere
        omega
      exact makeDirectories_far none_

/-- and otherwise none is made. -/
theorem Path.makes_far (path : Path root url name) (stays : ¬ Reaches root url) :
    makeDirectories (recorded disk) name (fuel + 1) (startOf root name) (s, calls) =
      .ok (true, s, calls) := by
  obtain ⟨front, far⟩ := path.start_far stays
  apply makeDirectories_far
  intro k from_ found
  have same := (path.slash_iff (by omega)).mp found
  omega

end Start

/-! ## The two opens -/

/-- Between the two opens each directory beyond the root is made once, the shorter ones first;
where all of them are there then, the second open does not miss one. -/
def Prepared (root : CacheRoot) (name : List UInt8) (calls : List Call) : Prop :=
  ∃ (attempts : List (List UInt8 × Except Errno Unit)) (second : Option (Except Errno Nat)),
    calls = .openFile name true (.error .ENOENT) ::
        (attempts.map fun attempt => .mkdir attempt.1 attempt.2) ++
          (second.map (Call.openFile name true)).toList ∧
      attempts.map Prod.fst = directoriesBeyond root name ∧
      ((∀ attempt ∈ attempts, leavesThere attempt.2 = true) →
        ∃ result, second = some result ∧ result ≠ .error .ENOENT)

/-- What is there on the disk. An `open` that creates a file tells that a directory is missing only
if one is. -/
structure Directories (disk : Disk σ) where
  there : σ → List UInt8 → Prop
  makes : ∀ {dir s result s'}, disk.mkdir dir s = (result, s') → leavesThere result = true →
    there s' dir
  keeps : ∀ {dir dir' s result s'}, disk.mkdir dir s = (result, s') → there s dir' → there s' dir'
  opens : ∀ {name create dir s result s'}, disk.openFile name create s = (result, s') →
    there s dir → there s' dir
  misses : ∀ {name s s'}, disk.openFile name true s = (.error .ENOENT, s') →
    ∃ dir, dir <+: name ∧ dir.getLast? = some slash ∧ ¬ there s dir

/-- What `createFile` does for the path of a URL, and the calls it makes. -/
inductive Creation (disk : Disk σ) (root : CacheRoot) (url name : List UInt8) :
    σ → Option Nat → σ → List Call → Prop
  | untried {s} : startOf root name < 2 ∨ name.getD (startOf root name - 1) 0 ≠ slash →
      Creation disk root url name s none s []
  | first {s s₁ result} : disk.openFile name true s = (result, s₁) → result ≠ .error .ENOENT →
      Creation disk root url name s result.toOption s₁ [.openFile name true result]
  | unprepared {s s₁ s₂ result} : disk.openFile name true s = (.error .ENOENT, s₁) →
      ¬ Reaches root url → disk.openFile name true s₁ = (result, s₂) →
      Creation disk root url name s result.toOption s₂
        [.openFile name true (.error .ENOENT), .openFile name true result]
  | stopped {s s₁ s₂ made} : disk.openFile name true s = (.error .ENOENT, s₁) → Reaches root url →
      disk.mkdir (name.take (hostEnd root url + 1)) s₁ = (made, s₂) → leavesThere made = false →
      Creation disk root url name s none s₂
        [.openFile name true (.error .ENOENT), .mkdir (name.take (hostEnd root url + 1)) made]
  | second {s s₁ s₂ s₃ made result} : disk.openFile name true s = (.error .ENOENT, s₁) →
      Reaches root url → disk.mkdir (name.take (hostEnd root url + 1)) s₁ = (made, s₂) →
      leavesThere made = true → disk.openFile name true s₂ = (result, s₃) →
      Creation disk root url name s result.toOption s₃
        [.openFile name true (.error .ENOENT), .mkdir (name.take (hostEnd root url + 1)) made,
          .openFile name true result]

section Opens

variable {disk : Disk σ} {root : CacheRoot} {url name : List UInt8}
variable {s s' s₁ : σ} {calls : List Call} {fd : Option Nat}

/-- The last open of `createFile` -/
def openLast (disk : Disk σ) (name : List UInt8) (made : Bool) (s : σ) : Option Nat × σ :=
  if made then
    let opened := disk.openFile name true s
    (opened.1.toOption, opened.2)
  else (none, s)

theorem createFile_eq (disk : Disk σ) (name : List UInt8) (root : CacheRoot) (s : σ) :
    createFile disk name root.length s =
      if startOf root name < 2 ∨ name.getD (startOf root name - 1) 0 ≠ slash then .ok (none, s)
      else
        let opened := disk.openFile name true s
        if opened.1 = .error .ENOENT then do
          let (made, s) ← makeDirectories disk name 1025 (startOf root name) opened.2
          return openLast disk name made s
        else .ok (opened.1.toOption, opened.2) := by
  have start : (if name.getD root.length 0 = slash then root.length + 1 else root.length) =
      startOf root name := rfl
  unfold createFile
  dsimp only
  rw [start]
  by_cases stops : startOf root name < 2 ∨ name.getD (startOf root name - 1) 0 ≠ slash
  · rw [if_pos stops, if_pos stops]
  · rw [if_neg stops, if_neg stops]
    cases disk.openFile name true s with
    | mk result s₁ =>
        cases result with
        | ok opened => rfl
        | error errno =>
            dsimp only
            by_cases other : errno = .ENOENT
            · rw [if_neg (not_not.mpr other), if_pos (congrArg Except.error other)]
              cases makeDirectories disk name 1025 (startOf root name) s₁ with
              | error fault => rfl
              | ok result =>
                  obtain ⟨made, s₂⟩ := result
                  rw [ok_bind, ok_bind, openLast]
                  cases made with
                  | false => rfl
                  | true =>
                      dsimp only
                      rw [if_pos rfl, if_pos rfl]
                      cases disk.openFile name true s₂ with
                      | mk opened s₃ =>
                          cases opened with
                          | ok fd => rfl
                          | error errno => rfl
            · rw [if_pos other, if_neg fun same => other (Except.error.inj same)]
              rfl

/-- `createFile` returns for the path of a URL. -/
theorem Path.createFile_creation (path : Path root url name) (disk : Disk σ) (s : σ)
    (calls : List Call) :
    ∃ fd s' more, createFile (recorded disk) name root.length (s, calls) = .ok (fd, s', calls ++ more) ∧
      Creation disk root url name s fd s' more := by
  rw [createFile_eq]
  by_cases stops : startOf root name < 2 ∨ name.getD (startOf root name - 1) 0 ≠ slash
  · rw [if_pos stops]
    exact ⟨none, s, [], by rw [List.append_nil], .untried stops⟩
  · rw [if_neg stops]
    cases first : disk.openFile name true s with
    | mk result s₁ =>
        rw [recorded_openFile first]
        dsimp only
        by_cases missed : result = .error .ENOENT
        · subst missed
          rw [if_pos rfl]
          by_cases reaches : Reaches root url
          · cases makes : disk.mkdir (name.take (hostEnd root url + 1)) s₁ with
            | mk made s₂ =>
                rw [path.makes_near reaches makes, ok_bind]
                cases leaves : leavesThere made with
                | false =>
                    refine ⟨none, s₂, _, ?_, .stopped first reaches makes leaves⟩
                    rw [List.append_assoc]
                    rfl
                | true =>
                    cases last : disk.openFile name true s₂ with
                    | mk result s₃ =>
                        refine ⟨_, s₃, _, ?_, .second first reaches makes leaves last⟩
                        dsimp only [openLast]
                        rw [if_pos rfl, recorded_openFile last, List.append_assoc, List.append_assoc]
                        rfl
          · rw [path.makes_far reaches, ok_bind]
            cases last : disk.openFile name true s₁ with
            | mk result s₂ =>
                refine ⟨_, s₂, _, ?_, .unprepared first reaches last⟩
                dsimp only [openLast]
                rw [if_pos rfl, recorded_openFile last, List.append_assoc]
                rfl
        · rw [if_neg missed]
          exact ⟨_, s₁, _, rfl, .first first missed⟩

/-- A directory of the path is one of the root, or that of the host. -/
theorem Path.directory_cases (path : Path root url name) {dir : List UInt8} (front : dir <+: name)
    (ends : dir.getLast? = some slash) :
    dir <+: root.directory ∨ dir = name.take (hostEnd root url + 1) := by
  have taken : dir = name.take dir.length := List.prefix_iff_eq_take.mp front
  rw [List.getLast?_eq_getElem?] at ends
  obtain ⟨inside, last⟩ := List.getElem?_eq_some_iff.mp ends
  have found : name.getD (dir.length - 1) 0 = slash := by
    obtain ⟨more, rfl⟩ := front
    rw [List.getD_eq_getElem?_getD, List.getElem?_append_left inside, ends]
    rfl
  by_cases beyond : root.directory.length ≤ dir.length - 1
  · right
    have same := (path.slash_iff beyond).mp found
    rw [taken, ← same, Nat.sub_add_cancel (by omega)]
  · left
    obtain ⟨file, parts, -⟩ := path.parts
    have whole : root.directory <+: name := by
      rw [parts, List.append_assoc]
      exact List.prefix_append _ _
    exact List.prefix_of_prefix_length_le front whole (by omega)

theorem Creation.prepared_iff (path : Path root url name) (dirs : Directories disk)
    (rooted : ∀ dir, dir <+: root.directory → dir.getLast? = some slash → dirs.there s dir)
    (creation : Creation disk root url name s fd s' calls)
    (missed : calls.head? = some (.openFile name true (.error .ENOENT))) :
    Prepared root name calls ↔ Reaches root url := by
  cases creation with
  | untried stops => cases missed
  | first first other =>
      cases missed
      exact absurd rfl other
  | unprepared first stays last =>
      refine iff_of_false ?_ stays
      rintro ⟨attempts, second, same, made, -⟩
      rw [path.directoriesBeyond] at made
      obtain ⟨attempt, rfl, -⟩ := List.map_eq_singleton_iff.mp made
      cases same
  | stopped first reaches makes leaves =>
      refine iff_of_true ?_ reaches
      refine ⟨[(name.take (hostEnd root url + 1), _)], none, rfl, ?_, ?_⟩
      · rw [path.directoriesBeyond]
        rfl
      · intro all
        have there := all _ (List.mem_singleton_self _)
        rw [leaves] at there
        cases there
  | second first reaches makes leaves last =>
      refine iff_of_true ?_ reaches
      refine ⟨[(name.take (hostEnd root url + 1), _)], some _, rfl, ?_, ?_⟩
      · rw [path.directoriesBeyond]
        rfl
      · intro _
        refine ⟨_, rfl, ?_⟩
        rintro rfl
        obtain ⟨dir, front, ends, missing⟩ := dirs.misses last
        rcases path.directory_cases front ends with ofRoot | ofHost
        · have opened := dirs.opens first (rooted dir ofRoot ends)
          exact missing (dirs.keeps makes opened)
        · rw [ofHost] at missing
          exact missing (dirs.makes makes leaves)

/-- Where the directory of the host is not there, the first open misses it. -/
theorem Creation.misses (creation : Creation disk root url name s fd s' calls)
    (first : disk.openFile name true s = (.error .ENOENT, s₁))
    (starts : ¬ (startOf root name < 2 ∨ name.getD (startOf root name - 1) 0 ≠ slash)) :
    calls.head? = some (.openFile name true (.error .ENOENT)) := by
  cases creation with
  | untried stops => exact absurd stops starts
  | first again other =>
      rw [first] at again
      cases again
      exact absurd rfl other
  | unprepared | stopped | second => rfl

end Opens

/-- For the path of a URL `createFile` returns; where its first open misses a directory, the
directories beyond the root are made before the second one if and only if the scan gets to the
`/` behind the host. -/
theorem directories_made_iff {disk : Disk σ} {root : CacheRoot} {stat : Stat}
    {md5 : List UInt8 → Digest} {url buf buf' : List UInt8} {j : Nat} {s : σ}
    (dirs : Directories disk)
    (rooted : ∀ dir, dir <+: root.directory → dir.getLast? = some slash → dirs.there s dir)
    (made : urlFilename root stat md5 buf 1024 url = .ok (some (buf', j))) :
    ∃ fd s' calls,
      createFile (recorded disk) (cString buf') root.length (s, []) = .ok (fd, s', calls) ∧
      (calls.head? = some (.openFile (cString buf') true (.error .ENOENT)) →
        (Prepared root (cString buf') calls ↔ Reaches root url)) := by
  have path := path_made made
  obtain ⟨fd, s', calls, runs, creation⟩ := path.createFile_creation disk s []
  exact ⟨fd, s', calls, runs, creation.prepared_iff path dirs rooted⟩

/-- A disk that knows the directories made, and keeps no files. -/
def directoryDisk : Disk (List (List UInt8)) where
  openFile name create dirs :=
    (if create ∧ ∀ dir ∈ name.inits, dir.getLast? = some slash → dirs.contains dir = true then .ok 5
      else .error .ENOENT, dirs)
  mkdir dir dirs := (.ok (), dir :: dirs)
  write _ data dirs := (.ok data.length, dirs)
  close _ dirs := dirs
  access _ _ := false
  readFile _ _ _ := none

def directoryDiskDirectories : Directories directoryDisk where
  there dirs dir := dir ∈ dirs
  makes := by
    rintro dir s result s' makes -
    cases makes
    exact List.mem_cons_self
  keeps := by
    rintro dir dir' s result s' makes there
    cases makes
    exact List.mem_cons_of_mem _ there
  opens := by
    rintro name create dir s result s' opens there
    cases opens
    exact there
  misses := by
    rintro name s s' opens
    obtain ⟨told, -⟩ := Prod.mk.inj opens
    split at told
    · cases told
    · next missing =>
      obtain ⟨dir, front, ends, absent⟩ : ∃ dir, dir ∈ name.inits ∧ dir.getLast? = some slash ∧
          dir ∉ s := by
        by_contra none_
        push Not at none_
        exact missing ⟨rfl, fun dir front ends => List.contains_iff_mem.mpr (none_ dir front ends)⟩
      exact ⟨dir, (List.mem_inits _ _).mp front, ends, absent⟩

/-- The root of the sample is there. -/
def rootDirectories : List (List UInt8) := [[slash], [slash, 99, slash]]

theorem rootDirectories_there : ∀ dir, dir <+: sampleRoot.directory → dir.getLast? = some slash →
    directoryDiskDirectories.there rootDirectories dir := by
  have all : ∀ dir ∈ sampleRoot.directory.inits, dir.getLast? = some slash →
      dir ∈ rootDirectories := by decide
  intro dir front ends
  exact all dir ((List.mem_inits _ _).mpr front) ends

theorem directoryDisk_misses {root : CacheRoot} {url name : List UInt8}
    (path : Path root url name) {dirs : List (List UInt8)}
    (absent : name.take (hostEnd root url + 1) ∉ dirs) :
    directoryDisk.openFile name true dirs = (.error .ENOENT, dirs) := by
  have inside : hostEnd root url < name.length := by
    have behind := path.behind
    omega
  have found : name.getD (hostEnd root url) 0 = slash :=
    (path.slash_iff (Nat.le_add_right _ _)).mpr rfl
  have ends : (name.take (hostEnd root url + 1)).getLast? = some slash := by
    rw [List.getD_eq_getElem?_getD, List.getElem?_eq_getElem inside] at found
    have last : name[hostEnd root url] = slash := found
    rw [List.take_succ_eq_append_getElem inside, List.getLast?_append, last]
    rfl
  have missing : ¬ (true = true ∧
      ∀ dir ∈ name.inits, dir.getLast? = some slash → dirs.contains dir = true) := by
    rintro ⟨-, all⟩
    have front := (List.mem_inits _ name).mpr (List.take_prefix (hostEnd root url + 1) name)
    exact absent (List.contains_iff_mem.mp (all _ front ends))
  exact Prod.ext (if_neg missing) rfl

/-- A host of `n` plain characters. -/
def longHost (n : Nat) : List UInt8 := ascii "http://" ++ List.replicate n 97

theorem hostPart_longHost (n : Nat) : hostPart (longHost n) = List.replicate n 97 := by
  have behind : (longHost n).drop 7 = List.replicate n 97 := List.drop_left' rfl
  rw [hostPart, behind]
  apply List.takeWhile_eq_self_iff.mpr
  intro c member
  rw [List.eq_of_mem_replicate member]
  rfl

theorem encodeHost_replicate (n : Nat) :
    (encodeHost (List.replicate n 97)).length = n := by
  induction n with
  | zero => rfl
  | succ n ih =>
      have plain : hostCode 97 = [97] := rfl
      rw [List.replicate_succ, encodeHost_cons, plain, List.length_append, ih]
      exact Nat.add_comm 1 n

/-- The first `n` bytes are compared. -/
theorem lwrcmp_append {as bs rest : List UInt8} {n : Nat} (inside : n ≤ as.length) :
    lwrcmp (as ++ rest) bs n = lwrcmp as bs n := by
  induction n generalizing as bs with
  | zero => rfl
  | succ n ih =>
      cases as with
      | nil => cases inside
      | cons a as =>
          have later : lwrcmp (as ++ rest) bs.tail n = lwrcmp as bs.tail n :=
            ih (Nat.le_of_succ_le_succ inside)
          rw [lwrcmp, lwrcmp, List.cons_append, List.tail_cons, List.tail_cons, later]
          rfl

theorem longHost_made {root : CacheRoot} {n : Nat} (checked : 0 < cacheRootCheck root allDirectories)
    (positive : 0 < n) (room : root.directory.length + n + 25 < 1024) :
    ∃ out j, urlFilename root allDirectories (fun _ => zeroDigest) nameBuffer 1024
      (longHost n) = .ok (some (out, j)) := by
  apply urlFilename_made
  · rw [longHost, List.length_append, List.length_replicate]
    exact Nat.add_le_add_left positive 7
  · rw [longHost, lwrcmp_append (Nat.le_refl 7)]
    decide
  · exact checked
  · rw [nameBuffer, List.length_replicate]
  · rw [hostPart_longHost, encodeHost_replicate]
    exact room
  · rw [hostPart_longHost]
    intro dots
    have member : point ∈ List.replicate n 97 := dots.subset (List.mem_cons_self)
    exact absurd (List.eq_of_mem_replicate member) (by decide)

theorem directories_made_sample : ∃ buf' j fd s' calls,
    urlFilename sampleRoot allDirectories (fun _ => zeroDigest) nameBuffer 1024 (longHost 1) =
        .ok (some (buf', j)) ∧
      createFile (recorded directoryDisk) (cString buf') sampleRoot.length (rootDirectories, []) =
        .ok (fd, s', calls) ∧
      (calls.head? = some (.openFile (cString buf') true (.error .ENOENT)) →
        (Prepared sampleRoot (cString buf') calls ↔ Reaches sampleRoot (longHost 1))) := by
  obtain ⟨buf', j, made⟩ := longHost_made (n := 1) (by decide : 0 < cacheRootCheck sampleRoot _) (by decide)
    (by decide)
  obtain ⟨fd, s', calls, runs, prepared⟩ :=
    directories_made_iff directoryDiskDirectories rootDirectories_there made
  exact ⟨buf', j, fd, s', calls, made, runs, prepared⟩

theorem directories_string (n : Nat) : ∀ c ∈ (List.replicate n [slash, 99]).flatten, c ≠ 0 := by
  intro c member
  obtain ⟨part, inPath, inPart⟩ := List.mem_flatten.mp member
  rw [List.eq_of_mem_replicate inPath] at inPart
  have plain : ∀ c ∈ [slash, 99], c ≠ 0 := by simp [slash]
  exact plain c inPart

/-- 250 directories one in the other, each with a name of one letter. -/
def deepRoot : CacheRoot where
  path := (List.replicate 250 [slash, 99]).flatten
  string := directories_string 250

/-- The root is there, and nothing else. -/
def directoriesOf (root : CacheRoot) : List (List UInt8) :=
  root.directory.inits.filter fun dir => dir.getLast? = some slash

theorem directoriesOf_there (root : CacheRoot) : ∀ dir, dir <+: root.directory →
    dir.getLast? = some slash → directoryDiskDirectories.there (directoriesOf root) dir := by
  intro dir front ends
  exact List.mem_filter.mpr ⟨(List.mem_inits _ _).mpr front, decide_eq_true ends⟩

theorem deepRoot_directory : deepRoot.directory.length = 501 := by
  decide +kernel

/-- In the deep root the directory of a host of twelve characters is missing, and it is not
made. -/
theorem deep_host_unprepared : ∃ buf' j fd s' calls,
    urlFilename deepRoot allDirectories (fun _ => zeroDigest) nameBuffer 1024 (longHost 12) =
        .ok (some (buf', j)) ∧
      createFile (recorded directoryDisk) (cString buf') deepRoot.length
        (directoriesOf deepRoot, []) = .ok (fd, s', calls) ∧
      calls.head? = some (.openFile (cString buf') true (.error .ENOENT)) ∧
      ¬ Prepared deepRoot (cString buf') calls := by
  obtain ⟨buf', j, made⟩ := longHost_made (n := 12)
    (by decide +kernel : 0 < cacheRootCheck deepRoot _) (by decide)
    (by rw [deepRoot_directory]; decide)
  have path := path_made made
  obtain ⟨fd, s', calls, runs, creation⟩ :=
    path.createFile_creation directoryDisk (directoriesOf deepRoot) []
  have index : hostEnd deepRoot (longHost 12) = 513 := by
    rw [hostEnd, hostPart_longHost, encodeHost_replicate, deepRoot_directory]
  have stays : ¬ Reaches deepRoot (longHost 12) := by
    rintro ⟨-, near⟩
    have some_ : hostPart (longHost 12) ≠ [] := by
      rw [hostPart_longHost]
      exact List.cons_ne_nil _ _
    have within := near some_
    omega
  have missed : calls.head? = some (.openFile (cString buf') true (.error .ENOENT)) := by
    apply creation.misses
    · apply directoryDisk_misses path
      intro member
      have front := (List.mem_inits _ _).mp (List.mem_filter.mp member).1
      have short := front.length_le
      have behind := path.behind
      rw [List.length_take, deepRoot_directory] at short
      omega
    · have start := path.startOf_eq
      rw [if_neg fun both => absurd both.1 (by decide +kernel)] at start
      rw [start, path.separator, deepRoot_directory]
      decide
  refine ⟨buf', j, fd, s', calls, made, runs, missed, ?_⟩
  rw [creation.prepared_iff path directoryDiskDirectories (directoriesOf_there deepRoot) missed]
  exact stays

end Poplar.HttpCache
