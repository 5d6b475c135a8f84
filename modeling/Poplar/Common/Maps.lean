import Poplar.Common.Hash

/-!
# Tables as finite maps: common/hash.c

A table that interns data keeps one representative of each class of equal ones. What the data
point to may be written between the calls, but no stored datum may change its key, and no two
stored data may become equal.
-/
namespace Poplar

variable {α β : Type}

/-- `hash_cmp` is an equivalence, and equal data have one key. -/
structure HashFuncs.Lawful (F : HashFuncs α β) : Prop where
  equiv : Equivalence fun a b => F.hashCmp a b = true
  respects : ∀ a b, F.hashCmp a b = true → F.hashKey a = F.hashKey b

/-- The callbacks when the memory is another one. -/
def HashFuncs.reading (F : HashFuncs α β) (deref : α → β) : HashFuncs α β :=
  { F with deref }

/-- A table and what its data point to. -/
structure Table (α β : Type) where
  funcs : HashFuncs α β
  hash : Hash α

/-- The calls of a table's users, `hash_get` with the identity for its callback, and writes to
what the data point to. -/
inductive HashOp (α β : Type) where
  | get (data : α)
  | lookup (data : α)
  | release (data : α)
  | clean
  | write (deref : α → β)

/-- What the call returns, and the table after it. -/
def Table.exec (table : Table α β) : HashOp α β → Option α × Table α β
  | .get data =>
    let (ret, hash) := hashGet table.funcs table.hash (table.funcs.deref data) (some data)
    (ret, { table with hash })
  | .lookup data => (hashLookup table.funcs table.hash (table.funcs.deref data), table)
  | .release data =>
    let (ret, hash) := hashRelease table.funcs table.hash (table.funcs.deref data)
    (ret, { table with hash })
  | .clean => (none, { table with hash := hashClean table.hash })
  | .write deref => (none, { table with funcs := table.funcs.reading deref })

def Table.run (table : Table α β) : List (HashOp α β) → List (Option α) × Table α β
  | [] => ([], table)
  | op :: ops =>
    let (ret, table) := table.exec op
    let (rets, table) := table.run ops
    (ret :: rets, table)

/-! ## One representative of each class -/

/-- The representatives, the newest first. -/
structure Reps (α β : Type) where
  funcs : HashFuncs α β
  entries : List α

namespace Reps

/-- `a` and `b` are of one class. -/
def Alike (s : Reps α β) (a b : α) : Prop :=
  s.funcs.hashCmp (s.funcs.deref a) (s.funcs.deref b) = true

instance (s : Reps α β) (a b : α) : Decidable (s.Alike a b) :=
  inferInstanceAs (Decidable (_ = true))

/-- The representative of the class of `data` -/
def find (s : Reps α β) (data : α) : Option α := s.entries.find? fun d => s.Alike d data

/-- What a call returns, and the representatives after it: the first of a class stays, a release
takes out its class and nothing else. -/
def apply (s : Reps α β) : HashOp α β → Option α × Reps α β
  | .get data =>
    match s.find data with
    | some d => (some d, s)
    | none => (some data, { s with entries := data :: s.entries })
  | .lookup data => (s.find data, s)
  | .release data =>
    (s.find data, { s with entries := s.entries.filter fun d => ¬ s.Alike d data })
  | .clean => (none, { s with entries := [] })
  | .write deref => (none, { s with funcs := s.funcs.reading deref })

def applyAll (s : Reps α β) : List (HashOp α β) → List (Option α) × Reps α β
  | [] => ([], s)
  | op :: ops =>
    let (ret, s) := s.apply op
    let (rets, s) := s.applyAll ops
    (ret :: rets, s)

/-- A write leaves the stored data their keys, and makes no two of them equal. -/
structure Steady (s : Reps α β) (deref : α → β) : Prop where
  key : ∀ d ∈ s.entries, s.funcs.hashKey (deref d) = s.funcs.hashKey (s.funcs.deref d)
  apart : ∀ d ∈ s.entries, ∀ e ∈ s.entries,
    s.funcs.hashCmp (deref d) (deref e) = true → s.Alike d e

def Admits (s : Reps α β) : HashOp α β → Prop
  | .write deref => s.Steady deref
  | _ => True

def AdmitsAll (s : Reps α β) : List (HashOp α β) → Prop
  | [] => True
  | op :: ops => s.Admits op ∧ (s.apply op).2.AdmitsAll ops

end Reps

/-- The table holds the representatives and nothing else, each in the bucket of its key. -/
structure Table.Represents (table : Table α β) (s : Reps α β) : Prop where
  funcs : table.funcs = s.funcs
  keyed : table.hash.Keyed s.funcs
  same : table.hash.datas.Perm s.entries
  counted : table.hash.count = s.entries.length
  apart : s.entries.Pairwise fun d e => ¬ s.Alike d e

variable {table : Table α β} {s : Reps α β} {data d e : α}

theorem hashCreateSize_represents (F : HashFuncs α β) {size : Nat} (sized : 0 < size) :
    Table.Represents ⟨F, hashCreateSize α size⟩ ⟨F, []⟩ := by
  constructor
  · rfl
  · constructor
    · exact sized
    · intro i backet member
      cases member
    · intro i backet member
      cases member
  · have empty : (hashCreateSize α size).datas = [] := by
      simp [Hash.datas, hashCreateSize]
    rw [empty]
  · rfl
  · exact List.Pairwise.nil

section Classes

variable (lawful : s.funcs.Lawful)
include lawful

theorem Reps.Alike.symm (alike : s.Alike d e) : s.Alike e d :=
  lawful.equiv.symm alike

theorem Reps.Alike.trans {c : α} (first : s.Alike c d) (second : s.Alike d e) : s.Alike c e :=
  lawful.equiv.trans first second

/-- Two representatives of one class are one. -/
theorem Table.Represents.unique (repr : table.Represents s) (memberD : d ∈ s.entries)
    (memberE : e ∈ s.entries) (alike : s.Alike d e) : d = e := by
  have symm : Std.Symm fun d e => ¬ s.Alike d e :=
    ⟨fun d e apart back => apart (Reps.Alike.symm lawful back)⟩
  by_contra different
  exact repr.apart.forall memberD memberE different alike

theorem Table.Represents.find_iff (repr : table.Represents s) :
    s.find data = some d ↔ d ∈ s.entries ∧ s.Alike d data := by
  constructor
  · intro found
    exact ⟨List.mem_of_find?_eq_some found, by simpa using List.find?_some found⟩
  · rintro ⟨member, alike⟩
    cases found : s.find data with
    | none =>
        have misses := List.find?_eq_none.mp found d member
        exact absurd (decide_eq_true alike) misses
    | some e =>
        rw [Reps.find] at found
        have other : s.Alike e data := by simpa using List.find?_some found
        have back := Reps.Alike.trans lawful other (Reps.Alike.symm lawful alike)
        rw [repr.unique lawful (List.mem_of_find?_eq_some found) member back]

end Classes

theorem Reps.find_none : s.find data = none ↔ ∀ d ∈ s.entries, ¬ s.Alike d data := by
  rw [Reps.find, List.find?_eq_none]
  simp only [decide_eq_true_iff]

/-- What the table finds is the representative. -/
theorem Table.Represents.lookup (lawful : s.funcs.Lawful) (repr : table.Represents s) (data : α) :
    hashLookup s.funcs table.hash (s.funcs.deref data) = s.find data := by
  cases answer : hashLookup s.funcs table.hash (s.funcs.deref data) with
  | none =>
      symm
      rw [Reps.find_none]
      intro d member alike
      have missed := (hashLookup_none repr.keyed).mp answer d (repr.same.mem_iff.mpr member)
        (lawful.respects _ _ alike)
      rw [alike] at missed
      cases missed
  | some d =>
      obtain ⟨stored, alike⟩ := hashLookup_some repr.keyed answer
      exact ((repr.find_iff lawful).mpr ⟨repr.same.mem_iff.mp stored, alike⟩).symm

/-- No stored datum equals one that has no representative. -/
theorem Table.Represents.fresh (repr : table.Represents s) (missed : s.find data = none) :
    ∀ d ∈ table.hash.datas, s.funcs.hashKey (s.funcs.deref d) = s.funcs.hashKey (s.funcs.deref data)
      → s.funcs.hashCmp (s.funcs.deref d) (s.funcs.deref data) = false := by
  intro d stored _
  exact Bool.eq_false_iff.mpr (Reps.find_none.mp missed d (repr.same.mem_iff.mp stored))

theorem hashGet_found {F : HashFuncs α β} {hash : Hash α} {content : β}
    (found : hashLookup F hash content = some d) (newdata : α) :
    hashGet F hash content (some newdata) = (some d, hash) := by
  unfold hashLookup hashGet at found
  unfold hashGet
  dsimp only at found ⊢
  cases search : (hash.index (F.hashKey content % hash.size)).find? (F.hit content) with
  | none =>
      rw [search] at found
      cases found
  | some backet =>
      rw [search] at found
      cases found
      rfl

/-- What is left after a release are the data that the released one does not equal. -/
theorem Table.Represents.rest (lawful : s.funcs.Lawful) (repr : table.Represents s)
    {left : List α} (alike : s.Alike d data)
    (taken : table.hash.datas.Perm (d :: left)) :
    left.Perm (s.entries.filter fun e => ¬ s.Alike e data) := by
  have symm : Std.Symm fun d e => ¬ s.Alike d e :=
    ⟨fun d e apart back => apart (Reps.Alike.symm lawful back)⟩
  have parts : s.entries.Perm (d :: left) := repr.same.symm.trans taken
  have apart : (d :: left).Pairwise fun d e => ¬ s.Alike d e :=
    (parts.pairwise_iff fun {a b} => symm.symm a b).mp repr.apart
  have kept : ∀ e ∈ left, decide (¬ s.Alike e data) = true := by
    intro e inLeft
    apply decide_eq_true
    intro other
    exact (List.pairwise_cons.mp apart).1 e inLeft
      (Reps.Alike.trans lawful alike (Reps.Alike.symm lawful other))
  have filtered := parts.filter fun e => decide (¬ s.Alike e data)
  rw [List.filter_cons_of_neg (by simpa using alike), List.filter_eq_self.mpr kept] at filtered
  exact filtered.symm

/-- No call touches the callbacks. -/
theorem HashFuncs.Lawful.after (lawful : s.funcs.Lawful) (op : HashOp α β) :
    (s.apply op).2.funcs.Lawful := by
  cases op with
  | get data =>
      rw [Reps.apply]
      cases s.find data <;> exact lawful
  | lookup data => exact lawful
  | release data => exact lawful
  | clean => exact lawful
  | write deref => exact ⟨lawful.equiv, lawful.respects⟩

theorem Table.Represents.get (lawful : s.funcs.Lawful) (repr : table.Represents s) (data : α) :
    (table.exec (.get data)).1 = (s.apply (.get data)).1 ∧
      (table.exec (.get data)).2.Represents (s.apply (.get data)).2 := by
  have looked := repr.lookup lawful data
  have funcs := repr.funcs
  cases found : s.find data with
  | some d =>
      have got := hashGet_found (looked.trans found) data
      simp only [Table.exec, funcs, got, Reps.apply, found]
      exact ⟨trivial, rfl, repr.keyed, repr.same, repr.counted, repr.apart⟩
  | none =>
      have fresh := repr.fresh found
      obtain ⟨answer, keyed, grown⟩ := hashGet_insert repr.keyed data rfl fresh
      have counted := hashGet_count repr.keyed data fresh
      simp only [Table.exec, funcs, Reps.apply, found]
      refine ⟨answer, ?_⟩
      constructor
      · rfl
      · exact keyed
      · exact grown.trans (repr.same.cons data)
      · rw [counted, repr.counted, List.length_cons]
      · apply List.pairwise_cons.mpr
        refine ⟨?_, repr.apart⟩
        intro d member alike
        exact Reps.find_none.mp found d member (Reps.Alike.symm lawful alike)

theorem Table.Represents.release (lawful : s.funcs.Lawful) (repr : table.Represents s) (data : α) :
    (table.exec (.release data)).1 = (s.apply (.release data)).1 ∧
      (table.exec (.release data)).2.Represents (s.apply (.release data)).2 := by
  have funcs := repr.funcs
  cases found : s.find data with
  | none =>
      have released := hashRelease_absent repr.keyed (repr.fresh found)
      have all : ∀ d ∈ s.entries, decide (¬ s.Alike d data) = true :=
        fun d member => decide_eq_true (Reps.find_none.mp found d member)
      simp only [Table.exec, funcs, released, Reps.apply, found, List.filter_eq_self.mpr all]
      exact ⟨trivial, rfl, repr.keyed, repr.same, repr.counted, repr.apart⟩
  | some d =>
      obtain ⟨member, alike⟩ := (repr.find_iff lawful).mp found
      have only : ∀ e ∈ table.hash.datas,
          s.funcs.hashKey (s.funcs.deref e) = s.funcs.hashKey (s.funcs.deref data) →
          s.funcs.hashCmp (s.funcs.deref e) (s.funcs.deref data) = true → e = d := by
        intro e stored _ other
        exact repr.unique lawful (repr.same.mem_iff.mp stored) member
          (Reps.Alike.trans lawful other (Reps.Alike.symm lawful alike))
      obtain ⟨answer, keyed, taken⟩ := hashRelease_unique repr.keyed (s.funcs.deref data)
        (repr.same.mem_iff.mpr member) (lawful.respects _ _ alike) alike only
      have counted := hashRelease_count answer
      have left := repr.rest lawful alike taken
      simp only [Table.exec, funcs, Reps.apply, found]
      refine ⟨answer, ?_⟩
      constructor
      · rfl
      · exact keyed
      · exact left
      · have before := taken.length_eq
        rw [repr.same.length_eq, List.length_cons] at before
        rw [counted, repr.counted, ← left.length_eq]
        omega
      · exact repr.apart.filter _

theorem Table.Represents.clean (repr : table.Represents s) :
    (table.exec .clean).2.Represents (s.apply .clean).2 := by
  have emptied := hashClean_empty repr.keyed
  simp only [Table.exec, Reps.apply, emptied]
  constructor
  · exact repr.funcs
  · constructor
    · exact repr.keyed.sized
    · intro i backet member
      cases member
    · intro i backet member
      cases member
  · have empty : ({ table.hash with
        index := fun _ => [], count := table.hash.count - table.hash.datas.length } :
          Hash α).datas = [] := by
      simp [Hash.datas]
    rw [empty]
  · dsimp only
    rw [repr.counted, repr.same.length_eq, Nat.sub_self]
    rfl
  · exact List.Pairwise.nil

theorem Table.Represents.write (repr : table.Represents s) {deref : α → β} (steady : s.Steady deref) :
    (table.exec (.write deref)).2.Represents (s.apply (.write deref)).2 := by
  constructor
  · exact congrArg (fun F => F.reading deref) repr.funcs
  · apply repr.keyed.congr
    intro i backet member
    have stored : table.hash.Stores backet.data := ⟨i, backet, member, rfl⟩
    exact steady.key _ (repr.same.mem_iff.mp (repr.keyed.stores_iff.mp stored))
  · exact repr.same
  · exact repr.counted
  · apply repr.apart.imp_of_mem
    intro d e memberD memberE apart alike
    exact apart (steady.apart d memberD e memberE alike)

/-- One call does to the table, and answers, what it means. -/
theorem Table.Represents.exec (lawful : s.funcs.Lawful) (repr : table.Represents s) (op : HashOp α β)
    (admits : s.Admits op) :
    (table.exec op).1 = (s.apply op).1 ∧ (table.exec op).2.Represents (s.apply op).2 := by
  cases op with
  | get data => exact repr.get lawful data
  | lookup data =>
      have looked := repr.lookup lawful data
      rw [← repr.funcs] at looked
      exact ⟨looked, repr⟩
  | release data => exact repr.release lawful data
  | clean => exact ⟨rfl, repr.clean⟩
  | write deref => exact ⟨rfl, repr.write admits⟩

/-- Any row of calls answers what they mean, and leaves what they mean. -/
theorem Table.Represents.run (lawful : s.funcs.Lawful) (repr : table.Represents s)
    (ops : List (HashOp α β)) (admits : s.AdmitsAll ops) :
    (table.run ops).1 = (s.applyAll ops).1 ∧ (table.run ops).2.Represents (s.applyAll ops).2 := by
  induction ops generalizing table s with
  | nil => exact ⟨rfl, repr⟩
  | cons op ops ih =>
      obtain ⟨now, later⟩ := admits
      obtain ⟨answer, repr₁⟩ := repr.exec lawful op now
      obtain ⟨answers, repr'⟩ := ih (lawful.after op) repr₁ later
      exact ⟨congrArg₂ List.cons answer answers, repr'⟩

theorem hashGet_size (F : HashFuncs α β) (hash : Hash α) (content : β) (newdata : Option α) :
    (hashGet F hash content newdata).2.size = hash.size := by
  unfold hashGet
  dsimp only
  cases (hash.index (F.hashKey content % hash.size)).find? (F.hit content) with
  | some backet => rfl
  | none => cases newdata <;> rfl

theorem hashRelease_size (F : HashFuncs α β) (hash : Hash α) (content : β) :
    (hashRelease F hash content).2.size = hash.size := by
  unfold hashRelease
  dsimp only
  cases hashReleaseFrom (F.hit content) [] (hash.index (F.hashKey content % hash.size)) <;> rfl

theorem hashClean_size (hash : Hash α) : (hashClean hash).size = hash.size := by
  rw [hashClean, hashClean_from]

theorem Table.run_size (table : Table α β) (ops : List (HashOp α β)) :
    (table.run ops).2.hash.size = table.hash.size := by
  induction ops generalizing table with
  | nil => rfl
  | cons op ops ih =>
      rw [Table.run]
      dsimp only
      rw [ih]
      cases op with
      | get data =>
          exact hashGet_size table.funcs table.hash (table.funcs.deref data) (some data)
      | lookup data => rfl
      | release data => exact hashRelease_size _ _ _
      | clean => exact hashClean_size _
      | write deref => rfl

end Poplar
