import Mathlib

/-!
# The hash table of common/hash.c

A bucket chain is the list of its backets from `hash->index[i]` on. Stored data
are pointers; the two callbacks of the table read what a pointer refers to, so
they come with the memory they read it in.
-/
namespace Poplar

structure HashBacket (α : Type) where
  key : Nat
  data : α
  deriving DecidableEq, Repr

structure Hash (α : Type) where
  index : Nat → List (HashBacket α)
  size : Nat
  count : Nat

/-- The callbacks of a table, and the memory their `void *` arguments point into. -/
structure HashFuncs (α β : Type) where
  deref : α → β
  hashKey : β → Nat
  hashCmp : β → β → Bool

variable {α β : Type}

def hashCreateSize (α : Type) (size : Nat) : Hash α :=
  { index := fun _ => [], size := size, count := 0 }

def HASHTABSIZE : Nat := 1024

def hashCreate (α : Type) : Hash α := hashCreateSize α HASHTABSIZE

/-- `backet->key == key && (*hash->hash_cmp) (backet->data, data)` -/
def HashFuncs.hit (F : HashFuncs α β) (data : β) (backet : HashBacket α) : Bool :=
  backet.key == F.hashKey data && F.hashCmp (F.deref backet.data) data

/-- `allocFunc` is the pointer the allocation callback answers for `data`, absent
when no callback is given. -/
def hashGet (F : HashFuncs α β) (hash : Hash α) (data : β) (allocFunc : Option α) :
    Option α × Hash α :=
  let key := F.hashKey data
  let index := key % hash.size
  match (hash.index index).find? (F.hit data) with
  | some backet => (some backet.data, hash)
  | none =>
    match allocFunc with
    | some newdata =>
      (some newdata, { hash with
        index := Function.update hash.index index (⟨key, newdata⟩ :: hash.index index)
        count := hash.count + 1 })
    | none => (none, hash)

def hashLookup (F : HashFuncs α β) (hash : Hash α) (data : β) : Option α :=
  (hashGet F hash data none).1

/-- The walk of `hash_release`: `before` are the backets passed, whose last one is
`pp`; with none passed `pp` is still the head and the bucket pointer is rewritten. -/
def hashReleaseFrom (hit : HashBacket α → Bool) (before : List (HashBacket α)) :
    List (HashBacket α) → Option (α × List (HashBacket α))
  | [] => none
  | backet :: rest =>
    if hit backet then some (backet.data, before ++ rest)
    else hashReleaseFrom hit (before ++ [backet]) rest

def hashRelease (F : HashFuncs α β) (hash : Hash α) (data : β) : Option α × Hash α :=
  let index := F.hashKey data % hash.size
  match hashReleaseFrom (F.hit data) [] (hash.index index) with
  | some (ret, chain) =>
    (some ret, { hash with
      index := Function.update hash.index index chain, count := hash.count - 1 })
  | none => (none, hash)

/-- `hash_clean` without a free function -/
def hashClean (hash : Hash α) : Hash α :=
  (List.range hash.size).foldl (fun hash i => { hash with
    index := Function.update hash.index i [], count := hash.count - (hash.index i).length }) hash

/-- Everything stored, bucket by bucket. -/
def Hash.datas (hash : Hash α) : List α :=
  (List.range hash.size).flatMap fun i => (hash.index i).map HashBacket.data

/-- Some backet refers to `d`. -/
def Hash.Stores (hash : Hash α) (d : α) : Prop := ∃ i, ∃ backet ∈ hash.index i, backet.data = d

/-- Each backet carries the key of its datum and sits in the bucket of that key. -/
structure Hash.Keyed (F : HashFuncs α β) (hash : Hash α) : Prop where
  sized : 0 < hash.size
  key : ∀ i, ∀ backet ∈ hash.index i, backet.key = F.hashKey (F.deref backet.data)
  bucket : ∀ i, ∀ backet ∈ hash.index i, backet.key % hash.size = i

theorem Hash.Keyed.congr {F F' : HashFuncs α β} {hash : Hash α} (keyed : hash.Keyed F)
    (same : ∀ i, ∀ backet ∈ hash.index i,
      F'.hashKey (F'.deref backet.data) = F.hashKey (F.deref backet.data)) : hash.Keyed F' :=
  ⟨keyed.sized, fun i backet member => (keyed.key i backet member).trans (same i backet member).symm,
    keyed.bucket⟩

theorem Hash.Keyed.mem_datas {F : HashFuncs α β} {hash : Hash α} (keyed : hash.Keyed F) {d : α} :
    d ∈ hash.datas ↔ ∃ backet ∈ hash.index (F.hashKey (F.deref d) % hash.size), backet.data = d := by
  simp only [Hash.datas, List.mem_flatMap, List.mem_range, List.mem_map]
  constructor
  · rintro ⟨i, _, backet, member, rfl⟩
    rw [← keyed.key i backet member, keyed.bucket i backet member]
    exact ⟨backet, member, rfl⟩
  · rintro ⟨backet, member, same⟩
    exact ⟨_, Nat.mod_lt _ keyed.sized, backet, member, same⟩

theorem Hash.Keyed.stores_iff {F : HashFuncs α β} {hash : Hash α} (keyed : hash.Keyed F) {d : α} :
    hash.Stores d ↔ d ∈ hash.datas := by
  rw [keyed.mem_datas]
  constructor
  · rintro ⟨i, backet, member, rfl⟩
    have here : F.hashKey (F.deref backet.data) % hash.size = i := by
      rw [← keyed.key i backet member, keyed.bucket i backet member]
    exact ⟨backet, here ▸ member, rfl⟩
  · rintro ⟨backet, member, same⟩
    exact ⟨_, backet, member, same⟩

theorem Hash.mem_datas_of_index {hash : Hash α} {i : Nat} (bound : i < hash.size)
    {backet : HashBacket α} (member : backet ∈ hash.index i) : backet.data ∈ hash.datas :=
  List.mem_flatMap.mpr ⟨i, List.mem_range.mpr bound, List.mem_map_of_mem member⟩

/-- Taking one element out of one part of a flattening takes it out of the whole. -/
theorem flatMap_update_perm {f : Nat → List α} {i : Nat} {x : α} {rest : List α}
    (perm : (f i).Perm (x :: rest)) {is : List Nat} (nodup : is.Nodup) (member : i ∈ is) :
    (is.flatMap f).Perm (x :: is.flatMap (Function.update f i rest)) := by
  induction is with
  | nil => cases member
  | cons j is ih =>
      obtain ⟨fresh, nodupRest⟩ := List.nodup_cons.mp nodup
      simp only [List.flatMap_cons]
      by_cases same : j = i
      · subst same
        have untouched : is.flatMap (Function.update f j rest) = is.flatMap f := by
          refine List.flatMap_congr fun k later => ?_
          have different : k ≠ j := fun eq => fresh (eq ▸ later)
          rw [Function.update_of_ne different]
        rw [Function.update_self, untouched, ← List.cons_append]
        exact perm.append_right _
      · rw [Function.update_of_ne same]
        have later : i ∈ is := by
          rcases List.mem_cons.mp member with eq | later
          · exact absurd eq.symm same
          · exact later
        exact ((ih nodupRest later).append_left _).trans List.perm_middle

theorem hashReleaseFrom_some {hit : HashBacket α → Bool} {before chain rest : List (HashBacket α)}
    {d : α} (found : hashReleaseFrom hit before rest = some (d, chain)) :
    ∃ xs backet ys, rest = xs ++ backet :: ys ∧ hit backet = true ∧ backet.data = d ∧
      chain = before ++ xs ++ ys := by
  induction rest generalizing before with
  | nil => simp [hashReleaseFrom] at found
  | cons backet rest ih =>
      unfold hashReleaseFrom at found
      split at found
      next hits =>
        simp only [Option.some.injEq, Prod.mk.injEq] at found
        exact ⟨[], backet, rest, rfl, hits, found.1, by simp [← found.2]⟩
      next =>
        obtain ⟨xs, other, ys, rfl, hits, data, rfl⟩ := ih found
        exact ⟨backet :: xs, other, ys, rfl, hits, data, by simp⟩

theorem hashReleaseFrom_none {hit : HashBacket α → Bool} {before rest : List (HashBacket α)} :
    hashReleaseFrom hit before rest = none ↔ ∀ backet ∈ rest, hit backet = false := by
  induction rest generalizing before with
  | nil => simp [hashReleaseFrom]
  | cons backet rest ih =>
      unfold hashReleaseFrom
      split
      next hits => simp [hits]
      next misses => simp [ih, misses]

theorem hashLookup_some {F : HashFuncs α β} {hash : Hash α} (keyed : hash.Keyed F) {data : β}
    {d : α} (found : hashLookup F hash data = some d) :
    d ∈ hash.datas ∧ F.hashCmp (F.deref d) data = true := by
  unfold hashLookup hashGet at found
  cases search : (hash.index (F.hashKey data % hash.size)).find? (F.hit data) with
  | none => simp [search] at found
  | some backet =>
      simp only [search, Option.some.injEq] at found
      subst found
      have hits := List.find?_some search
      simp only [HashFuncs.hit, Bool.and_eq_true] at hits
      exact ⟨Hash.mem_datas_of_index (Nat.mod_lt _ keyed.sized)
        (List.mem_of_find?_eq_some search), hits.2⟩

theorem Hash.Keyed.misses {F : HashFuncs α β} {hash : Hash α} (keyed : hash.Keyed F) {data : β}
    (fresh : ∀ d ∈ hash.datas, F.hashKey (F.deref d) = F.hashKey data →
      F.hashCmp (F.deref d) data = false) :
    ∀ backet ∈ hash.index (F.hashKey data % hash.size), F.hit data backet = false := by
  intro backet member
  have stored := Hash.mem_datas_of_index (Nat.mod_lt _ keyed.sized) member
  by_cases key : backet.key = F.hashKey data
  · simp [HashFuncs.hit, fresh backet.data stored ((keyed.key _ backet member).symm.trans key)]
  · simp [HashFuncs.hit, key]

theorem hashLookup_none {F : HashFuncs α β} {hash : Hash α} (keyed : hash.Keyed F) {data : β} :
    hashLookup F hash data = none ↔ ∀ d ∈ hash.datas, F.hashKey (F.deref d) = F.hashKey data →
      F.hashCmp (F.deref d) data = false := by
  unfold hashLookup hashGet
  cases search : (hash.index (F.hashKey data % hash.size)).find? (F.hit data) with
  | some backet =>
      have hits := List.find?_some search
      simp only [HashFuncs.hit, Bool.and_eq_true, beq_iff_eq] at hits
      have stored := Hash.mem_datas_of_index (Nat.mod_lt _ keyed.sized)
        (List.mem_of_find?_eq_some search)
      have key := keyed.key _ backet (List.mem_of_find?_eq_some search)
      refine iff_of_false (by simp [search]) fun fresh => ?_
      have misses := fresh backet.data stored (key.symm.trans hits.1)
      rw [hits.2] at misses
      cases misses
  | none =>
      refine iff_of_true (by simp [search]) fun d stored key => ?_
      obtain ⟨backet, member, same⟩ := keyed.mem_datas.mp stored
      rw [key] at member
      have missed := List.find?_eq_none.mp search backet member
      have own : backet.key = F.hashKey data := by
        rw [keyed.key _ backet member, same, key]
      simpa [HashFuncs.hit, own, same] using missed

/-- A datum with no equal in the table is inserted. -/
theorem hashGet_insert {F : HashFuncs α β} {hash : Hash α} (keyed : hash.Keyed F) {data : β}
    (newdata : α) (refers : F.deref newdata = data)
    (fresh : ∀ d ∈ hash.datas, F.hashKey (F.deref d) = F.hashKey data →
      F.hashCmp (F.deref d) data = false) :
    (hashGet F hash data (some newdata)).1 = some newdata ∧
      (hashGet F hash data (some newdata)).2.Keyed F ∧
      ((hashGet F hash data (some newdata)).2.datas).Perm (newdata :: hash.datas) := by
  have bound : F.hashKey data % hash.size < hash.size := Nat.mod_lt _ keyed.sized
  have misses : (hash.index (F.hashKey data % hash.size)).find? (F.hit data) = none := by
    refine List.find?_eq_none.mpr fun backet member => ?_
    simp [keyed.misses fresh backet member]
  simp only [hashGet, misses]
  refine ⟨trivial, ⟨keyed.sized, ?_, ?_⟩, ?_⟩
  · intro i backet member
    by_cases same : i = F.hashKey data % hash.size
    · subst same
      simp only [Function.update_self, List.mem_cons] at member
      rcases member with rfl | old
      · simp [refers]
      · exact keyed.key _ backet old
    · exact keyed.key i backet (by simpa [same] using member)
  · intro i backet member
    by_cases same : i = F.hashKey data % hash.size
    · subst same
      simp only [Function.update_self, List.mem_cons] at member
      rcases member with rfl | old
      · rfl
      · exact keyed.bucket _ backet old
    · exact keyed.bucket i backet (by simpa [same] using member)
  · set parts := fun i => (hash.index i).map HashBacket.data
    set grown := fun i => ((Function.update hash.index (F.hashKey data % hash.size)
      (⟨F.hashKey data, newdata⟩ :: hash.index (F.hashKey data % hash.size))) i).map HashBacket.data
    have split : (grown (F.hashKey data % hash.size)).Perm
        (newdata :: parts (F.hashKey data % hash.size)) := by simp [grown, parts]
    have taken := flatMap_update_perm split (List.nodup_range (n := hash.size))
      (List.mem_range.mpr bound)
    have back : Function.update grown (F.hashKey data % hash.size)
        (parts (F.hashKey data % hash.size)) = parts := by
      funext i
      by_cases same : i = F.hashKey data % hash.size
      · subst same; simp
      · simp [grown, parts, same]
    rwa [back] at taken

/-- Releasing a datum whose only equal in the table is `p` takes out exactly `p`. -/
theorem hashRelease_unique {F : HashFuncs α β} {hash : Hash α} (keyed : hash.Keyed F) (data : β)
    {p : α} (stored : p ∈ hash.datas) (key : F.hashKey (F.deref p) = F.hashKey data)
    (equal : F.hashCmp (F.deref p) data = true)
    (only : ∀ d ∈ hash.datas, F.hashKey (F.deref d) = F.hashKey data →
      F.hashCmp (F.deref d) data = true → d = p) :
    (hashRelease F hash data).1 = some p ∧ (hashRelease F hash data).2.Keyed F ∧
      hash.datas.Perm (p :: (hashRelease F hash data).2.datas) := by
  have bound : F.hashKey data % hash.size < hash.size := Nat.mod_lt _ keyed.sized
  obtain ⟨own, member, same⟩ := keyed.mem_datas.mp stored
  rw [key] at member
  have hits : F.hit data own = true := by
    simp only [HashFuncs.hit, Bool.and_eq_true, beq_iff_eq, same]
    exact ⟨by rw [keyed.key _ own member, same, key], equal⟩
  cases found : hashReleaseFrom (F.hit data) [] (hash.index (F.hashKey data % hash.size)) with
  | none =>
      rw [hashReleaseFrom_none.mp found own member] at hits
      cases hits
  | some result =>
      obtain ⟨d, chain⟩ := result
      obtain ⟨xs, backet, ys, split, hitsB, rfl, rfl⟩ := hashReleaseFrom_some found
      have inBucket : backet ∈ hash.index (F.hashKey data % hash.size) := by simp [split]
      simp only [HashFuncs.hit, Bool.and_eq_true, beq_iff_eq] at hitsB
      have isP : backet.data = p := only backet.data (Hash.mem_datas_of_index bound inBucket)
        ((keyed.key _ backet inBucket).symm.trans hitsB.1) hitsB.2
      subst isP
      simp only [hashRelease, found, List.nil_append]
      have within : ∀ i, ∀ b ∈ Function.update hash.index (F.hashKey data % hash.size) (xs ++ ys) i,
          b ∈ hash.index i := by
        intro i b left
        by_cases here : i = F.hashKey data % hash.size
        · subst here
          rw [Function.update_self] at left
          rw [split]
          rcases List.mem_append.mp left with inXs | inYs
          · exact List.mem_append_left _ inXs
          · exact List.mem_append_right _ (List.mem_cons_of_mem _ inYs)
        · rwa [Function.update_of_ne here] at left
      refine ⟨trivial, ⟨keyed.sized, fun i b left => keyed.key i b (within i b left),
        fun i b left => keyed.bucket i b (within i b left)⟩, ?_⟩
      have part : ((hash.index (F.hashKey data % hash.size)).map HashBacket.data).Perm
          (backet.data :: (xs ++ ys).map HashBacket.data) := by
        simp [split, List.perm_middle]
      have taken := flatMap_update_perm (f := fun i => (hash.index i).map HashBacket.data)
        part (List.nodup_range (n := hash.size)) (List.mem_range.mpr bound)
      refine taken.trans (List.Perm.cons _ (List.Perm.of_eq ?_))
      refine List.flatMap_congr fun i _ => ?_
      by_cases here : i = F.hashKey data % hash.size
      · subst here; simp
      · simp [here]

/-- Releasing a datum with no equal in the table leaves it as it is. -/
theorem hashRelease_absent {F : HashFuncs α β} {hash : Hash α} (keyed : hash.Keyed F) {data : β}
    (absent : ∀ d ∈ hash.datas, F.hashKey (F.deref d) = F.hashKey data →
      F.hashCmp (F.deref d) data = false) : hashRelease F hash data = (none, hash) := by
  have misses : hashReleaseFrom (F.hit data) [] (hash.index (F.hashKey data % hash.size)) = none :=
    hashReleaseFrom_none.mpr (keyed.misses absent)
  simp [hashRelease, misses]

theorem hashGet_count {F : HashFuncs α β} {hash : Hash α} (keyed : hash.Keyed F) {data : β}
    (newdata : α) (fresh : ∀ d ∈ hash.datas, F.hashKey (F.deref d) = F.hashKey data →
      F.hashCmp (F.deref d) data = false) :
    (hashGet F hash data (some newdata)).2.count = hash.count + 1 := by
  have misses : (hash.index (F.hashKey data % hash.size)).find? (F.hit data) = none := by
    refine List.find?_eq_none.mpr fun backet member => ?_
    simp [keyed.misses fresh backet member]
  simp only [hashGet, misses]

theorem hashRelease_count {F : HashFuncs α β} {hash : Hash α} {data : β} {p : α}
    (released : (hashRelease F hash data).1 = some p) :
    (hashRelease F hash data).2.count = hash.count - 1 := by
  unfold hashRelease at released ⊢
  cases found : hashReleaseFrom (F.hit data) [] (hash.index (F.hashKey data % hash.size)) with
  | none => simp [found] at released
  | some result => simp only [found]

/-- Buckets beyond the size are never filled. -/
theorem Hash.Keyed.outside {F : HashFuncs α β} {hash : Hash α} (keyed : hash.Keyed F) {i : Nat}
    (beyond : hash.size ≤ i) : hash.index i = [] := by
  cases bucket : hash.index i with
  | nil => rfl
  | cons backet rest =>
      have inside := keyed.bucket i backet (by simp [bucket])
      have bound := Nat.mod_lt backet.key keyed.sized
      omega

theorem hashClean_from (hash : Hash α) (n : Nat) :
    (List.range n).foldl (fun hash i => { hash with
      index := Function.update hash.index i [], count := hash.count - (hash.index i).length }) hash =
    { hash with
      index := fun i => if i < n then [] else hash.index i
      count := hash.count - ((List.range n).flatMap fun i => (hash.index i).map HashBacket.data).length } := by
  induction n with
  | zero => simp
  | succ n ih =>
      rw [List.range_succ, List.foldl_append, ih]
      simp only [List.foldl_cons, List.foldl_nil, Nat.lt_irrefl, if_false, List.flatMap_append,
        List.flatMap_cons, List.flatMap_nil, List.append_nil, List.length_append, List.length_map,
        Nat.sub_sub]
      congr 1
      funext i
      by_cases same : i = n
      · subst same; simp
      · by_cases lower : i < n
        · simp [same, lower, Nat.lt_succ_of_lt lower]
        · simp [same, lower, show ¬ i < n + 1 by omega]

theorem hashClean_empty {F : HashFuncs α β} {hash : Hash α} (keyed : hash.Keyed F) :
    hashClean hash = { hash with
      index := fun _ => [], count := hash.count - hash.datas.length } := by
  unfold hashClean
  rw [hashClean_from]
  congr 1
  funext i
  by_cases inside : i < hash.size
  · rw [if_pos inside]
  · rw [if_neg inside, keyed.outside (Nat.not_lt.mp inside)]

end Poplar
