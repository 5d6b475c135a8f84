import Poplar.Domain.CacheStore

/-!
# Map and queue hold the same results

Each use of the cache keeps the two in step and does to the queued results what it does
to a list of results.
-/
namespace Poplar.Domain

/-- A node of the queue, the address it holds, and the result found there. -/
structure CacheEntry where
  node : Nat
  ptr : Nat
  record : DnsQueryResult

namespace CacheEntry

def cell (e : CacheEntry) : Nat × Nat := (e.node, e.ptr)
def name (e : CacheEntry) : List UInt8 := e.record.hostName

end CacheEntry

/-- The cache as a list of results. -/
def records (entries : List CacheEntry) : DnsCache := entries.map CacheEntry.record

section Records

variable {entries xs ys : List CacheEntry} {e : CacheEntry} {hostname : List UInt8}

@[simp] theorem records_nil : records [] = [] := rfl

@[simp] theorem records_append : records (xs ++ ys) = records xs ++ records ys :=
  List.map_append

@[simp] theorem records_cons : records (e :: ys) = e.record :: records ys := rfl

theorem records_absent (absent : ∀ e ∈ entries, e.name ≠ hostname) :
    ∀ r ∈ records entries, (r.hostName == hostname) = false := by
  intro r member
  obtain ⟨e, inEntries, rfl⟩ := List.mem_map.mp member
  simpa [CacheEntry.name] using absent e inEntries

theorem lookup_absent (absent : ∀ e ∈ entries, e.name ≠ hostname) :
    dnsCacheLookupByHostname (records entries) hostname = none := by
  apply List.find?_eq_none.mpr
  intro r member
  simp [records_absent absent r member]

theorem names_apart (distinct : ((xs ++ e :: ys).map CacheEntry.name).Nodup) :
    (∀ d ∈ xs, d.name ≠ e.name) ∧ ∀ d ∈ ys, d.name ≠ e.name := by
  rw [List.map_append, List.map_cons, List.nodup_middle, List.nodup_cons, List.mem_append] at distinct
  constructor
  · exact fun d member same => distinct.1 (.inl (same ▸ List.mem_map_of_mem member))
  · exact fun d member same => distinct.1 (.inr (same ▸ List.mem_map_of_mem member))

theorem lookup_present (distinct : ((xs ++ e :: ys).map CacheEntry.name).Nodup) :
    dnsCacheLookupByHostname (records (xs ++ e :: ys)) e.name = some e.record := by
  have before := lookup_absent (names_apart distinct).1
  unfold dnsCacheLookupByHostname at before ⊢
  rw [records_append, List.find?_append, before]
  simp [CacheEntry.name]

theorem del_present (distinct : ((xs ++ e :: ys).map CacheEntry.name).Nodup) :
    dnsCacheDel (records (xs ++ e :: ys)) e.record = records (xs ++ ys) := by
  have before := records_absent (names_apart distinct).1
  unfold dnsCacheDel
  rw [records_append, List.eraseP_append_right _ (by
    intro r member
    simpa [CacheEntry.name] using before r member)]
  simp

theorem extend_present (distinct : ((xs ++ e :: ys).map CacheEntry.name).Nodup)
    {r : DnsQueryResult} (named : e.name = r.hostName) :
    dnsCacheExtend (records (xs ++ e :: ys)) r =
      records (xs ++ { e with record.validityEndTime := r.validityEndTime } :: ys) := by
  have still : ∀ {zs : List CacheEntry}, (∀ d ∈ zs, d.name ≠ e.name) →
      dnsCacheExtend (records zs) r = records zs := by
    intro zs apart
    rw [named] at apart
    unfold dnsCacheExtend
    apply (List.map_congr_left fun r' member => ?_).trans (List.map_id _)
    simp [records_absent apart r' member]
  have before := still (names_apart distinct).1
  have behind := still (names_apart distinct).2
  unfold dnsCacheExtend at before behind ⊢
  rw [records_append, records_cons, List.map_append, List.map_cons, before, behind]
  simp [CacheEntry.name] at named
  simp [named]

end Records

namespace CacheStore

open CacheEntry (cell ptr name record)

/-- The queue is `entries`, the map holds the same addresses under their own keys, and no
two results are of one host. -/
structure Synced (cache : CacheStore) (entries : List CacheEntry) : Prop where
  queue : cache.queue.Holds (entries.map cell)
  keyed : cache.map.Keyed cache.mapFuncs
  same : cache.map.datas.Perm (entries.map ptr)
  counted : cache.map.count = entries.length
  nodup : (entries.map ptr).Nodup
  live : ∀ e ∈ entries, cache.results e.ptr = some e.record
  below : ∀ e ∈ entries, e.ptr < cache.brk
  distinct : (entries.map name).Nodup

variable {cache : CacheStore} {entries xs ys : List CacheEntry} {e : CacheEntry} {p : Nat}
variable {r : DnsQueryResult} {hostname : List UInt8}

theorem load_ok (live : cache.results p = some r) : cache.load p = .ok r := by
  simp [load, live]

theorem free_ok (live : cache.results p = some r) : cache.dnsQueryResultFree p =
    .ok { cache with results := Function.update cache.results p none } := by
  simp only [dnsQueryResultFree, load_ok live, ok_bind, pure_ok]

theorem mapFuncs_deref (live : cache.results p = some r) :
    cache.mapFuncs.deref p = r.hostName := by
  simp [mapFuncs, live]

theorem Synced.stored (synced : cache.Synced entries) {d : Nat} (stored : d ∈ cache.map.datas) :
    ∃ e ∈ entries, e.ptr = d :=
  List.mem_map.mp (synced.same.mem_iff.mp stored)

theorem Synced.member_eq (synced : cache.Synced entries) {d e : CacheEntry} (memberD : d ∈ entries)
    (memberE : e ∈ entries) (same : d.name = e.name) : d = e :=
  List.inj_on_of_nodup_map synced.distinct memberD memberE same

/-- Only what the results of the entries are bears on the invariant. -/
theorem Synced.congr {cache' : CacheStore} (synced : cache.Synced entries)
    (map : cache'.map = cache.map) (queue : cache'.queue = cache.queue)
    (results : ∀ e ∈ entries, cache'.results e.ptr = cache.results e.ptr)
    (brk : cache.brk ≤ cache'.brk) : cache'.Synced entries := by
  refine ⟨queue ▸ synced.queue, ?_, map ▸ synced.same, map ▸ synced.counted, synced.nodup,
    fun e member => (results e member).trans (synced.live e member),
    fun e member => (synced.below e member).trans_le brk, synced.distinct⟩
  rw [map]
  refine synced.keyed.congr fun i backet member => ?_
  have bound : i < cache.map.size := synced.keyed.bucket i backet member ▸
    Nat.mod_lt _ synced.keyed.sized
  obtain ⟨e, inEntries, same⟩ := synced.stored (Hash.mem_datas_of_index bound member)
  simp only [mapFuncs, ← same, results e inEntries]

theorem lookupFrom_cases (hostname : List UInt8) {backets : List (HashBacket Nat)}
    (live : ∀ backet ∈ backets, ∃ r, cache.results backet.data = some r) :
    (∃ backet ∈ backets, ∃ r, cache.results backet.data = some r ∧ r.hostName = hostname ∧
        cache.lookupFrom hostname backets = .ok (some backet.data)) ∨
      (∀ backet ∈ backets, ∀ r, cache.results backet.data = some r → r.hostName ≠ hostname) ∧
        cache.lookupFrom hostname backets = .ok none := by
  induction backets with
  | nil => exact .inr ⟨by simp, rfl⟩
  | cons backet backets ih =>
      obtain ⟨r, here⟩ := live backet (by simp)
      simp only [lookupFrom, load_ok here, ok_bind, pure_ok]
      by_cases same : r.hostName = hostname
      · rw [if_pos same]
        exact .inl ⟨backet, by simp, r, here, same, rfl⟩
      · rw [if_neg same]
        rcases ih fun b member => live b (List.mem_cons_of_mem backet member) with found | missed
        · obtain ⟨b, member, found⟩ := found
          exact .inl ⟨b, List.mem_cons_of_mem backet member, found⟩
        · refine .inr ⟨?_, missed.2⟩
          intro b member r' there
          rcases List.mem_cons.mp member with eq | member
          · rw [eq, here] at there
            exact Option.some.inj there ▸ same
          · exact missed.1 b member r' there

/-- The entry of a host sits in the bucket that is searched. -/
theorem Synced.in_bucket (synced : cache.Synced entries) (member : e ∈ entries) :
    ∃ backet ∈ cache.map.index (BKDRHash e.name % cache.map.size), backet.data = e.ptr := by
  have stored : e.ptr ∈ cache.map.datas :=
    synced.same.mem_iff.mpr (List.mem_map_of_mem member)
  have found := synced.keyed.mem_datas.mp stored
  rwa [mapFuncs_deref (synced.live e member)] at found

theorem Synced.lookup (synced : cache.Synced entries) (hostname : List UInt8) :
    (∃ e ∈ entries, e.name = hostname ∧
        cache.dnsCacheLookupByHostname hostname = .ok (some e.ptr)) ∨
      (∀ e ∈ entries, e.name ≠ hostname) ∧
        cache.dnsCacheLookupByHostname hostname = .ok none := by
  have bound : BKDRHash hostname % cache.map.size < cache.map.size :=
    Nat.mod_lt _ synced.keyed.sized
  have entry : ∀ backet ∈ cache.map.index (BKDRHash hostname % cache.map.size),
      ∃ e ∈ entries, e.ptr = backet.data := fun backet member =>
    synced.stored (Hash.mem_datas_of_index bound member)
  have live : ∀ backet ∈ cache.map.index (BKDRHash hostname % cache.map.size),
      ∃ r, cache.results backet.data = some r := by
    intro backet member
    obtain ⟨e, inEntries, same⟩ := entry backet member
    exact ⟨e.record, same ▸ synced.live e inEntries⟩
  rcases lookupFrom_cases hostname live with found | missed
  · obtain ⟨backet, member, r, here, named, found⟩ := found
    obtain ⟨e, inEntries, same⟩ := entry backet member
    have record : e.record = r := by
      rw [← same, synced.live e inEntries] at here
      exact Option.some.inj here
    exact .inl ⟨e, inEntries, by rw [CacheEntry.name, record, named], by rw [same]; exact found⟩
  · refine .inr ⟨?_, missed.2⟩
    intro e inEntries named
    obtain ⟨backet, member, same⟩ := synced.in_bucket inEntries
    rw [named] at member
    exact missed.1 backet member e.record (same ▸ synced.live e inEntries) named

/-- What the map compares: the entries that equal a name are those of that name. -/
theorem Synced.fresh (synced : cache.Synced entries) (absent : ∀ e ∈ entries, e.name ≠ hostname) :
    ∀ d ∈ cache.map.datas, cache.mapFuncs.hashKey (cache.mapFuncs.deref d) = BKDRHash hostname →
      cache.mapFuncs.hashCmp (cache.mapFuncs.deref d) hostname = false := by
  intro d stored _
  obtain ⟨e, inEntries, rfl⟩ := synced.stored stored
  rw [mapFuncs_deref (synced.live e inEntries)]
  simpa [mapFuncs, CacheEntry.name] using absent e inEntries

theorem Synced.add (synced : cache.Synced entries) (live : cache.results p = some r)
    (below : p < cache.brk) (unused : ∀ e ∈ entries, e.ptr ≠ p)
    (absent : ∀ e ∈ entries, e.name ≠ r.hostName) :
    ∃ cache', cache.dnsCacheAdd p = .ok cache' ∧
      cache'.Synced (entries ++ [⟨cache.queue.brk, p, r⟩]) := by
  obtain ⟨queue, added, holds⟩ := listnodeAdd_holds synced.queue p
  have refers := mapFuncs_deref live
  have fresh := synced.fresh absent
  obtain ⟨_, keyed, perm⟩ := hashGet_insert synced.keyed p refers fresh
  have counted := hashGet_count synced.keyed p fresh
  refine ⟨{ cache with
    map := (hashGet cache.mapFuncs cache.map r.hostName (some p)).2, queue := queue }, ?_, ?_⟩
  · simp only [dnsCacheAdd, dnsCacheMapAdd, load_ok live, ok_bind, pure_ok, dnsCacheQueueAdd, added]
  · refine ⟨?_, keyed, ?_, ?_, ?_, ?_, ?_, ?_⟩
    · simpa [cell] using holds
    · rw [List.map_append]
      exact perm.trans ((synced.same.cons p).trans (List.perm_append_singleton p _).symm)
    · simp [counted, synced.counted]
    · rw [List.map_append]
      refine List.nodup_append.mpr ⟨synced.nodup, by simp, ?_⟩
      intro q member q' last
      obtain ⟨e, inEntries, rfl⟩ := List.mem_map.mp member
      rw [List.map_singleton, List.mem_singleton] at last
      exact last ▸ unused e inEntries
    · intro e member
      rcases List.mem_append.mp member with old | new
      · exact synced.live e old
      · rw [List.mem_singleton.mp new]; exact live
    · intro e member
      rcases List.mem_append.mp member with old | new
      · exact synced.below e old
      · rw [List.mem_singleton.mp new]; exact below
    · rw [List.map_append]
      refine List.nodup_append.mpr ⟨synced.distinct, by simp, ?_⟩
      intro q member q' last
      obtain ⟨e, inEntries, rfl⟩ := List.mem_map.mp member
      rw [List.map_singleton, List.mem_singleton] at last
      exact last ▸ absent e inEntries

/-- What a use of the cache leaves alone: results that are not in it. -/
structure Keeps (cache : CacheStore) (entries : List CacheEntry) (cache' : CacheStore) : Prop where
  results : ∀ q, (∀ e ∈ entries, e.ptr ≠ q) → cache'.results q = cache.results q
  brk : cache'.brk = cache.brk

theorem sublist_without : (xs ++ ys).Sublist (xs ++ e :: ys) :=
  (List.sublist_cons_self e ys).append_left xs

theorem Synced.ptr_apart (synced : cache.Synced (xs ++ e :: ys)) :
    ∀ d ∈ xs ++ ys, d.ptr ≠ e.ptr := by
  have nodup := synced.nodup
  rw [List.map_append, List.map_cons, List.nodup_middle, List.nodup_cons, ← List.map_append] at nodup
  exact fun d member same => nodup.1 (same ▸ List.mem_map_of_mem member)

theorem Synced.del (synced : cache.Synced (xs ++ e :: ys)) :
    ∃ cache', cache.dnsCacheDel e.ptr = .ok cache' ∧ cache'.Synced (xs ++ ys) ∧
      cache.Keeps (xs ++ e :: ys) cache' := by
  have member : e ∈ xs ++ e :: ys := by simp
  have live := synced.live e member
  have apart := synced.ptr_apart
  have within : ∀ d ∈ xs ++ ys, d ∈ xs ++ e :: ys := fun d => sublist_without.mem
  have cells := synced.queue
  rw [List.map_append, List.map_cons] at cells
  obtain ⟨queue, deleted, holds⟩ := listnodeDelete_holds cells (by
    intro c inXs
    obtain ⟨d, inEntries, rfl⟩ := List.mem_map.mp inXs
    exact apart d (List.mem_append_left ys inEntries))
  have refers := mapFuncs_deref live
  obtain ⟨released, keyed, perm⟩ := hashRelease_unique synced.keyed e.name
    (synced.same.mem_iff.mpr (List.mem_map_of_mem member)) (congrArg BKDRHash refers)
    (by rw [refers]; exact beq_self_eq_true e.name) (by
      intro d stored _ equal
      obtain ⟨d, inEntries, rfl⟩ := synced.stored stored
      rw [mapFuncs_deref (synced.live d inEntries)] at equal
      exact congrArg ptr (synced.member_eq inEntries member (beq_iff_eq.mp equal)))
  have rest : (hashRelease cache.mapFuncs cache.map e.name).2.datas.Perm ((xs ++ ys).map ptr) := by
    apply List.Perm.cons_inv (a := e.ptr)
    refine perm.symm.trans (synced.same.trans ?_)
    rw [List.map_append, List.map_cons, List.map_append]
    exact List.perm_middle
  refine ⟨{ cache with
    map := (hashRelease cache.mapFuncs cache.map e.name).2, queue := queue,
    results := Function.update cache.results e.ptr none }, ?_, ⟨?_, ?_, rest, ?_, ?_, ?_, ?_, ?_⟩,
    ?_, rfl⟩
  · simp only [dnsCacheDel, dnsCacheMapDel, load_ok live, ok_bind, pure_ok, dnsCacheQueueDel,
      deleted, dnsQueryResultFree]
    simp only [load, live, ok_bind]
    rfl
  · rw [List.map_append]
    exact holds
  · refine keyed.congr fun i backet stored => ?_
    have bound : i < (hashRelease cache.mapFuncs cache.map e.name).2.size :=
      keyed.bucket i backet stored ▸ Nat.mod_lt _ keyed.sized
    obtain ⟨d, inRest, same⟩ := List.mem_map.mp
      (rest.mem_iff.mp (Hash.mem_datas_of_index bound stored))
    simp only [mapFuncs, ← same, Function.update_of_ne (apart d inRest)]
  · rw [hashRelease_count released, synced.counted]
    simp
  · exact synced.nodup.sublist (sublist_without.map ptr)
  · intro d inRest
    exact (Function.update_of_ne (apart d inRest) _ _).trans (synced.live d (within d inRest))
  · exact fun d inRest => synced.below d (within d inRest)
  · exact synced.distinct.sublist (sublist_without.map name)
  · intro q outside
    exact Function.update_of_ne (Ne.symm (outside e member)) _ _

/-- The entry moves to a new node behind the tail; the map is not touched. -/
theorem Synced.move (synced : cache.Synced (xs ++ e :: ys)) :
    ∃ mid cache' node, cache.dnsCacheQueueDel e.ptr = .ok mid ∧
      mid.dnsCacheQueueAdd e.ptr = .ok cache' ∧
      cache'.Synced (xs ++ ys ++ [⟨node, e.ptr, e.record⟩]) := by
  have cells := synced.queue
  rw [List.map_append, List.map_cons] at cells
  obtain ⟨short, deleted, holds⟩ := listnodeDelete_holds cells (by
    intro c inXs
    obtain ⟨d, inEntries, rfl⟩ := List.mem_map.mp inXs
    exact synced.ptr_apart d (List.mem_append_left ys inEntries))
  obtain ⟨queue, added, holds⟩ := listnodeAdd_holds holds e.ptr
  have moved : ∀ {β : Type} (f : CacheEntry → β), (∀ node, f ⟨node, e.ptr, e.record⟩ = f e) →
      ((xs ++ e :: ys).map f).Perm ((xs ++ ys ++ [CacheEntry.mk short.brk e.ptr e.record]).map f) := by
    intro β f blind
    rw [List.map_append, List.map_append, List.map_singleton, blind, List.map_cons,
      List.map_append]
    exact List.perm_middle.trans (List.perm_append_singleton _ _).symm
  have member : ∀ d ∈ xs ++ ys ++ [CacheEntry.mk short.brk e.ptr e.record], ∃ d' ∈ xs ++ e :: ys,
      d'.ptr = d.ptr ∧ d'.record = d.record := by
    intro d there
    rcases List.mem_append.mp there with old | new
    · exact ⟨d, sublist_without.mem old, rfl, rfl⟩
    · rw [List.mem_singleton.mp new]
      exact ⟨e, by simp, rfl, rfl⟩
  refine ⟨{ cache with queue := short }, { cache with queue := queue }, short.brk, ?_, ?_, ?_⟩
  · simp only [dnsCacheQueueDel, deleted, ok_bind, pure_ok]
  · simp only [dnsCacheQueueAdd, added, ok_bind, pure_ok]
  · refine ⟨?_, synced.keyed, synced.same.trans (moved ptr fun _ => rfl), ?_,
      (moved ptr fun _ => rfl).nodup_iff.mp synced.nodup, ?_, ?_,
      (moved name fun _ => rfl).nodup_iff.mp synced.distinct⟩
    · rw [List.map_append, List.map_append]
      exact holds
    · rw [synced.counted]
      simp only [List.length_append, List.length_cons, List.length_nil]
      omega
    · intro d there
      obtain ⟨d', inEntries, samePtr, sameRecord⟩ := member d there
      rw [← samePtr, ← sameRecord]
      exact synced.live d' inEntries
    · intro d there
      obtain ⟨d', inEntries, samePtr, _⟩ := member d there
      exact samePtr ▸ synced.below d' inEntries

theorem Synced.freshness (synced : cache.Synced (xs ++ e :: ys)) :
    ∃ cache' entries', cache.dnsCacheFreshnessUpdate e.ptr = .ok cache' ∧
      cache'.Synced entries' ∧
      records entries' = Domain.dnsCacheFreshnessUpdate (records (xs ++ e :: ys)) e.record := by
  rcases List.eq_nil_or_concat ys with rfl | ⟨zs, last, rfl⟩
  · have tail : cache.queue.tail = some e.node := by
      rw [synced.queue.tail_cell]
      simp [cell]
    have data : listGetData cache.queue.nodes e.node = .ok e.ptr := by
      have cells := synced.queue
      rw [List.map_append, List.map_cons] at cells
      exact cells.getData
    refine ⟨cache, xs ++ [e], ?_, synced, ?_⟩
    · simp [CacheStore.dnsCacheFreshnessUpdate, tail, data, pure_ok]
    · simp [Domain.dnsCacheFreshnessUpdate, records]
  · have tail : cache.queue.tail = some last.node := by
      rw [synced.queue.tail_cell, List.concat_eq_append, ← List.cons_append, ← List.append_assoc,
        List.map_append, List.map_singleton, List.getLast?_concat]
      rfl
    have data : listGetData cache.queue.nodes last.node = .ok last.ptr := by
      have cells := synced.queue
      simp only [List.concat_eq_append, ← List.cons_append, ← List.append_assoc] at cells
      rw [List.map_append, List.map_cons] at cells
      exact cells.getData
    have other : last ∈ xs ++ zs.concat last := by simp
    obtain ⟨mid, cache', node, deleted, added, synced'⟩ := synced.move
    refine ⟨cache', _, ?_, synced', ?_⟩
    · simp only [CacheStore.dnsCacheFreshnessUpdate, tail, data, ok_bind,
        if_neg (synced.ptr_apart last other), deleted, added, pure_ok]
    · have different : (records (xs ++ e :: zs.concat last)).getLast? ≠ some e.record := by
        have names := (names_apart synced.distinct).2 last (by simp)
        simp only [List.concat_eq_append, records_append, records_cons, records_nil,
          ← List.cons_append, ← List.append_assoc, List.getLast?_concat, ne_eq, Option.some.injEq]
        exact fun same => names (congrArg DnsQueryResult.hostName same)
      rw [Domain.dnsCacheFreshnessUpdate, if_neg different, del_present synced.distinct,
        records_append]
      rfl

theorem Keeps.refl : cache.Keeps entries cache := ⟨fun _ _ => rfl, rfl⟩

theorem Keeps.trans {mid last : CacheStore} {fewer : List CacheEntry}
    (first : cache.Keeps entries mid) (second : mid.Keeps fewer last)
    (within : ∀ e ∈ fewer, e ∈ entries) : cache.Keeps entries last := by
  refine ⟨fun q outside => ?_, second.brk.trans first.brk⟩
  rw [second.results q fun e member => outside e (within e member), first.results q outside]

/-- After `count` deletions the queue is what lies behind the first `count` entries. -/
structure Evicting (cache : CacheStore) (entries : List CacheEntry) (limit : Nat)
    (done todo : List (Nat × Nat)) (s : CacheStore × Nat) : Prop where
  done : done = []
  todo : todo = (entries.drop s.2).map cell
  synced : s.1.Synced (entries.drop s.2)
  below : s.2 ≤ limit
  keeps : cache.Keeps entries s.1

theorem Evicting.step {limit : Nat} {done todo : List (Nat × Nat)} {c : Nat × Nat}
    {s : CacheStore × Nat} (evicting : Evicting cache entries limit done (c :: todo) s) :
    (evict limit c.2 s = .ok none ∧ s.2 = limit) ∨
      ∃ s' done', evict limit c.2 s = .ok (some s') ∧
        Evicting cache entries limit done' todo s' := by
  obtain ⟨now, count⟩ := s
  obtain ⟨rfl, rest, synced, below, keeps⟩ := evicting
  dsimp only at rest synced below keeps
  by_cases reached : limit ≤ count
  · exact .inl ⟨by simp [evict, reached, pure_ok], Nat.le_antisymm below reached⟩
  · cases left : entries.drop count with
    | nil => simp [left] at rest
    | cons e later =>
        rw [left, List.map_cons, List.cons.injEq] at rest
        rw [left] at synced
        have next : entries.drop (count + 1) = later := by
          rw [← List.tail_drop, left, List.tail_cons]
        have begins : now.Synced ([] ++ e :: later) := synced
        obtain ⟨now', deleted, synced', keeps'⟩ := begins.del
        have fewer : ∀ d ∈ e :: later, d ∈ entries := fun d member =>
          List.mem_of_mem_drop (left ▸ member)
        refine .inr ⟨(now', count + 1), [], ?_, rfl, ?_, ?_, ?_, keeps.trans keeps' fewer⟩
        · simp only [evict, if_neg reached, rest.1, cell]
          rw [deleted]
          rfl
        · rw [next]; exact rest.2
        · rw [next]; exact synced'
        · exact Nat.succ_le_of_lt (Nat.not_le.mp reached)

theorem Synced.checkAndDelete (synced : cache.Synced entries) :
    ∃ cache' entries', cache.dnsCacheCheckAndDelete = .ok cache' ∧ cache'.Synced entries' ∧
      records entries' = Domain.dnsCacheCheckAndDelete (records entries) ∧
      (∀ e ∈ entries', e ∈ entries) ∧ cache.Keeps entries cache' := by
  have counts : cache.dnsCacheRecordCountsCheck =
      decide (DNS_CACHE_RECORD_COUNTS_MAX < (records entries).length) := by
    simp [dnsCacheRecordCountsCheck, dnsCacheRecordCounts, synced.queue.counted, records]
  unfold dnsCacheCheckAndDelete Domain.dnsCacheCheckAndDelete
  by_cases full : DNS_CACHE_RECORD_COUNTS_MAX < (records entries).length
  · have start : Evicting cache entries (DNS_CACHE_RECORD_COUNTS_MAX / 3) []
        (entries.map cell) (cache, 0) := ⟨rfl, rfl, synced, Nat.zero_le _, .refl⟩
    obtain ⟨⟨cache', count⟩, ran, synced', keeps⟩ := allListElements_rule (fun s => s.1.queue)
      (fun s => s.1.Synced (entries.drop (DNS_CACHE_RECORD_COUNTS_MAX / 3)) ∧
        cache.Keeps entries s.1)
      (by
        rintro done todo s ⟨rfl, rfl, synced, _⟩
        exact synced.queue)
      (by
        intro done c todo s evicting
        rcases evicting.step with ⟨stops, reached⟩ | goes
        · exact .inl ⟨stops, reached ▸ evicting.synced, evicting.keeps⟩
        · exact .inr goes)
      (by
        rintro done s ⟨rfl, rest, synced, below, keeps⟩
        have short : entries.length ≤ s.2 := by simpa using rest.symm
        have same : entries.drop (DNS_CACHE_RECORD_COUNTS_MAX / 3) = entries.drop s.2 := by
          rw [List.drop_eq_nil_of_le short, List.drop_eq_nil_of_le (short.trans below)]
        exact ⟨same ▸ synced, keeps⟩)
      start synced.queue.enough
    rw [← synced.queue.head_cell] at ran
    refine ⟨cache', _, ?_, synced', ?_, fun e => List.mem_of_mem_drop, keeps⟩
    · simp only [counts, full, decide_true, if_true]
      rw [ran]
      rfl
    · rw [if_pos full]
      exact List.map_drop
  · refine ⟨cache, entries, ?_, synced, ?_, fun e member => member, .refl⟩
    · simp only [counts, full, decide_false, Bool.false_eq_true, if_false, pure_ok]
    · rw [if_neg full]

/-- The entries passed have been sifted, those to come have not. -/
def Sifting (entries : List CacheEntry) (currentTime : Nat) (done todo : List (Nat × Nat))
    (cache : CacheStore) : Prop :=
  ∃ kept rest, done = kept.map cell ∧ todo = rest.map cell ∧ cache.Synced (kept ++ rest) ∧
    records kept ++ dnsCacheValidityCheck (records rest) currentTime =
      dnsCacheValidityCheck (records entries) currentTime

theorem Sifting.step {currentTime : Nat} {done todo : List (Nat × Nat)} {c : Nat × Nat}
    (sifting : Sifting entries currentTime done (c :: todo) cache) :
    ∃ cache' done', expire currentTime c.2 cache = .ok (some cache') ∧
      Sifting entries currentTime done' todo cache' := by
  obtain ⟨kept, rest, rfl, split, synced, sifted⟩ := sifting
  cases rest with
  | nil => cases split
  | cons e rest =>
      rw [List.map_cons, List.cons.injEq] at split
      obtain ⟨rfl, rfl⟩ := split
      have live := load_ok (synced.live e (by simp))
      by_cases past : e.record.validityEndTime ≤ currentTime
      · obtain ⟨cache', deleted, synced', _⟩ := synced.del
        refine ⟨cache', _, ?_, kept, rest, rfl, rfl, synced', ?_⟩
        · simp only [expire, cell, live, ok_bind, if_pos past, deleted, pure_ok]
        · rw [← sifted]
          simp [dnsCacheValidityCheck, Nat.not_lt.mpr past]
      · refine ⟨cache, _, ?_, kept ++ [e], rest, rfl, rfl, by simpa using synced, ?_⟩
        · simp only [expire, cell, live, ok_bind, if_neg past, pure_ok]
        · rw [← sifted]
          simp [dnsCacheValidityCheck, Nat.not_le.mp past]

theorem Synced.sweep (synced : cache.Synced entries) (currentTime : Nat) :
    ∃ cache' entries', cache.dnsCacheValidityCheckTimeout currentTime = .ok cache' ∧
      cache'.Synced entries' ∧
      records entries' = dnsCacheValidityCheck (records entries) currentTime := by
  have start : Sifting entries currentTime [] (entries.map cell) cache :=
    ⟨[], entries, rfl, rfl, synced, rfl⟩
  obtain ⟨cache', ran, kept, synced', sifted⟩ := allListElements_rule CacheStore.queue
    (fun cache => ∃ kept, cache.Synced kept ∧
      records kept = dnsCacheValidityCheck (records entries) currentTime)
    (by
      rintro done todo cache ⟨kept, rest, rfl, rfl, synced, _⟩
      rw [← List.map_append]
      exact synced.queue)
    (fun done c todo cache sifting => .inr sifting.step)
    (by
      rintro done cache ⟨kept, rest, rfl, split, synced, sifted⟩
      cases rest with
      | nil => exact ⟨kept, by simpa using synced, by simpa [dnsCacheValidityCheck] using sifted⟩
      | cons e rest => cases split)
    start synced.queue.enough
  rw [← synced.queue.head_cell] at ran
  exact ⟨cache', kept, ran, synced', sifted⟩

/-- A result changed in place, under the name it had. -/
theorem Synced.update (synced : cache.Synced (xs ++ e :: ys)) (named : r.hostName = e.name) :
    { cache with results := Function.update cache.results e.ptr (some r) }.Synced
      (xs ++ { e with record := r } :: ys) := by
  have apart := synced.ptr_apart
  have outer : ∀ d ∈ xs ++ { e with record := r } :: ys, d = { e with record := r } ∨
      d ∈ xs ++ ys := by
    intro d member
    rcases List.mem_append.mp member with inXs | inRest
    · exact .inr (List.mem_append_left _ inXs)
    · rcases List.mem_cons.mp inRest with same | inYs
      · exact .inl same
      · exact .inr (List.mem_append_right _ inYs)
  refine ⟨?_, ?_, ?_, ?_, ?_, ?_, ?_, ?_⟩
  · simpa [cell] using synced.queue
  · refine synced.keyed.congr fun i backet member => ?_
    by_cases same : backet.data = e.ptr
    · have live := synced.live e (by simp)
      simp only [mapFuncs, same, Function.update_self, live, Option.map_some, Option.getD_some,
        named]
      rfl
    · simp only [mapFuncs, Function.update_of_ne same]
  · simpa using synced.same
  · simpa using synced.counted
  · simpa using synced.nodup
  · intro d member
    rcases outer d member with rfl | other
    · exact Function.update_self _ _ _
    · exact (Function.update_of_ne (apart d other) _ _).trans
        (synced.live d (sublist_without.mem other))
  · intro d member
    rcases outer d member with rfl | other
    · exact synced.below e (by simp)
    · exact synced.below d (sublist_without.mem other)
  · have same : (xs ++ { e with record := r } :: ys).map name = (xs ++ e :: ys).map name := by
      simp only [List.map_append, List.map_cons]
      rw [show name { e with record := r } = name e from named]
    rw [same]
    exact synced.distinct

theorem Synced.storeAnswer (synced : cache.Synced entries) (r : DnsQueryResult) :
    ∃ cache' entries', cache.storeAnswer r = .ok cache' ∧ cache'.Synced entries' ∧
      records entries' = DnsCache.use (.answer r) (records entries) := by
  set made := (cache.dnsQueryResultNew r).2 with hmade
  have apart : ∀ e ∈ entries, e.ptr ≠ cache.brk := fun e member =>
    Nat.ne_of_lt (synced.below e member)
  have synced' : made.Synced entries := synced.congr rfl rfl
    (fun e member => Function.update_of_ne (apart e member) _ _) (Nat.le_succ _)
  have live : made.results cache.brk = some r := Function.update_self _ _ _
  unfold CacheStore.storeAnswer
  rcases synced'.lookup r.hostName with ⟨e, member, named, found⟩ | ⟨absent, missed⟩
  · obtain ⟨xs, ys, rfl⟩ := List.append_of_mem member
    set updated := { e.record with validityEndTime := r.validityEndTime }
    have changed := synced'.update (r := updated) rfl
    have kept : (Function.update made.results e.ptr (some updated)) cache.brk = some r := by
      rw [Function.update_of_ne (Ne.symm (apart e member))]
      exact live
    set grown : CacheStore :=
      { made with results := Function.update made.results e.ptr (some updated) }
    have freed : grown.dnsQueryResultFree cache.brk =
        .ok { grown with results := Function.update grown.results cache.brk none } := free_ok kept
    refine ⟨{ grown with results := Function.update grown.results cache.brk none }, _, ?_,
      changed.congr rfl rfl ?_ le_rfl, ?_⟩
    · dsimp only [dnsQueryResultNew] at hmade ⊢
      rw [← hmade]
      simp only [found, ok_bind, load_ok (synced'.live e member)]
      exact freed
    · intro d inside
      have ptrs : d.ptr ∈ (xs ++ e :: ys).map ptr := by
        have moved := List.mem_map_of_mem (f := ptr) inside
        simpa using moved
      obtain ⟨d', inEntries, same⟩ := List.mem_map.mp ptrs
      exact Function.update_of_ne (same ▸ apart d' inEntries) _ _
    · have there := lookup_present synced.distinct
      rw [named] at there
      simp only [DnsCache.use, there, Option.isSome_some, if_true]
      exact (extend_present synced.distinct named).symm
  · obtain ⟨mid, fewer, ran, synced₂, same, within, keeps⟩ := synced'.checkAndDelete
    have live₂ : mid.results cache.brk = some r := (keeps.results _ apart).trans live
    have below : cache.brk < mid.brk := keeps.brk ▸ Nat.lt_succ_self _
    obtain ⟨cache', added, synced₃⟩ := synced₂.add live₂ below
      (fun e member => apart e (within e member)) fun e member => absent e (within e member)
    refine ⟨cache', _, ?_, synced₃, ?_⟩
    · dsimp only [dnsQueryResultNew] at hmade ⊢
      rw [← hmade]
      simp only [missed, ok_bind, ran]
      exact added
    · simp only [DnsCache.use, lookup_absent absent, Option.isSome_none, Bool.false_eq_true,
        if_false, records_append, same]
      rfl

theorem Synced.serveRequest (synced : cache.Synced entries) (hostname : List UInt8)
    (currentTime : Nat) (dropExpired : Bool) :
    ∃ cache' entries', cache.serveRequest hostname currentTime dropExpired = .ok cache' ∧
      cache'.Synced entries' ∧
      records entries' =
        DnsCache.use (.request hostname currentTime dropExpired) (records entries) := by
  unfold CacheStore.serveRequest
  rcases synced.lookup hostname with ⟨e, member, rfl, found⟩ | ⟨absent, missed⟩
  · have live := load_ok (synced.live e member)
    obtain ⟨xs, ys, rfl⟩ := List.append_of_mem member
    simp only [found, live, ok_bind, DnsCache.use, lookup_present synced.distinct,
      Option.map_some, Option.getD_some]
    by_cases valid : currentTime ≤ e.record.validityEndTime
    · simp only [if_pos valid]
      exact synced.freshness
    · simp only [if_neg valid]
      cases dropExpired with
      | true =>
          obtain ⟨cache', deleted, synced', _⟩ := synced.del
          exact ⟨cache', _, deleted, synced', (del_present synced.distinct).symm⟩
      | false => exact ⟨cache, _, rfl, synced, rfl⟩
  · simp only [missed, ok_bind, DnsCache.use, lookup_absent absent]
    exact ⟨cache, _, rfl, synced, rfl⟩

theorem freeAll_ok {ps : List Nat} (live : ∀ p ∈ ps, ∃ r, cache.results p = some r)
    (nodup : ps.Nodup) :
    ∃ results, cache.freeAll ps = .ok { cache with results := results } := by
  induction ps generalizing cache with
  | nil => exact ⟨cache.results, rfl⟩
  | cons p ps ih =>
      obtain ⟨fresh, nodupRest⟩ := List.nodup_cons.mp nodup
      obtain ⟨r, here⟩ := live p (by simp)
      have rest : ∀ q ∈ ps, ∃ r,
          { cache with results := Function.update cache.results p none : CacheStore }.results q =
            some r := by
        intro q member
        have different : q ≠ p := fun same => fresh (same ▸ member)
        obtain ⟨r, there⟩ := live q (List.mem_cons_of_mem p member)
        exact ⟨r, (Function.update_of_ne different none cache.results).trans there⟩
      obtain ⟨results, freed⟩ := ih rest nodupRest
      refine ⟨results, ?_⟩
      simp only [freeAll, free_ok here, ok_bind]
      exact freed

theorem Synced.clean (synced : cache.Synced entries) :
    ∃ cache', cache.dnsCacheClean = .ok cache' ∧ cache'.Synced [] := by
  obtain ⟨queue, emptied, holds⟩ := listDeleteAllNode_holds synced.queue
  have ptrs : (entries.map cell).map Prod.snd = entries.map ptr := by simp [cell]
  have live : ∀ p ∈ entries.map ptr, ∃ r,
      { cache with map := hashClean cache.map, queue := queue : CacheStore }.results p = some r := by
    intro p member
    obtain ⟨e, inEntries, rfl⟩ := List.mem_map.mp member
    exact ⟨e.record, synced.live e inEntries⟩
  obtain ⟨results, freed⟩ := freeAll_ok live synced.nodup
  refine ⟨{ cache with map := hashClean cache.map, queue := queue, results := results }, ?_, ?_⟩
  · simp only [dnsCacheClean, emptied, ok_bind, ptrs]
    exact freed
  · have cleaned := hashClean_empty synced.keyed
    refine ⟨holds, ?_, ?_, ?_, List.nodup_nil, by simp, by simp, List.nodup_nil⟩
    · rw [cleaned]
      exact ⟨synced.keyed.sized, by simp, by simp⟩
    · simp [cleaned, Hash.datas]
    · have counted := synced.same.length_eq
      simp [cleaned, synced.counted, counted]

/-- One use of the cache. -/
theorem Synced.use (synced : cache.Synced entries) (op : CacheUse) :
    ∃ cache' entries', cache.use op = .ok cache' ∧ cache'.Synced entries' ∧
      records entries' = DnsCache.use op (records entries) := by
  cases op with
  | answer r => exact synced.storeAnswer r
  | request hostname currentTime dropExpired =>
      exact synced.serveRequest hostname currentTime dropExpired
  | sweep currentTime => exact synced.sweep currentTime
  | clean =>
      obtain ⟨cache', ran, synced'⟩ := synced.clean
      exact ⟨cache', [], ran, synced', rfl⟩

/-- `HostName` of the result at an address, if there is one. -/
def hostNameOf (cache : CacheStore) (p : Nat) : Option (List UInt8) :=
  (cache.results p).map fun r => r.hostName

/-- Map and queue agree, and the search by host name is right about both. -/
structure InStep (cache : CacheStore) : Prop where
  same : cache.map.datas.Perm cache.queue.datas
  once : cache.queue.datas.Nodup
  mapCount : cache.map.count = cache.queue.datas.length
  queueCount : cache.queue.count = cache.queue.datas.length
  names : ∃ names : List (List UInt8), names.Nodup ∧
    cache.queue.datas.map cache.hostNameOf = names.map some
  buckets : ∀ i, ∀ backet ∈ cache.map.index i, ∃ name, cache.hostNameOf backet.data = some name ∧
    backet.key = BKDRHash name ∧ i = BKDRHash name % cache.map.size
  found : ∀ hostname p, cache.dnsCacheLookupByHostname hostname = .ok (some p) ↔
    p ∈ cache.queue.datas ∧ cache.hostNameOf p = some hostname
  missed : ∀ hostname, cache.dnsCacheLookupByHostname hostname = .ok none ↔
    ∀ p ∈ cache.queue.datas, cache.hostNameOf p ≠ some hostname

theorem Synced.datas (synced : cache.Synced entries) : cache.queue.datas = entries.map ptr := by
  rw [synced.queue.datas, List.map_map]
  rfl

theorem Synced.hostNameOf (synced : cache.Synced entries) (member : e ∈ entries) :
    cache.hostNameOf e.ptr = some e.name := by
  rw [CacheStore.hostNameOf, synced.live e member]
  rfl

theorem Synced.found (synced : cache.Synced entries) (hostname : List UInt8) (p : Nat) :
    cache.dnsCacheLookupByHostname hostname = .ok (some p) ↔
      p ∈ cache.queue.datas ∧ cache.hostNameOf p = some hostname := by
  rw [synced.datas]
  constructor
  · intro found
    rcases synced.lookup hostname with ⟨e, member, named, there⟩ | ⟨_, missed⟩
    · have same : e.ptr = p := by
        rw [there] at found
        cases found
        rfl
      exact ⟨same ▸ List.mem_map_of_mem member, by rw [← same, synced.hostNameOf member, named]⟩
    · rw [missed] at found
      cases found
  · rintro ⟨member, named⟩
    obtain ⟨d, inEntries, rfl⟩ := List.mem_map.mp member
    rw [synced.hostNameOf inEntries, Option.some.injEq] at named
    rcases synced.lookup hostname with ⟨e, there, same, found⟩ | ⟨absent, _⟩
    · rw [found, synced.member_eq there inEntries (same.trans named.symm)]
    · exact absurd named (absent d inEntries)

theorem Synced.missed (synced : cache.Synced entries) (hostname : List UInt8) :
    cache.dnsCacheLookupByHostname hostname = .ok none ↔
      ∀ p ∈ cache.queue.datas, cache.hostNameOf p ≠ some hostname := by
  constructor
  · intro missed p member named
    rw [(synced.found hostname p).mpr ⟨member, named⟩] at missed
    cases missed
  · intro absent
    rcases synced.lookup hostname with ⟨e, member, named, found⟩ | ⟨_, missed⟩
    · obtain ⟨stored, there⟩ := (synced.found hostname e.ptr).mp found
      exact absurd there (absent e.ptr stored)
    · exact missed

theorem Synced.inStep (synced : cache.Synced entries) : cache.InStep where
  same := synced.datas ▸ synced.same
  once := synced.datas ▸ synced.nodup
  mapCount := by rw [synced.counted, synced.datas, List.length_map]
  queueCount := by rw [synced.queue.counted, synced.datas, List.length_map, List.length_map]
  names := by
    refine ⟨entries.map name, synced.distinct, ?_⟩
    rw [synced.datas, List.map_map, List.map_map]
    exact List.map_congr_left fun e member => synced.hostNameOf member
  buckets := by
    intro i backet member
    have bucket := synced.keyed.bucket i backet member
    have bound : i < cache.map.size := bucket ▸ Nat.mod_lt _ synced.keyed.sized
    obtain ⟨e, inEntries, same⟩ := synced.stored (Hash.mem_datas_of_index bound member)
    have key := synced.keyed.key i backet member
    rw [← same, mapFuncs_deref (synced.live e inEntries)] at key
    exact ⟨e.name, same ▸ synced.hostNameOf inEntries, key, by rw [← bucket, key]; rfl⟩
  found := synced.found
  missed := synced.missed

theorem create_synced {size : Nat} (sized : 0 < size) : (dnsCacheCreateSize size).Synced [] :=
  ⟨listNew_holds, ⟨sized, by simp [dnsCacheCreateSize, hashCreateSize],
      by simp [dnsCacheCreateSize, hashCreateSize]⟩,
    by simp [dnsCacheCreateSize, hashCreateSize, Hash.datas], rfl, List.nodup_nil, by simp,
    by simp, List.nodup_nil⟩

theorem reachable_synced (reachable : cacheSystem.Reachable cache) :
    ∃ entries, cache.Synced entries := by
  apply reachable.invariant
  · rintro cache ⟨size, sized, rfl⟩
    exact ⟨[], create_synced sized⟩
  · rintro cache op cache' ⟨entries, synced⟩ _ ran
    obtain ⟨cache₂, entries', ran₂, synced', _⟩ := synced.use op
    have same : cache₂ = cache' := Except.ok.inj (ran₂.symm.trans ran)
    exact ⟨entries', same ▸ synced'⟩

/-- In every run, whatever the uses and whatever hashes collide, map and queue of the cache
stay in step. -/
theorem reachable_inStep (reachable : cacheSystem.Reachable cache) : cache.InStep := by
  obtain ⟨entries, synced⟩ := reachable_synced reachable
  exact synced.inStep

/-- Three answers in two buckets, a hit on the first, and a sweep that expires the second. -/
def someUses : List CacheUse :=
  [.answer ⟨1, [97], 5, 60, 100⟩, .answer ⟨2, [98], 6, 10, 50⟩, .answer ⟨3, [99], 7, 60, 100⟩,
    .request [97] 40 true, .sweep 60]

theorem someUses_inStep :
    ∃ cache, cacheSystem.Reachable cache ∧ cache.queue.datas = [2, 0] ∧ cache.InStep := by
  have ran : (cacheSystem.replay (fun _ _ => true) id someUses (dnsCacheCreateSize 2)).map
      (fun cache => cache.queue.datas) = some [2, 0] := by decide +kernel
  obtain ⟨cache, replayed, datas⟩ := Option.map_eq_some_iff.mp ran
  have created : cacheSystem.Reachable (dnsCacheCreateSize 2) := .start ⟨2, by decide, rfl⟩
  have reachable := created.replay (fun _ _ _ => trivial) replayed
  exact ⟨cache, reachable, datas, reachable_inStep reachable⟩

end CacheStore

end Poplar.Domain
