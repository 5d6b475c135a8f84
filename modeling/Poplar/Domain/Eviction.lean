import Poplar.Domain.CacheSync
import Poplar.Lib.Recency

/-!
# Which records stay, and how many

The queue has the records in the order of their last use. An eviction takes those that
were not used for the longest time; it runs before a record is added, not behind.
-/
namespace Poplar.Domain

open Recency

def namesOf (cache : DnsCache) : List (List UInt8) := cache.map DnsQueryResult.hostName

section Names

variable {cache : DnsCache} {r : DnsQueryResult} {hostname : List UInt8}

theorem lookup_mem (found : dnsCacheLookupByHostname cache hostname = some r) :
    r ∈ cache ∧ r.hostName = hostname := by
  constructor
  · exact List.mem_of_find?_eq_some found
  · simpa using List.find?_some found

theorem lookup_isNone_iff :
    dnsCacheLookupByHostname cache hostname = none ↔ hostname ∉ namesOf cache := by
  simp [dnsCacheLookupByHostname, namesOf]

theorem names_extend : namesOf (dnsCacheExtend cache r) = namesOf cache := by
  unfold namesOf dnsCacheExtend
  rw [List.map_map]
  apply List.map_congr_left
  intro other _
  by_cases same : other.hostName = r.hostName <;> simp [same]

theorem names_del : namesOf (dnsCacheDel cache r) = (namesOf cache).erase r.hostName := by
  unfold namesOf dnsCacheDel
  rw [List.erase_eq_eraseP', List.eraseP_map]
  rfl

theorem names_freshness (distinct : (namesOf cache).Nodup) :
    namesOf (dnsCacheFreshnessUpdate cache r) = (namesOf cache).erase r.hostName ++ [r.hostName] := by
  unfold dnsCacheFreshnessUpdate
  split
  next last =>
    -- nothing moves: the record is the last one already
    obtain ⟨front, rfl⟩ := List.getLast?_eq_some_iff.mp last
    rw [namesOf, List.map_append, List.map_singleton] at distinct ⊢
    have absent : r.hostName ∉ front.map DnsQueryResult.hostName := by
      intro member
      exact (List.nodup_append.mp distinct).2.2 _ member _ (List.mem_singleton_self _) rfl
    rw [List.erase_append_right _ absent, List.erase_cons_head, List.append_nil]
  next =>
    rw [dnsCacheAdd, ← names_del]
    exact List.map_append

end Names

/-- The host whose record a use of the cache puts in or hits. -/
def DnsCache.used (cache : DnsCache) : CacheUse → Option (List UInt8)
  | .answer r => if r.hostName ∈ namesOf cache then none else some r.hostName
  | .request hostname currentTime _ =>
    ((dnsCacheLookupByHostname cache hostname).filter fun r =>
      decide (currentTime ≤ r.validityEndTime)).map DnsQueryResult.hostName
  | .sweep _ => none
  | .clean => none

/-- The times of the last uses, if this host is used now. -/
def recordUse (lastUse : List UInt8 → Nat) (now : Nat) : Option (List UInt8) → List UInt8 → Nat
  | some hostname => Function.update lastUse hostname now
  | none => lastUse

theorem sublist_checkAndDelete (cache : DnsCache) :
    (dnsCacheCheckAndDelete cache).Sublist cache := by
  unfold dnsCacheCheckAndDelete
  split
  · exact List.drop_sublist _ cache
  · exact List.Sublist.refl cache

/-- Each use keeps the order. -/
theorem ordered_use {cache : DnsCache} {lastUse : List UInt8 → Nat} {now : Nat}
    (ordered : Ordered lastUse now (namesOf cache)) (distinct : (namesOf cache).Nodup)
    (use : CacheUse) :
    Ordered (recordUse lastUse now (cache.used use)) (now + 1) (namesOf (DnsCache.use use cache)) := by
  cases use with
  | answer r =>
      by_cases known : r.hostName ∈ namesOf cache
      · have found : (dnsCacheLookupByHostname cache r.hostName).isSome := by
          rw [Option.isSome_iff_ne_none, ne_eq, lookup_isNone_iff, not_not]
          exact known
        simp only [DnsCache.used, DnsCache.use, if_pos known, if_pos found, names_extend]
        exact ordered.later
      · have missed := lookup_isNone_iff.mpr known
        have fewer : (namesOf (dnsCacheCheckAndDelete cache)).Sublist (namesOf cache) :=
          (sublist_checkAndDelete cache).map _
        simp only [DnsCache.used, DnsCache.use, if_neg known, missed, Option.isSome_none,
          Bool.false_eq_true, if_false, dnsCacheAdd]
        rw [namesOf, List.map_append, List.map_singleton]
        exact (ordered.sublist fewer).use fun member => known (fewer.mem member)
  | request hostname currentTime dropExpired =>
      cases found : dnsCacheLookupByHostname cache hostname with
      | none =>
          simp only [DnsCache.used, DnsCache.use, found]
          exact ordered.later
      | some r =>
          by_cases valid : currentTime ≤ r.validityEndTime
          · simp only [DnsCache.used, DnsCache.use, found, Option.filter_some, Option.map_some,
              Option.getD_some, decide_eq_true_eq, if_pos valid, names_freshness distinct]
            exact (ordered.sublist List.erase_sublist).use distinct.not_mem_erase
          · simp only [DnsCache.used, DnsCache.use, found, Option.filter_some, Option.map_some,
              Option.getD_some, decide_eq_true_eq, if_neg valid, Option.map_none]
            cases dropExpired with
            | true =>
                rw [if_pos rfl, names_del]
                exact (ordered.sublist List.erase_sublist).later
            | false => exact ordered.later
  | sweep currentTime =>
      have fewer : (namesOf (dnsCacheValidityCheck cache currentTime)).Sublist (namesOf cache) :=
        List.filter_sublist.map _
      exact (ordered.sublist fewer).later
  | clean => exact Ordered.nil _ _

theorem length_freshness {cache : DnsCache} {r : DnsQueryResult} (present : r ∈ cache) :
    (dnsCacheFreshnessUpdate cache r).length = cache.length := by
  unfold dnsCacheFreshnessUpdate
  split
  · rfl
  · rw [dnsCacheAdd, List.length_append, List.length_singleton, dnsCacheDel,
      List.length_eraseP_add_one present (beq_self_eq_true r.hostName)]

/-- Only an answer for a host that is not cached makes the cache larger. -/
theorem length_use_le {cache : DnsCache} {use : CacheUse}
    (known : ∀ r, use = .answer r → (dnsCacheLookupByHostname cache r.hostName).isSome) :
    (DnsCache.use use cache).length ≤ cache.length := by
  cases use with
  | answer r =>
      rw [DnsCache.use, if_pos (known r rfl), dnsCacheExtend, List.length_map]
  | request hostname currentTime dropExpired =>
      cases found : dnsCacheLookupByHostname cache hostname with
      | none => simp [DnsCache.use, found]
      | some r =>
          simp only [DnsCache.use, found, Option.map_some, Option.getD_some]
          split
          · exact Nat.le_of_eq (length_freshness (lookup_mem found).1)
          · split
            · exact List.eraseP_sublist.length_le
            · exact Nat.le_refl _
  | sweep currentTime => exact List.length_filter_le _ _
  | clean => exact Nat.zero_le _

/-- Where the cache is not above its maximum, only an answer for a new host gets it there. -/
theorem length_use_iff {cache : DnsCache} (within : cache.length ≤ DNS_CACHE_RECORD_COUNTS_MAX)
    (use : CacheUse) :
    (DnsCache.use use cache).length ≤ DNS_CACHE_RECORD_COUNTS_MAX ↔
      ¬ ∃ r, use = .answer r ∧ dnsCacheLookupByHostname cache r.hostName = none ∧
        cache.length = DNS_CACHE_RECORD_COUNTS_MAX := by
  by_cases adds : ∃ r, use = .answer r ∧ dnsCacheLookupByHostname cache r.hostName = none
  · obtain ⟨r, rfl, missed⟩ := adds
    have calm : dnsCacheCheckAndDelete cache = cache := if_neg (Nat.not_lt.mpr within)
    have grown : (DnsCache.use (.answer r) cache).length = cache.length + 1 := by
      simp [DnsCache.use, missed, calm, dnsCacheAdd]
    rw [grown]
    constructor
    · rintro room ⟨_, _, _, full⟩
      omega
    · intro notFull
      have below : cache.length ≠ DNS_CACHE_RECORD_COUNTS_MAX := by
        intro full
        exact notFull ⟨r, rfl, missed, full⟩
      omega
  · have known : ∀ r, use = .answer r → (dnsCacheLookupByHostname cache r.hostName).isSome := by
      intro r same
      by_contra missed
      exact adds ⟨r, same, Option.not_isSome_iff_eq_none.mp missed⟩
    apply iff_of_true ((length_use_le known).trans within)
    rintro ⟨r, same, missed, _⟩
    exact adds ⟨r, same, missed⟩

namespace CacheStore

variable {cache : CacheStore} {entries : List CacheEntry}

/-- The results in the order of the queue. -/
def listed (cache : CacheStore) : DnsCache := cache.queue.datas.filterMap cache.results

theorem Synced.listed (synced : cache.Synced entries) : cache.listed = records entries := by
  rw [CacheStore.listed, synced.datas, List.filterMap_map, records, ← List.filterMap_eq_map]
  apply List.filterMap_congr
  intro e member
  exact synced.live e member

theorem namesOf_records (entries : List CacheEntry) :
    namesOf (records entries) = entries.map CacheEntry.name :=
  List.map_map

theorem Synced.counts (synced : cache.Synced entries) :
    cache.dnsCacheRecordCounts = (records entries).length := by
  rw [dnsCacheRecordCounts, synced.queue.counted, List.length_map, records, List.length_map]

/-- The search in the map answers as one in the list does. -/
theorem Synced.missed_iff (synced : cache.Synced entries) (hostname : List UInt8) :
    cache.dnsCacheLookupByHostname hostname = .ok none ↔
      Domain.dnsCacheLookupByHostname (records entries) hostname = none := by
  rw [synced.missed, lookup_isNone_iff, namesOf_records, synced.datas]
  constructor
  · intro absent member
    obtain ⟨e, inEntries, rfl⟩ := List.mem_map.mp member
    exact absent e.ptr (List.mem_map_of_mem inEntries) (synced.hostNameOf inEntries)
  · intro absent p member named
    obtain ⟨e, inEntries, rfl⟩ := List.mem_map.mp member
    rw [synced.hostNameOf inEntries, Option.some.injEq] at named
    exact absent (named ▸ List.mem_map_of_mem inEntries)

/-! ## How many records -/

/-- An answer for a host that is not cached reaches a cache that is full. -/
def Overfills (cache : CacheStore) (use : CacheUse) : Prop :=
  ∃ r, use = .answer r ∧ cache.dnsCacheLookupByHostname r.hostName = .ok none ∧
    cache.dnsCacheRecordCounts = DNS_CACHE_RECORD_COUNTS_MAX

theorem use_within_iff {op : CacheUse} {cache' : CacheStore}
    (reachable : cacheSystem.Reachable cache)
    (within : cache.dnsCacheRecordCounts ≤ DNS_CACHE_RECORD_COUNTS_MAX)
    (ran : cache.use op = .ok cache') :
    cache'.dnsCacheRecordCounts ≤ DNS_CACHE_RECORD_COUNTS_MAX ↔ ¬ cache.Overfills op := by
  obtain ⟨entries, synced⟩ := reachable_synced reachable
  obtain ⟨cache₂, entries', ran₂, synced', same⟩ := synced.use op
  cases ran.symm.trans ran₂
  rw [synced'.counts, same, length_use_iff (synced.counts ▸ within)]
  unfold Overfills
  rw [synced.counts]
  apply not_congr
  apply exists_congr
  intro r
  rw [synced.missed_iff]

/-- A run stays within the maximum exactly when it never adds a record to a full cache. -/
theorem records_within_iff {size : Nat} (sized : 0 < size) (uses : List CacheUse) :
    cacheSystem.Every (fun cache => cache.dnsCacheRecordCounts ≤ DNS_CACHE_RECORD_COUNTS_MAX) uses
        (dnsCacheCreateSize size) ↔
      cacheSystem.Each (fun cache op => ¬ cache.Overfills op) uses (dnsCacheCreateSize size) := by
  have created : cacheSystem.Reachable (dnsCacheCreateSize size) := .start ⟨size, sized, rfl⟩
  apply created.every_iff
  · intro cache op cache' reachable within _ ran
    exact use_within_iff reachable within ran
  · exact Nat.zero_le _

/-- A name of four digits. -/
def numbered (n : Nat) : List UInt8 :=
  [n / 1000, n / 100, n / 10, n].map fun d => UInt8.ofNat (48 + d % 10)

theorem numbered_inj {m n : Nat} (smallM : m < 10000) (smallN : n < 10000)
    (same : numbered m = numbered n) : m = n := by
  have digit : ∀ {a b : Nat}, UInt8.ofNat (48 + a % 10) = UInt8.ofNat (48 + b % 10) →
      a % 10 = b % 10 := by
    intro a b eq
    have values := congrArg UInt8.toNat eq
    simp only [UInt8.toNat_ofNat'] at values
    omega
  simp only [numbered, List.map_cons, List.map_nil, List.cons.injEq, and_true] at same
  have thousands := digit same.1
  have hundreds := digit same.2.1
  have tens := digit same.2.2.1
  have ones := digit same.2.2.2
  omega

/-- Answers for `n` hosts. -/
def answersFor (n : Nat) : List CacheUse :=
  (List.range n).map fun i => .answer ⟨0, numbered i, 1, 60, 60⟩

/-- Up to one above the maximum each answer adds its record. -/
theorem answersFor_fill {n : Nat} (small : n ≤ DNS_CACHE_RECORD_COUNTS_MAX + 1) :
    ∃ cache entries, cacheSystem.replay (fun _ _ => true) id (answersFor n) dnsCacheCreate =
        some cache ∧ cache.Synced entries ∧
      namesOf (records entries) = (List.range n).map numbered := by
  have maximum : DNS_CACHE_RECORD_COUNTS_MAX = 1000 := rfl
  induction n with
  | zero => exact ⟨dnsCacheCreate, [], rfl, create_synced (by decide), rfl⟩
  | succ n ih =>
      obtain ⟨cache, entries, replayed, synced, names⟩ := ih (by omega)
      have length : (records entries).length = n := by
        rw [← List.length_map (f := DnsQueryResult.hostName)]
        exact (congrArg List.length names).trans (by simp)
      have missed : Domain.dnsCacheLookupByHostname (records entries) (numbered n) = none := by
        rw [lookup_isNone_iff, names]
        intro member
        obtain ⟨i, inside, same⟩ := List.mem_map.mp member
        rw [List.mem_range] at inside
        have := numbered_inj (by omega) (by omega) same
        omega
      have calm : Domain.dnsCacheCheckAndDelete (records entries) = records entries :=
        if_neg (by omega)
      obtain ⟨cache', entries', ran, synced', same⟩ :=
        synced.use (.answer ⟨0, numbered n, 1, 60, 60⟩)
      refine ⟨cache', entries', ?_, synced', ?_⟩
      · rw [answersFor, List.range_succ, List.map_append, Runs.System.replay_append]
        rw [answersFor] at replayed
        rw [replayed, Option.bind_some, List.map_singleton]
        simp only [Runs.System.replay, cacheSystem, id, ran, if_true]
      · rw [same, DnsCache.use, missed, calm, Domain.dnsCacheAdd, List.range_succ, List.map_append, ← names]
        exact List.map_append

theorem answersFor_within {n : Nat} (small : n ≤ DNS_CACHE_RECORD_COUNTS_MAX + 1)
    (every : cacheSystem.Every (fun cache => cache.dnsCacheRecordCounts ≤ DNS_CACHE_RECORD_COUNTS_MAX)
      (answersFor n) dnsCacheCreate) : n ≤ DNS_CACHE_RECORD_COUNTS_MAX := by
  obtain ⟨cache, entries, replayed, synced, names⟩ := answersFor_fill small
  rw [← List.map_id (answersFor n)] at every
  have within := every.replay (fun _ _ _ => trivial) replayed
  have length := congrArg List.length names
  rw [namesOf, List.length_map, List.length_map, List.length_range] at length
  rwa [synced.counts, length] at within

theorem one_record_too_many :
    ¬ cacheSystem.Every (fun cache => cache.dnsCacheRecordCounts ≤ DNS_CACHE_RECORD_COUNTS_MAX)
      (answersFor (DNS_CACHE_RECORD_COUNTS_MAX + 1)) dnsCacheCreate :=
  mt (answersFor_within (Nat.le_refl _)) (Nat.not_succ_le_self _)

theorem records_within_sample :
    cacheSystem.Every (fun cache => cache.dnsCacheRecordCounts ≤ DNS_CACHE_RECORD_COUNTS_MAX)
        someUses (dnsCacheCreateSize 2) ↔
      cacheSystem.Each (fun cache op => ¬ cache.Overfills op) someUses (dnsCacheCreateSize 2) :=
  records_within_iff (by decide) someUses

/-! ## Which records -/

/-- The host whose record a use puts in or hits. -/
def used (cache : CacheStore) : CacheUse → Option (List UInt8)
  | .answer r =>
    match cache.dnsCacheLookupByHostname r.hostName with
    | .ok none => some r.hostName
    | _ => none
  | .request hostname currentTime _ =>
    match cache.dnsCacheLookupByHostname hostname with
    | .ok (some p) => ((cache.results p).filter fun r =>
        decide (currentTime ≤ r.validityEndTime)).map DnsQueryResult.hostName
    | _ => none
  | .sweep _ => none
  | .clean => none

theorem Synced.used (synced : cache.Synced entries) (use : CacheUse) :
    cache.used use = (records entries).used use := by
  cases use with
  | answer r =>
      by_cases known : r.hostName ∈ Domain.namesOf (records entries)
      · have found : cache.dnsCacheLookupByHostname r.hostName ≠ .ok none := fun missed =>
          lookup_isNone_iff.mp ((synced.missed_iff _).mp missed) known
        simp only [CacheStore.used, DnsCache.used, if_pos known]
      · have missed := (synced.missed_iff _).mpr (lookup_isNone_iff.mpr known)
        simp only [CacheStore.used, DnsCache.used, if_neg known, missed]
  | request hostname currentTime dropExpired =>
      rcases synced.lookup hostname with ⟨e, member, rfl, found⟩ | ⟨absent, missed⟩
      · obtain ⟨xs, ys, rfl⟩ := List.append_of_mem member
        simp only [CacheStore.used, DnsCache.used, found, synced.live e member,
          lookup_present synced.distinct]
      · simp only [CacheStore.used, DnsCache.used, missed, lookup_absent absent, Option.filter_none,
          Option.map_none]
  | sweep currentTime => rfl
  | clean => rfl

/-- A cache, the number of its uses so far, and the last use of each host's record. -/
structure Timed where
  cache : CacheStore
  now : Nat
  lastUse : List UInt8 → Nat

def timedSystem : Runs.System Timed CacheUse Fault where
  start t := cacheSystem.start t.cache
  guard _ _ := True
  exec op t := do
    let cache ← t.cache.use op
    return ⟨cache, t.now + 1, recordUse t.lastUse t.now (t.cache.used op)⟩

/-- The times do not bear on the runs. -/
theorem reachable_timed (reachable : cacheSystem.Reachable cache) :
    ∃ now lastUse, timedSystem.Reachable ⟨cache, now, lastUse⟩ := by
  apply reachable.invariant
  · intro cache starts
    exact ⟨0, fun _ => 0, .start starts⟩
  · rintro cache op cache' ⟨now, lastUse, timed⟩ _ (ran : cache.use op = .ok cache')
    refine ⟨now + 1, recordUse lastUse now (cache.used op), .step timed (show timedSystem.guard _ op from trivial) ?_⟩
    simp only [timedSystem, ran, ok_bind, pure_ok]

theorem timed_ordered {t : Timed} (reachable : timedSystem.Reachable t) :
    ∃ entries, t.cache.Synced entries ∧
      Ordered t.lastUse t.now (Domain.namesOf (records entries)) := by
  apply reachable.invariant
  · rintro ⟨cache, now, lastUse⟩ ⟨size, sized, rfl⟩
    exact ⟨[], create_synced sized, Ordered.nil _ _⟩
  · rintro t op t' ⟨entries, synced, ordered⟩ _ ran
    obtain ⟨cache', entries', used, synced', same⟩ := synced.use op
    simp only [timedSystem, used, ok_bind, pure_ok, Except.ok.injEq] at ran
    subst ran
    refine ⟨entries', synced', ?_⟩
    rw [same, synced.used]
    exact ordered_use ordered (namesOf_records entries ▸ synced.distinct) op

/-- What an eviction takes out: the records in front, which nobody used since any of the
others was used last. -/
structure Evicts (lastUse : List UInt8 → Nat) (cache cache' : CacheStore) (victims : DnsCache) :
    Prop where
  count : victims.length = DNS_CACHE_RECORD_COUNTS_MAX / 3
  listed : cache.listed = victims ++ cache'.listed
  older : ∀ victim ∈ victims, ∀ r ∈ cache'.listed, lastUse victim.hostName < lastUse r.hostName
  gone : ∀ victim ∈ victims, cache'.dnsCacheLookupByHostname victim.hostName = .ok none

theorem Synced.made (synced : cache.Synced entries) (r : DnsQueryResult) :
    (cache.dnsQueryResultNew r).2.Synced entries := by
  refine synced.congr rfl rfl (fun e member => ?_) (Nat.le_succ _)
  exact Function.update_of_ne (Nat.ne_of_lt (synced.below e member)) _ _

theorem Synced.evicts {lastUse : List UInt8 → Nat} {now : Nat} (synced : cache.Synced entries)
    (ordered : Ordered lastUse now (Domain.namesOf (records entries)))
    (full : DNS_CACHE_RECORD_COUNTS_MAX < cache.dnsCacheRecordCounts) {cache' : CacheStore}
    {entries' : List CacheEntry} (synced' : cache'.Synced entries')
    (same : records entries' = Domain.dnsCacheCheckAndDelete (records entries)) :
    ∃ victims, Evicts lastUse cache cache' victims := by
  rw [synced.counts] at full
  rw [Domain.dnsCacheCheckAndDelete, if_pos full] at same
  have split := List.take_append_drop (DNS_CACHE_RECORD_COUNTS_MAX / 3) (records entries)
  have older := ordered.cut (DNS_CACHE_RECORD_COUNTS_MAX / 3)
  rw [Domain.namesOf, ← List.map_take, ← List.map_drop] at older
  refine ⟨(records entries).take (DNS_CACHE_RECORD_COUNTS_MAX / 3), ?_, ?_, ?_, ?_⟩
  · rw [List.length_take]
    exact Nat.min_eq_left ((Nat.div_le_self _ _).trans full.le)
  · rw [synced.listed, synced'.listed, same, split]
  · intro victim inFront r kept
    rw [synced'.listed, same] at kept
    exact older _ (List.mem_map_of_mem inFront) _ (List.mem_map_of_mem kept)
  · intro victim inFront
    rw [synced'.missed_iff, same, lookup_isNone_iff]
    intro kept
    -- a record of the same host behind would have been used later than itself
    rw [Domain.namesOf] at kept
    exact Nat.lt_irrefl _ (older _ (List.mem_map_of_mem inFront) _ kept)

/-- The queue has the records in the order of their last use, and an eviction takes the
third of the maximum that was used least recently, nothing else. -/
theorem recency_order {t : Timed} (reachable : timedSystem.Reachable t) :
    t.cache.listed.length = t.cache.dnsCacheRecordCounts ∧
      (t.cache.listed.Pairwise fun r r' => t.lastUse r.hostName < t.lastUse r'.hostName) ∧
      ∀ r, ∃ cache', (t.cache.dnsQueryResultNew r).2.dnsCacheCheckAndDelete = .ok cache' ∧
        (t.cache.dnsCacheRecordCounts ≤ DNS_CACHE_RECORD_COUNTS_MAX →
          cache'.listed = t.cache.listed) ∧
        (DNS_CACHE_RECORD_COUNTS_MAX < t.cache.dnsCacheRecordCounts →
          ∃ victims, Evicts t.lastUse t.cache cache' victims) := by
  obtain ⟨entries, synced, ordered⟩ := timed_ordered reachable
  refine ⟨?_, ?_, ?_⟩
  · rw [synced.listed, synced.counts]
  · rw [synced.listed]
    have order := ordered.order
    rw [Domain.namesOf, List.pairwise_map] at order
    exact order
  · intro r
    obtain ⟨cache', entries', ran, synced', same, _⟩ := (synced.made r).checkAndDelete
    refine ⟨cache', ran, ?_, ?_⟩
    · intro within
      rw [synced.counts] at within
      rw [synced'.listed, synced.listed, same, Domain.dnsCacheCheckAndDelete,
        if_neg (Nat.not_lt.mpr within)]
    · intro full
      exact synced.evicts ordered full synced' same

theorem recency_order_full :
    ∃ cache lastUse cache' victims, cacheSystem.Reachable cache ∧
      cache.dnsCacheRecordCounts = DNS_CACHE_RECORD_COUNTS_MAX + 1 ∧
      (cache.dnsQueryResultNew ⟨0, [119], 1, 60, 60⟩).2.dnsCacheCheckAndDelete = .ok cache' ∧
      Evicts lastUse cache cache' victims := by
  obtain ⟨cache, entries, replayed, synced, names⟩ := answersFor_fill (Nat.le_refl _)
  have created : cacheSystem.Reachable dnsCacheCreate := .start ⟨HASHTABSIZE, by decide, rfl⟩
  have reachable := created.replay (fun _ _ _ => trivial) replayed
  have count : cache.dnsCacheRecordCounts = DNS_CACHE_RECORD_COUNTS_MAX + 1 := by
    have length := congrArg List.length names
    rw [Domain.namesOf, List.length_map, List.length_map, List.length_range] at length
    rw [synced.counts, length]
  obtain ⟨now, lastUse, timed⟩ := reachable_timed reachable
  obtain ⟨_, _, evicts⟩ := recency_order timed
  obtain ⟨cache', ran, _, full⟩ := evicts ⟨0, [119], 1, 60, 60⟩
  obtain ⟨victims, evicted⟩ := full (Nat.lt_of_lt_of_eq (Nat.lt_succ_self _) count.symm)
  exact ⟨cache, lastUse, cache', victims, reachable, count, ran, evicted⟩

end CacheStore

end Poplar.Domain
