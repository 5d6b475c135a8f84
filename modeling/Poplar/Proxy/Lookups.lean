import Poplar.Common.Maps
import Poplar.Domain.CacheSync
import Poplar.Proxy.Peer

/-!
# The two tables that are also searched by hand

`DnsWaitAckQueueLookupByID` compares keys only, `DnsCacheMapLookupByHostname` host names only.
In a table whose data sit under their keys both find what `hash_lookup` finds.
-/
namespace Poplar

open Domain Proxy

theorem hashLookup_eq_find {α β : Type} (F : HashFuncs α β) (hash : Hash α) (content : β) :
    hashLookup F hash content =
      ((hash.index (F.hashKey content % hash.size)).find? (F.hit content)).map HashBacket.data := by
  unfold hashLookup hashGet
  dsimp only
  cases (hash.index (F.hashKey content % hash.size)).find? (F.hit content) <;> rfl

/-- A key is the identifier, so equal keys are equal identifiers. -/
theorem dnsWaitAckQueueLookupByID_eq {daemon : Popd}
    (keyed : daemon.dnsAckWaitQueue.Keyed daemon.waitFuncs) (id : Nat) :
    dnsWaitAckQueueLookupByID daemon.dnsAckWaitQueue id =
      hashLookup daemon.waitFuncs daemon.dnsAckWaitQueue id := by
  rw [hashLookup_eq_find, dnsWaitAckQueueLookupByID]
  apply congrArg (Option.map HashBacket.data)
  apply List.find?_congr
  intro backet member
  have key : backet.key = daemon.waitFuncs.deref backet.data := keyed.key _ backet member
  change (backet.key == id) = (backet.key == id && daemon.waitFuncs.deref backet.data == id)
  rw [← key, Bool.and_self]

/-- The loop reads the host names of live results only. -/
theorem lookupFrom_eq_find (cache : CacheStore) (hostname : List UInt8)
    {backets : List (HashBacket Nat)}
    (live : ∀ backet ∈ backets, ∃ r, cache.results backet.data = some r) :
    cache.lookupFrom hostname backets = .ok ((backets.find? fun backet =>
      cache.mapFuncs.deref backet.data == hostname).map HashBacket.data) := by
  induction backets with
  | nil => rfl
  | cons backet backets ih =>
      obtain ⟨r, here⟩ := live backet (by simp)
      have later := ih fun b member => live b (List.mem_cons_of_mem backet member)
      rw [CacheStore.lookupFrom, CacheStore.load_ok here, ok_bind, List.find?_cons,
        CacheStore.mapFuncs_deref here]
      by_cases same : r.hostName = hostname
      · rw [if_pos same, beq_iff_eq.mpr same]
        rfl
      · rw [if_neg same, beq_eq_false_iff_ne.mpr same, later]

/-- Equal host names have one key, so nothing is lost by not comparing keys. -/
theorem dnsCacheMapLookupByHostname_eq {cache : CacheStore}
    (keyed : cache.map.Keyed cache.mapFuncs)
    (live : ∀ p ∈ cache.map.datas, ∃ r, cache.results p = some r) (hostname : List UInt8) :
    cache.dnsCacheMapLookupByHostname hostname =
      .ok (hashLookup cache.mapFuncs cache.map hostname) := by
  have bound : BKDRHash hostname % cache.map.size < cache.map.size := Nat.mod_lt _ keyed.sized
  rw [CacheStore.dnsCacheMapLookupByHostname, hashLookup_eq_find,
    lookupFrom_eq_find cache hostname fun backet member =>
      live backet.data (Hash.mem_datas_of_index bound member)]
  apply congrArg fun found => Except.ok (Option.map HashBacket.data found)
  apply List.find?_congr
  intro backet member
  have key : backet.key = BKDRHash (cache.mapFuncs.deref backet.data) := keyed.key _ backet member
  change (cache.mapFuncs.deref backet.data == hostname) =
    (backet.key == BKDRHash hostname && cache.mapFuncs.deref backet.data == hostname)
  by_cases same : cache.mapFuncs.deref backet.data = hostname
  · rw [key, same, beq_self_eq_true, beq_self_eq_true, Bool.and_self]
  · rw [beq_eq_false_iff_ne.mpr same, Bool.and_false]

/-- A table that interns data is a finite map, whatever is done to it, and the two searches by
hand answer what the map does. -/
theorem hash_is_map :
    (∀ (α β : Type) (F : HashFuncs α β) (size : Nat) (ops : List (HashOp α β)),
      F.Lawful → 0 < size → Reps.AdmitsAll ⟨F, []⟩ ops →
        (Table.run ⟨F, hashCreateSize α size⟩ ops).1 = (Reps.applyAll ⟨F, []⟩ ops).1 ∧
        (Table.run ⟨F, hashCreateSize α size⟩ ops).2.Represents (Reps.applyAll ⟨F, []⟩ ops).2 ∧
        (Table.run ⟨F, hashCreateSize α size⟩ ops).2.hash.size = size) ∧
    (∀ (daemon : Popd) (s : Reps Nat Nat),
      Table.Represents ⟨daemon.waitFuncs, daemon.dnsAckWaitQueue⟩ s → ∀ id,
        dnsWaitAckQueueLookupByID daemon.dnsAckWaitQueue id =
          hashLookup daemon.waitFuncs daemon.dnsAckWaitQueue id) ∧
    (∀ (cache : CacheStore) (s : Reps Nat (List UInt8)),
      Table.Represents ⟨cache.mapFuncs, cache.map⟩ s →
      (∀ p ∈ cache.map.datas, ∃ r, cache.results p = some r) → ∀ hostname,
        cache.dnsCacheMapLookupByHostname hostname =
          .ok (hashLookup cache.mapFuncs cache.map hostname)) := by
  refine ⟨?_, ?_, ?_⟩
  · intro α β F size ops lawful sized admits
    have created := hashCreateSize_represents F sized
    obtain ⟨answers, repr⟩ := created.run lawful ops admits
    exact ⟨answers, repr, Table.run_size _ ops⟩
  · intro daemon s repr id
    have keyed := repr.keyed
    rw [← repr.funcs] at keyed
    exact dnsWaitAckQueueLookupByID_eq keyed id
  · intro cache s repr live hostname
    have keyed := repr.keyed
    rw [← repr.funcs] at keyed
    exact dnsCacheMapLookupByHostname_eq keyed live hostname

/-- Tens for keys: 35 meets the representative 31, whose class 30 takes out. -/
theorem hash_is_map_tens :
    (Table.run ⟨⟨fun p => p / 10, id, fun a b => a == b⟩, hashCreateSize Nat 2⟩
        [.get 31, .get 35, .get 52, .lookup 39, .release 30, .write fun p => p / 10 % 7,
          .lookup 35, .lookup 50]).1 =
      [some 31, some 31, some 52, some 31, some 31, none, none, some 52] := by
  have lawful : HashFuncs.Lawful (⟨fun p : Nat => p / 10, id, fun a b => a == b⟩ :
      HashFuncs Nat Nat) := by
    constructor
    · constructor
      · intro a
        exact beq_self_eq_true a
      · intro a b same
        exact beq_iff_eq.mpr (beq_iff_eq.mp same).symm
      · intro a b c first second
        exact beq_iff_eq.mpr ((beq_iff_eq.mp first).trans (beq_iff_eq.mp second))
    · intro a b same
      exact beq_iff_eq.mp same
  have steady : Reps.Steady (⟨⟨fun p : Nat => p / 10, id, fun a b => a == b⟩, [52]⟩ :
      Reps Nat Nat) fun p => p / 10 % 7 := by
    constructor
    · decide
    · decide
  have admits : Reps.AdmitsAll (⟨⟨fun p : Nat => p / 10, id, fun a b => a == b⟩, []⟩ :
      Reps Nat Nat) [.get 31, .get 35, .get 52, .lookup 39, .release 30,
        .write fun p => p / 10 % 7, .lookup 35, .lookup 50] :=
    ⟨trivial, trivial, trivial, trivial, trivial, steady, trivial, trivial, trivial⟩
  obtain ⟨answers, _⟩ := hash_is_map.1 Nat Nat _ 2 _ lawful (by decide) admits
  exact answers.trans (by decide)

end Poplar
