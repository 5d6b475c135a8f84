import Poplar.Common.Hash
import Poplar.Common.List
import Poplar.Domain.Cache
import Poplar.Lib.Runs

/-!
# Map and queue of the cache: apps/pop_domain_cache.c

The map is keyed by host name and updated by value, the queue by pointer. Both hold the
addresses of results, which live in a memory of their own.
-/
namespace Poplar.Domain

/-- A `char`, which is signed, converted to `unsigned int`. -/
def charWord (c : UInt8) : Nat := if c.toNat < 2 ^ 7 then c.toNat else c.toNat + (2 ^ 32 - 2 ^ 8)

def BKDRHash (str : List UInt8) : Nat :=
  str.foldl (fun hash c => (hash * 131 + charWord c) % 2 ^ 32) 0 &&& 0x7FFFFFFF

/-- The members `Map` and `Queue`, and the results allocated. -/
structure CacheStore where
  map : Hash Nat
  queue : LinkedList Nat
  results : Nat → Option DnsQueryResult
  brk : Nat

namespace CacheStore

/-- `DnsCacheMapGetKey` and `DnsCacheMapCmp` -/
def mapFuncs (cache : CacheStore) : HashFuncs Nat (List UInt8) where
  deref p := ((cache.results p).map fun r => r.hostName).getD []
  hashKey := BKDRHash
  hashCmp name1 name2 := name1 == name2

/-- `p->…` of a result -/
def load (cache : CacheStore) (p : Nat) : Except Fault DnsQueryResult :=
  match cache.results p with
  | some r => .ok r
  | none => .error .useAfterFree

/-- The result `DomainNameIpv4Addr` answers, in memory. -/
def dnsQueryResultNew (cache : CacheStore) (r : DnsQueryResult) : Nat × CacheStore :=
  (cache.brk, { cache with
    results := Function.update cache.results cache.brk (some r), brk := cache.brk + 1 })

def dnsQueryResultFree (cache : CacheStore) (p : Nat) : Except Fault CacheStore := do
  let _ ← cache.load p
  return { cache with results := Function.update cache.results p none }

def dnsCacheMapAdd (cache : CacheStore) (p : Nat) : Except Fault CacheStore := do
  let r ← cache.load p
  return { cache with map := (hashGet cache.mapFuncs cache.map r.hostName (some p)).2 }

def dnsCacheMapDel (cache : CacheStore) (p : Nat) : Except Fault CacheStore := do
  let r ← cache.load p
  return { cache with map := (hashRelease cache.mapFuncs cache.map r.hostName).2 }

/-- The loop of `DnsCacheMapLookupByHostname`, which looks at no key. -/
def lookupFrom (cache : CacheStore) (hostname : List UInt8) :
    List (HashBacket Nat) → Except Fault (Option Nat)
  | [] => .ok none
  | backet :: rest => do
    let r ← cache.load backet.data
    if r.hostName = hostname then return some backet.data
    else lookupFrom cache hostname rest

def dnsCacheMapLookupByHostname (cache : CacheStore) (hostname : List UInt8) :
    Except Fault (Option Nat) :=
  let key := BKDRHash hostname
  let index := key % cache.map.size
  lookupFrom cache hostname (cache.map.index index)

def dnsCacheQueueAdd (cache : CacheStore) (p : Nat) : Except Fault CacheStore := do
  let queue ← listnodeAdd cache.queue p
  return { cache with queue := queue }

def dnsCacheQueueDel (cache : CacheStore) (p : Nat) : Except Fault CacheStore := do
  let queue ← listnodeDelete cache.queue p
  return { cache with queue := queue }

def dnsCacheCreateSize (size : Nat) : CacheStore :=
  { map := hashCreateSize Nat size, queue := listNew Nat, results := fun _ => none, brk := 0 }

def dnsCacheCreate : CacheStore := dnsCacheCreateSize HASHTABSIZE

def dnsCacheAdd (cache : CacheStore) (p : Nat) : Except Fault CacheStore := do
  let cache ← dnsCacheMapAdd cache p
  dnsCacheQueueAdd cache p

def dnsCacheDel (cache : CacheStore) (p : Nat) : Except Fault CacheStore := do
  let cache ← dnsCacheMapDel cache p
  let cache ← dnsCacheQueueDel cache p
  dnsQueryResultFree cache p

def dnsCacheFreshnessUpdate (cache : CacheStore) (p : Nat) : Except Fault CacheStore := do
  match cache.queue.tail with
  | none => .error .outOfObject
  | some tail =>
    if (← listGetData cache.queue.nodes tail) = p then return cache
    let cache ← dnsCacheQueueDel cache p
    dnsCacheQueueAdd cache p

/-- `del` is called on the data of the queue in turn. -/
def freeAll (cache : CacheStore) : List Nat → Except Fault CacheStore
  | [] => .ok cache
  | p :: ps => do
    let cache ← dnsQueryResultFree cache p
    freeAll cache ps

def dnsCacheClean (cache : CacheStore) : Except Fault CacheStore := do
  let cache := { cache with map := hashClean cache.map }
  let (datas, queue) ← listDeleteAllNode cache.queue
  freeAll { cache with queue := queue } datas

def dnsCacheLookupByHostname (cache : CacheStore) (hostname : List UInt8) :
    Except Fault (Option Nat) :=
  dnsCacheMapLookupByHostname cache hostname

def dnsCacheRecordCounts (cache : CacheStore) : Nat := cache.queue.count

def dnsCacheRecordCountsCheck (cache : CacheStore) : Bool :=
  dnsCacheRecordCounts cache > DNS_CACHE_RECORD_COUNTS_MAX

/-- The body of the loop of `DnsCacheCheckAndDelete`; the second component is `count`. -/
def evict (limit : Nat) (p : Nat) : CacheStore × Nat → Except Fault (Option (CacheStore × Nat))
  | (cache, count) => do
    if limit ≤ count then return none
    let cache ← dnsCacheDel cache p
    return some (cache, count + 1)

def dnsCacheCheckAndDelete (cache : CacheStore) : Except Fault CacheStore := do
  let limit := DNS_CACHE_RECORD_COUNTS_MAX / 3
  if dnsCacheRecordCountsCheck cache then
    let (cache, _) ← allListElements (fun s => s.1.queue) (evict limit) cache.queue.brk
      cache.queue.head (cache, 0)
    return cache
  else return cache

/-- The body of the loop of `DnsCacheValidityCheckTimeout` -/
def expire (currentTime : Nat) (p : Nat) (cache : CacheStore) :
    Except Fault (Option CacheStore) := do
  let r ← cache.load p
  if r.validityEndTime ≤ currentTime then return some (← dnsCacheDel cache p)
  else return some cache

def dnsCacheValidityCheckTimeout (cache : CacheStore) (currentTime : Nat) :
    Except Fault CacheStore :=
  allListElements CacheStore.queue (expire currentTime) cache.queue.brk cache.queue.head cache

/-- What `pop_udp_recv_dns_query_ack` does with an answer that has an address. -/
def storeAnswer (cache : CacheStore) (r : DnsQueryResult) : Except Fault CacheStore := do
  let (dnsResult, cache) := dnsQueryResultNew cache r
  match ← dnsCacheLookupByHostname cache r.hostName with
  | some tmp =>
    let old ← cache.load tmp
    let updated := { old with validityEndTime := r.validityEndTime }
    let cache := { cache with results := Function.update cache.results tmp (some updated) }
    dnsQueryResultFree cache dnsResult
  | none =>
    let cache ← dnsCacheCheckAndDelete cache
    dnsCacheAdd cache dnsResult

/-- What the request paths do for a host that is no address; only GET drops an expired
result. -/
def serveRequest (cache : CacheStore) (hostname : List UInt8) (currentTime : Nat)
    (dropExpired : Bool) : Except Fault CacheStore := do
  match ← dnsCacheLookupByHostname cache hostname with
  | some p =>
    let r ← cache.load p
    if currentTime ≤ r.validityEndTime then dnsCacheFreshnessUpdate cache p
    else if dropExpired then dnsCacheDel cache p
    else return cache
  | none => return cache

end CacheStore

/-- The ways the daemon uses its cache. -/
inductive CacheUse where
  | answer (r : DnsQueryResult)
  | request (hostname : List UInt8) (currentTime : Nat) (dropExpired : Bool)
  | sweep (currentTime : Nat)
  | clean
  deriving DecidableEq, Repr

def CacheStore.use : CacheUse → CacheStore → Except Fault CacheStore
  | .answer r, cache => cache.storeAnswer r
  | .request hostname currentTime dropExpired, cache =>
    cache.serveRequest hostname currentTime dropExpired
  | .sweep currentTime, cache => cache.dnsCacheValidityCheckTimeout currentTime
  | .clean, cache => cache.dnsCacheClean

/-- A cache of any size, `% 0` being undefined, under any order of uses. -/
def cacheSystem : Runs.System CacheStore CacheUse Fault where
  start cache := ∃ size, 0 < size ∧ cache = CacheStore.dnsCacheCreateSize size
  guard _ _ := True
  exec := CacheStore.use

/-- The same uses of a list of results. -/
def DnsCache.use : CacheUse → DnsCache → DnsCache
  | .answer r, cache =>
    if (dnsCacheLookupByHostname cache r.hostName).isSome then dnsCacheExtend cache r
    else dnsCacheAdd (dnsCacheCheckAndDelete cache) r
  | .request hostname currentTime dropExpired, cache =>
    ((dnsCacheLookupByHostname cache hostname).map fun r =>
      if currentTime ≤ r.validityEndTime then dnsCacheFreshnessUpdate cache r
      else if dropExpired then dnsCacheDel cache r
      else cache).getD cache
  | .sweep currentTime, cache => dnsCacheValidityCheck cache currentTime
  | .clean, _ => []

end Poplar.Domain
