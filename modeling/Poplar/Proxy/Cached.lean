import Poplar.Domain.CacheSync
import Poplar.Proxy.Frames
import Poplar.Proxy.Simulation

/-!
# The cache of the daemon

Only answers, requests and the sweep touch the cache; each does to the list of results
what the uses of the linked cache do to the results it queues.
-/
namespace Poplar.Proxy

open Effects Poplar.Domain

/-- The cache is the same before and after. -/
theorem cacheFrame : Frame fun s s' => s'.dnsCache = s.dnsCache where
  refl _ := rfl
  trans first second := second.trans first
  put _ _ := rfl
  aside _ _ same _ _ := same

section Untouched

variable {p : Nat}

theorem cache_store (p : Nat) (f : Peer → Peer) : Still Popd.dnsCache (store p f) := by
  intro s u s' runs
  obtain ⟨peer, found, rfl⟩ := store_finds runs
  rfl

theorem cache_free (p : Nat) : Still Popd.dnsCache (free p) := by
  intro s u s' runs
  obtain ⟨peer, found, rfl⟩ := free_finds runs
  rfl

theorem cache_modify {f : Popd → Popd} (same : ∀ s, (f s).dnsCache = s.dnsCache) :
    Still Popd.dnsCache (modify f : Daemon PUnit) := by
  intro s u s' runs
  rw [runs_modify runs, same]

theorem cache_popPeerNew : Still Popd.dnsCache popPeerNew := by
  intro s p s' runs
  cases runs
  rfl

theorem cache_popHttpProxyServerPeerConnect (sock addr : Nat) (port : Int) :
    Still Popd.dnsCache (popHttpProxyServerPeerConnect sock addr port) :=
  Still.bind cache_popPeerNew fun q => Still.bind (cache_store q _) fun _ =>
    Still.bind (cacheFrame.eventSet _ _ _) fun _ => Still.bind (cache_modify fun _ => rfl) fun _ =>
      cache_store q _

theorem cache_popRemoteServerPeerMake (host : Http.HostPort) :
    Still Popd.dnsCache (popRemoteServerPeerMake host) :=
  Still.bind cache_popPeerNew fun p => Still.bind (cache_store p _) fun _ => Still.pure _

end Untouched

/-- The cache is used any number of times. -/
def Uses (cache cache' : DnsCache) : Prop :=
  ∃ uses : List CacheUse, cache' = uses.foldl (fun cache use => DnsCache.use use cache) cache

theorem Uses.refl (cache : DnsCache) : Uses cache cache := ⟨[], rfl⟩

theorem Uses.single (use : CacheUse) (cache : DnsCache) : Uses cache (DnsCache.use use cache) :=
  ⟨[use], rfl⟩

theorem Uses.trans {cache mid last : DnsCache} (first : Uses cache mid) (second : Uses mid last) :
    Uses cache last := by
  obtain ⟨uses, rfl⟩ := first
  obtain ⟨more, rfl⟩ := second
  exact ⟨uses ++ more, by rw [List.foldl_append]⟩

/-- What a program does to the cache are uses. -/
abbrev Only {α : Type} (x : Daemon α) : Prop :=
  Effect Popd.dnsCache x fun cache _ cache' => Uses cache cache'

section Uses

variable {α : Type} {x : Daemon α} {p : Nat}

theorem Only.of_still (still : Still Popd.dnsCache x) : Only x := still.within Uses.refl

theorem domainParseHost_only (p : Nat) (dropExpired : Bool) :
    Only (domainParseHost p dropExpired) := by
  have looksUp := cacheFrame.routine.popGetHostByNameUnblock p
  refine Still.bind (cacheFrame.routine.load p) fun peer => ?_
  split
  · exact Only.of_still (Still.bind (cacheFrame.popTcpClientEvent p .start) fun _ => Still.pure _)
  · refine Still.bind cacheFrame.routine.ask fun answer => ?_
    intro s ret s' runs
    dsimp only at runs
    obtain ⟨state, s₁, got, rest⟩ := runs_bind runs
    rw [(runs_get got).1, (runs_get got).2] at rest
    have use := Uses.single (.request peer.remoteHostname answer.time dropExpired) s.dnsCache
    simp only [DnsCache.use] at use
    cases found : dnsCacheLookupByHostname s.dnsCache peer.remoteHostname with
    | none =>
      simp only [found] at rest
      exact looksUp _ _ _ rest ▸ Uses.refl _
    | some result =>
      simp only [found, Option.map_some, Option.getD_some] at rest use
      split at rest
      next valid =>
        rw [if_pos valid] at use
        obtain ⟨_, s₂, stored, rest⟩ := runs_bind rest
        obtain ⟨_, s₃, updated, rest⟩ := runs_bind rest
        obtain ⟨_, s₄, started, rest⟩ := runs_bind rest
        rw [(runs_pure rest).2, cacheFrame.popTcpClientEvent _ _ _ _ _ started, runs_modify updated,
          cache_store _ _ _ _ _ stored]
        exact use
      next expired =>
        rw [if_neg expired] at use
        cases dropExpired with
        | true =>
          obtain ⟨_, s₂, dropped, rest⟩ := runs_bind rest
          rw [looksUp _ _ _ rest, runs_modify dropped]
          exact use
        | false => exact looksUp _ _ _ rest ▸ Uses.refl _

end Uses

/-- The answer to a query of the waiting peer `server`, from the server the DNS client is
configured with. -/
structure Popd.Answers (s : Popd) (payload : List UInt8) (fromAddr : Nat) (fromPort : Int)
    (result : DnsQueryResult) (server : Nat) : Prop where
  source : ∃ client, s.peers s.dnsClientPeer = some client ∧ fromAddr = client.remoteAddr ∧
    some fromPort = client.remotePort
  parses : domainNameIpv4Addr (received (payload.take MAX_RECV_PACKET_SIZE))
    (s.answers s.calls).time = .ok (some result)
  waiting : dnsWaitAckQueueLookupByID s.dnsAckWaitQueue result.transactionID = some server

section Lists

variable {cache : DnsCache} {r found : DnsQueryResult}

theorem lookup_extend (present : dnsCacheLookupByHostname cache r.hostName = some found) :
    dnsCacheLookupByHostname (dnsCacheExtend cache r) r.hostName =
      some { found with validityEndTime := r.validityEndTime } := by
  have named : (found.hostName == r.hostName) = true := by
    simpa using List.find?_some present
  have blind : (fun other : DnsQueryResult => other.hostName == r.hostName) ∘ (fun other =>
      if other.hostName == r.hostName then { other with validityEndTime := r.validityEndTime }
      else other) = fun other => other.hostName == r.hostName := by
    funext other
    by_cases same : other.hostName = r.hostName <;> simp [same]
  unfold dnsCacheLookupByHostname dnsCacheExtend at *
  rw [List.find?_map, blind, present, Option.map_some, if_pos named]

theorem lookup_add (absent : dnsCacheLookupByHostname cache r.hostName = none) :
    dnsCacheLookupByHostname (dnsCacheAdd (dnsCacheCheckAndDelete cache) r) r.hostName =
      some r := by
  unfold dnsCacheLookupByHostname dnsCacheAdd at *
  have kept : (dnsCacheCheckAndDelete cache).find? (fun other => other.hostName == r.hostName) =
      none := by
    unfold dnsCacheCheckAndDelete
    split
    · exact List.find?_eq_none.mpr fun other member =>
        List.find?_eq_none.mp absent other (List.mem_of_mem_drop member)
    · exact absent
  simp [List.find?_append, kept]

end Lists

section Answer

variable {s s' : Popd} {payload : List UInt8} {fromAddr : Nat} {fromPort : Int}
variable {result : DnsQueryResult} {server : Nat}

/-- What the handler of an answer ends with. -/
theorem storing_effect (result : DnsQueryResult) :
    Effect Popd.dnsCache (do
      let cache := (← get).dnsCache
      if (dnsCacheLookupByHostname cache result.hostName).isSome then
        modify fun s => { s with dnsCache := dnsCacheExtend s.dnsCache result }
      else
        modify fun s => { s with
          dnsCache := dnsCacheAdd (dnsCacheCheckAndDelete s.dnsCache) result } : Daemon Unit)
      fun cache _ cache' => cache' = DnsCache.use (.answer result) cache := by
  intro s u s' runs
  obtain ⟨state, s₁, got, rest⟩ := runs_bind runs
  rw [(runs_get got).1, (runs_get got).2] at rest
  dsimp only at rest
  simp only [DnsCache.use]
  split at rest
  next present => rw [runs_modify rest, if_pos present]
  next absent => rw [runs_modify rest, if_neg absent]

/-- The cache sees the answer, whatever the start of the connection does. -/
theorem Popd.Answers.cached (answers : s.Answers payload fromAddr fromPort result server)
    (address : result.address ≠ 0) {u : Unit}
    (runs : popUdpRecvDnsQueryAck payload fromAddr fromPort s = .ok (u, s')) :
    s'.dnsCache = DnsCache.use (.answer result) s.dnsCache := by
  obtain ⟨client, dns, sameAddr, samePort⟩ := answers.source
  unfold popUdpRecvDnsQueryAck at runs
  obtain ⟨state, s₁, got, rest⟩ := runs_bind runs
  rw [(runs_get got).2, (runs_get got).1] at rest
  obtain ⟨peer, s₂, loaded, rest⟩ := runs_bind rest
  obtain ⟨found, same⟩ := load_runs loaded
  have isClient : peer = client := Option.some.inj (found.symm.trans dns)
  rw [same, isClient, if_neg (by simp [sameAddr, samePort])] at rest
  obtain ⟨answer, s₃, asked, rest⟩ := runs_bind rest
  obtain ⟨parsed, s₄, read, rest⟩ := runs_bind rest
  cases asked
  rw [answers.parses] at read
  cases read
  dsimp only at rest
  obtain ⟨state, s₅, got, rest⟩ := runs_bind rest
  rw [(runs_get got).2, (runs_get got).1] at rest
  simp only [answers.waiting] at rest
  obtain ⟨_, s₆, noted, rest⟩ := runs_bind rest
  obtain ⟨_, s₇, dropped, rest⟩ := runs_bind rest
  obtain ⟨_, s₈, stored, rest⟩ := runs_bind rest
  rw [if_neg address] at rest
  obtain ⟨_, s₉, placed, rest⟩ := runs_bind rest
  obtain ⟨_, s₁₀, started, rest⟩ := runs_bind rest
  have untouched : s₁₀.dnsCache = s.dnsCache := by
    rw [cacheFrame.popTcpClientEvent _ _ _ _ _ started, cache_store _ _ _ _ _ placed,
      cache_store _ _ _ _ _ stored, cacheFrame.routine.dnsWaitAckQueueDel _ _ _ _ dropped,
      cacheFrame.routine.note _ _ _ _ noted]
  rw [storing_effect result _ _ _ rest, untouched]

/-- After the answer the cache has its address and its end, unless it knew the host under
another address before: such a record only lives longer. -/
theorem Popd.Answers.remembered (answers : s.Answers payload fromAddr fromPort result server)
    (address : result.address ≠ 0) {u : Unit}
    (runs : popUdpRecvDnsQueryAck payload fromAddr fromPort s = .ok (u, s')) :
    (∃ r, dnsCacheLookupByHostname s'.dnsCache result.hostName = some r ∧
        r.address = result.address ∧ r.validityEndTime = result.validityEndTime) ↔
      ∀ r, dnsCacheLookupByHostname s.dnsCache result.hostName = some r →
        r.address = result.address := by
  rw [answers.cached address runs]
  simp only [DnsCache.use]
  cases known : dnsCacheLookupByHostname s.dnsCache result.hostName with
  | some found =>
      rw [Option.isSome_some, if_pos rfl, lookup_extend known]
      constructor
      · rintro ⟨r, updated, same, _⟩ found' eq
        cases updated
        cases eq
        exact same
      · exact fun same => ⟨_, rfl, same found rfl, rfl⟩
  | none =>
      rw [Option.isSome_none, if_neg (by decide), lookup_add known]
      constructor
      · intro _ r eq
        cases eq
      · exact fun _ => ⟨result, rfl, rfl, rfl⟩

/-- Two clients ask for one host before an answer comes; the two answers differ. -/
def overlap (n : Nat) : Answer :=
  if n = 2 ∨ n = 6 then { read := Http.ascii "GET http://a.b/ HTTP/1.1\r\n\r\n" } else {}

/-- The answer for `a.b` to query `id`: 10.0.0.`last`. -/
def hostReply (id ttl last : UInt8) : List UInt8 :=
  [0, id, 0x81, 0x80, 0, 1, 0, 1, 0, 0, 0, 0, 1, 97, 1, 98, 0, 0, 1, 0, 1,
    0xC0, 12, 0, 1, 0, 1, 0, 0, 0, ttl, 0, 4, 10, 0, 0, last]

def overlapEvents : List Dispatch :=
  [.accept [(5, 1, 80), (6, 2, 80)] false, .socket 1 true false false, .socket 2 true false false,
    .datagram (hostReply 0 60 1) DNS_SERVER_ADDRESS 53]

/-- What decides the handling of a payload, and the caches before and after it. -/
structure Probe where
  source : Option (Nat × Option Int)
  parsed : Option (Option DnsQueryResult)
  waiting : Option Nat
  before : DnsCache
  after : Option DnsCache
  deriving DecidableEq

/-- The payload comes from the address the DNS client has by default. -/
def Popd.probe (s : Popd) (payload : List UInt8) : Probe :=
  let parsed := (domainNameIpv4Addr (received (payload.take MAX_RECV_PACKET_SIZE))
    (s.answers s.calls).time).toOption
  { source := (s.peers s.dnsClientPeer).map fun client => (client.remoteAddr, client.remotePort)
    parsed := parsed
    waiting := parsed.join.bind fun result =>
      dnsWaitAckQueueLookupByID s.dnsAckWaitQueue result.transactionID
    before := s.dnsCache
    after := (popUdpRecvDnsQueryAck payload DNS_SERVER_ADDRESS 53 s).toOption.map fun ran =>
      ran.2.dnsCache }

theorem probe_answers {answers : Nat → Answer} {events : List Dispatch} {before after : DnsCache}
    (ran : (replay answers events).map (fun s => s.probe payload) =
      some ⟨some (DNS_SERVER_ADDRESS, some 53), some (some result), some server, before, some after⟩) :
    ∃ s u s', system.Reachable s ∧ s.Answers payload DNS_SERVER_ADDRESS 53 result server ∧
      popUdpRecvDnsQueryAck payload DNS_SERVER_ADDRESS 53 s = .ok (u, s') ∧
      s.dnsCache = before ∧ s'.dnsCache = after := by
  obtain ⟨s, replayed, probed⟩ := Option.map_eq_some_iff.mp ran
  simp only [Popd.probe, Probe.mk.injEq] at probed
  obtain ⟨dns, parsed, waiting, same, handled⟩ := probed
  obtain ⟨client, found, source⟩ := Option.map_eq_some_iff.mp dns
  obtain ⟨⟨u, s'⟩, runs, cached⟩ := Option.map_eq_some_iff.mp handled
  rw [parsed] at waiting
  rw [Prod.mk.injEq] at source
  exact ⟨s, u, s', replay_reachable replayed, ⟨⟨client, found, source.1.symm, source.2.symm⟩,
    toOption_some parsed, waiting⟩, toOption_some runs, same, cached⟩

/-- The result of the answer `hostReply id ttl last` when it arrives at time 0. -/
def hostResult (id ttl last : Nat) : DnsQueryResult :=
  ⟨id, Http.ascii "a.b", 0x0A000000 + last, ttl, ttl⟩

theorem overlap_first_remembered :
    ∃ s u s', system.Reachable s ∧
      popUdpRecvDnsQueryAck (hostReply 0 60 1) DNS_SERVER_ADDRESS 53 s = .ok (u, s') ∧
      ∃ r, dnsCacheLookupByHostname s'.dnsCache (Http.ascii "a.b") = some r ∧
        r.address = 0x0A000001 ∧ r.validityEndTime = 60 := by
  have ran : (replay overlap (overlapEvents.take 3)).map (fun s => s.probe (hostReply 0 60 1)) =
      some ⟨some (DNS_SERVER_ADDRESS, some 53), some (some (hostResult 0 60 1)), some 3, [],
        some [hostResult 0 60 1]⟩ := by decide +kernel
  obtain ⟨s, u, s', reachable, answers, runs, empty, _⟩ := probe_answers ran
  refine ⟨s, u, s', reachable, runs, (answers.remembered (by decide) runs).mpr ?_⟩
  rw [empty]
  intro r known
  cases known

/-- The second answer leaves the address of the first, valid for longer. -/
theorem overlap_second_forgotten :
    ∃ s u s' result server, system.Reachable s ∧
      s.Answers (hostReply 1 70 2) DNS_SERVER_ADDRESS 53 result server ∧ result.address ≠ 0 ∧
      popUdpRecvDnsQueryAck (hostReply 1 70 2) DNS_SERVER_ADDRESS 53 s = .ok (u, s') ∧
      ¬ ∃ r, dnsCacheLookupByHostname s'.dnsCache result.hostName = some r ∧
        r.address = result.address ∧ r.validityEndTime = result.validityEndTime := by
  have ran : (replay overlap overlapEvents).map (fun s => s.probe (hostReply 1 70 2)) =
      some ⟨some (DNS_SERVER_ADDRESS, some 53), some (some (hostResult 1 70 2)), some 4,
        [hostResult 0 60 1], some [{ hostResult 0 60 1 with validityEndTime := 70 }]⟩ := by
    decide +kernel
  obtain ⟨s, u, s', reachable, answers, runs, _, after⟩ := probe_answers ran
  refine ⟨s, u, s', _, _, reachable, answers, by decide, runs, ?_⟩
  rw [after]
  rintro ⟨r, known, address, _⟩
  cases known
  cases address

end Answer

/-! ## Runs -/

theorem popUdpRecvDnsQueryAck_only (payload : List UInt8) (fromAddr : Nat) (fromPort : Int) :
    Only (popUdpRecvDnsQueryAck payload fromAddr fromPort) := by
  refine Still.bind cacheFrame.routine.get fun state => Still.bind (cacheFrame.routine.load _) fun client => ?_
  split
  · exact Only.of_still (Still.pure _)
  · refine Still.bind cacheFrame.routine.ask fun answer => Still.bind (cacheFrame.routine.call _) fun parsed => ?_
    cases parsed with
    | none => exact Only.of_still (Still.pure _)
    | some result =>
        refine Still.bind cacheFrame.routine.get fun state => ?_
        cases dnsWaitAckQueueLookupByID state.dnsAckWaitQueue result.transactionID with
        | none => exact Only.of_still (Still.pure _)
        | some server =>
            refine Still.bind (cacheFrame.routine.note _) fun _ =>
              Still.bind (cacheFrame.routine.dnsWaitAckQueueDel _) fun _ =>
                Still.bind (cache_store _ _) fun _ => ?_
            split
            · exact Only.of_still (Still.pure _)
            · refine Still.bind (cache_store _ _) fun _ =>
                Still.bind (cacheFrame.popTcpClientEvent _ _) fun _ => ?_
              intro s u s' runs
              rw [storing_effect result _ _ _ runs]
              exact Uses.single (.answer result) s.dnsCache

theorem usesFrame : Frame fun s s' => Uses s.dnsCache s'.dnsCache where
  refl s := Uses.refl s.dnsCache
  trans := Uses.trans
  put _ _ := Uses.refl _
  aside _ _ same _ _ := same ▸ Uses.refl _

/-- The cache is used by requests, by answers and by the sweep. -/
theorem usesCourse : Course fun s s' => Uses s.dnsCache s'.dnsCache where
  toRoutine := usesFrame.routine
  lookup := domainParseHost_only
  make host := Only.of_still (cache_popRemoteServerPeerMake host)
  connect sock addr port := Only.of_still (cache_popHttpProxyServerPeerConnect sock addr port)
  delete p := Only.of_still (cacheFrame.popPeerDelete cache_free p)
  expire p := Only.of_still (Still.bind (cache_store p _) fun _ =>
    cacheFrame.routine.popTcpClosePairedPeer p)
  answer := popUdpRecvDnsQueryAck_only
  check := by
    intro s u s' runs
    obtain ⟨answer, m, asked, sweeps⟩ := runs_bind runs
    cases asked
    rw [runs_modify sweeps]
    exact Uses.single (.sweep (s.answers s.calls).time) s.dnsCache

theorem Uses.synced {store : CacheStore} {entries : List CacheEntry} {cache : DnsCache}
    (uses : Uses (records entries) cache) (reachable : cacheSystem.Reachable store)
    (synced : store.Synced entries) :
    ∃ store' entries', cacheSystem.Reachable store' ∧ store'.Synced entries' ∧
      records entries' = cache := by
  obtain ⟨uses, rfl⟩ := uses
  induction uses generalizing store entries with
  | nil => exact ⟨store, entries, reachable, synced, rfl⟩
  | cons op uses ih =>
      obtain ⟨store', entries', ran, synced', same⟩ := synced.use op
      rw [List.foldl_cons, ← same]
      exact ih (reachable.step trivial ran) synced'

/-- The cache of a running daemon is what map and queue of a linked cache hold. -/
theorem reachable_linked {s : Popd} (reachable : system.Reachable s) :
    ∃ store entries, cacheSystem.Reachable store ∧ store.Synced entries ∧
      records entries = s.dnsCache := by
  apply reachable.invariant
  · rintro s ⟨sockfd, answers, rfl⟩
    exact ⟨CacheStore.dnsCacheCreate, [], .start ⟨HASHTABSIZE, by decide, rfl⟩,
      CacheStore.create_synced (by decide), rfl⟩
  · rintro s event s' ⟨store, entries, linked, synced, same⟩ _ ran
    obtain ⟨u, runs⟩ := exec_runs ran
    have uses : Uses s.dnsCache s'.dnsCache := usesCourse.dispatch event s u s' runs
    rw [← same] at uses
    exact uses.synced linked synced

/-- The results that the queue of a linked cache leads to, in its order. -/
def queuedResults (store : CacheStore) : DnsCache := store.queue.datas.filterMap store.results

theorem queuedResults_synced {store : CacheStore} {entries : List CacheEntry}
    (synced : store.Synced entries) : queuedResults store = records entries := by
  rw [queuedResults, synced.datas, List.filterMap_map, records]
  rw [← List.filterMap_eq_map]
  exact List.filterMap_congr fun e member => synced.live e member

/-- In every run a map and a queue on the heap can stand for the cache of the daemon: no use of
them touches memory that is not there, and each leaves what it leaves of the list. -/
theorem daemon_cache_linked {s : Popd} (reachable : system.Reachable s) :
    ∃ store, cacheSystem.Reachable store ∧ queuedResults store = s.dnsCache ∧
      ∀ op, ∃ store', store.use op = .ok store' ∧
        queuedResults store' = DnsCache.use op s.dnsCache := by
  obtain ⟨store, entries, linked, synced, same⟩ := reachable_linked reachable
  refine ⟨store, linked, (queuedResults_synced synced).trans same, fun op => ?_⟩
  obtain ⟨store', entries', ran, synced', used⟩ := synced.use op
  refine ⟨store', ran, ?_⟩
  rw [queuedResults_synced synced', used, same]

/-- The cache holds the first answer of `overlapEvents`. -/
theorem daemon_cache_linked_sample : ∃ s store, system.Reachable s ∧ cacheSystem.Reachable store ∧
    s.dnsCache = [hostResult 0 60 1] ∧ queuedResults store = s.dnsCache := by
  have runs : (replay overlap overlapEvents).map (fun s => s.dnsCache) =
      some [hostResult 0 60 1] := by decide +kernel
  obtain ⟨s, ran, holds⟩ := Option.map_eq_some_iff.mp runs
  have reachable := replay_reachable ran
  obtain ⟨store, linked, same, _⟩ := daemon_cache_linked reachable
  exact ⟨s, store, reachable, linked, holds, same⟩

end Poplar.Proxy
