import Poplar.Domain.Answers
import Poplar.Proxy.Cached

/-!
# How long a cached address is used

The end of a record is its time of receipt plus its TTL, in 32 bits. The paths of
requests use it up to that second, the sweep takes it out in that second already.
-/
namespace Poplar.Domain

/-! ## The end of a record -/

theorem byte_lt (s : Stream) (i : Nat) : s.byte i < 2 ^ 8 := (s.data.getD i 0).toNat_lt

theorem streamGetl_lt {s s' : Stream} {w : Nat} (got : streamGetl s = .ok (w, s')) : w < 2 ^ 32 := by
  unfold streamGetl at got
  split at got
  next => cases got
  next =>
    cases got
    have first := byte_lt s s.getp
    have second := byte_lt s (s.getp + 1)
    have third := byte_lt s (s.getp + 2)
    have fourth := byte_lt s (s.getp + 3)
    omega

theorem domainNameAnswerParse_timeLive {s s' : Stream} {answer : DomainNameAnswer}
    (parsed : domainNameAnswerParse s = .ok (some answer, s')) : answer.timeLive < 2 ^ 32 := by
  unfold domainNameAnswerParse at parsed
  obtain ⟨⟨name, s₁⟩, _, parsed⟩ := bind_eq_ok parsed
  dsimp only at parsed
  by_cases illegal : name = .illegal
  · rw [if_pos illegal] at parsed
    cases parsed
  · rw [if_neg illegal] at parsed
    obtain ⟨⟨type, s₂⟩, _, parsed⟩ := bind_eq_ok parsed
    obtain ⟨⟨class', s₃⟩, _, parsed⟩ := bind_eq_ok parsed
    obtain ⟨⟨timeLive, s₄⟩, got, parsed⟩ := bind_eq_ok parsed
    obtain ⟨⟨datalen, s₅⟩, _, parsed⟩ := bind_eq_ok parsed
    have small := streamGetl_lt got
    dsimp only at parsed
    split at parsed
    next =>
      obtain ⟨⟨addr, s₆⟩, _, parsed⟩ := bind_eq_ok parsed
      cases parsed
      exact small
    next =>
      obtain ⟨s₆, _, parsed⟩ := bind_eq_ok parsed
      cases parsed
      exact small

theorem firstAnswerA_timeLive {n : Nat} {s : Stream} {answer : DomainNameAnswer}
    (found : firstAnswerA n s = .ok (some answer)) : answer.timeLive < 2 ^ 32 := by
  induction n generalizing s with
  | zero => cases found
  | succ n ih =>
      unfold firstAnswerA at found
      obtain ⟨⟨parsed, s'⟩, ran, found⟩ := bind_eq_ok found
      cases parsed with
      | none => cases found
      | some first =>
          dsimp only at found
          split at found
          next =>
            cases found
            exact domainNameAnswerParse_timeLive ran
          next => exact ih found

/-- A result with an address ends when its TTL has passed, in 32 bits. -/
theorem validityEndTime_eq {s : Stream} {now : Nat} {result : DnsQueryResult}
    (parses : domainNameIpv4Addr s now = .ok (some result)) (address : result.address ≠ 0) :
    result.timeLive < 2 ^ 32 ∧ result.validityEndTime = (now + result.timeLive) % 2 ^ 32 := by
  rw [domainNameIpv4Addr_parsed] at parses
  obtain ⟨parsed, _, parses⟩ := bind_eq_ok parses
  cases parsed with
  | none => cases parses
  | some question =>
      obtain ⟨header, question, s'⟩ := question
      simp only [behindQuestion, answersRead] at parses
      by_cases empty : header.answerRRS = 0
      · rw [if_pos empty] at parses
        cases parses
        exact absurd rfl address
      · rw [if_neg empty] at parses
        cases read : firstAnswerA header.answerRRS s' with
        | error fault =>
            rw [read] at parses
            cases parses
        | ok answer =>
            rw [read] at parses
            cases parses
            cases answer with
            | none => exact absurd rfl address
            | some answer => exact ⟨firstAnswerA_timeLive read, rfl⟩

end Poplar.Domain

namespace Poplar.Proxy

open Effects Poplar.Domain

/-! ## The start of a connection -/

/-- The peer is there and has no event yet. -/
def Popd.Unwatched (p : Nat) (s : Popd) : Prop := ∃ peer, s.peers p = some peer ∧ peer.tEvent = none

def Popd.Live (p : Nat) (s : Popd) : Prop := ∃ peer, s.peers p = some peer

section Start

variable {p : Nat}

theorem store_unwatched {f : Peer → Peer} (same : ∀ peer, (f peer).tEvent = peer.tEvent) :
    Returns (Popd.Unwatched p) (store p f) fun _ => Popd.Unwatched p := by
  rintro s ⟨peer, found, none_⟩
  refine ⟨(), _, store_found found f, f peer, put_self _ _, ?_⟩
  rw [same, none_]

theorem store_live (f : Peer → Peer) : Returns (Popd.Live p) (store p f) fun _ => Popd.Live p := by
  rintro s ⟨peer, found⟩
  exact ⟨(), _, store_found found f, f peer, put_self _ _⟩

theorem ask_unwatched : Returns (Popd.Unwatched p) ask fun _ => Popd.Unwatched p := by
  rintro s unwatched
  exact ⟨_, _, rfl, unwatched⟩

theorem note_unwatched (call : Popd → Call) :
    Returns (Popd.Unwatched p) (note call) fun _ => Popd.Unwatched p := by
  rintro s unwatched
  exact ⟨(), _, rfl, unwatched⟩

theorem eventSet_unwatched (func : EventFunc) (write : Bool) :
    Returns (Popd.Unwatched p) (eventSet p func write) fun _ => Popd.Live p := by
  rintro s ⟨peer, found, none_⟩
  have loaded := load_found found
  unfold eventSet
  rw [bind_runs loaded]
  simp only [none_]
  rw [bind_runs (rfl : ask s = .ok (s.answers s.calls, { s with calls := s.calls + 1 }))]
  split
  · exact store_live _ { s with calls := s.calls + 1 } ⟨peer, found⟩
  · exact ⟨(), _, rfl, peer, found⟩

theorem popTcpClientConnect_returns :
    Returns (Popd.Unwatched p) (popTcpClientConnect p) fun _ => Popd.Unwatched p := by
  have closes : Returns (Popd.Unwatched p) (closeSockfd p) fun _ => Popd.Unwatched p := by
    apply store_unwatched
    intro peer
    split <;> rfl
  apply closes.bind
  intro _
  apply ask_unwatched.bind
  intro answer
  cases answer.socket with
  | none =>
      apply Returns.bind
      · apply store_unwatched
        intro peer
        rfl
      · intro _
        exact Returns.pure fun _ unwatched => unwatched
  | some fd =>
      apply Returns.bind
      · apply store_unwatched
        intro peer
        rfl
      intro _
      exact ask_unwatched.bind fun _ => Returns.pure fun _ unwatched => unwatched

theorem popTcpClientStart_returns :
    Returns (Popd.Unwatched p) (popTcpClientStart p) fun _ => Popd.Live p := by
  have armed : Returns (Popd.Unwatched p) (do
      eventSet p .tcpClientConnectCheck true
      store p fun peer => { peer with tConnectingTimer := true }
      return (0 : Int)) fun _ => Popd.Live p :=
    (eventSet_unwatched _ _).bind fun _ => (store_live _).bind fun _ => Returns.pure fun _ live => live
  have closes : Returns (Popd.Unwatched p) (closeSockfd p) fun _ => Popd.Unwatched p := by
    apply store_unwatched
    intro peer
    split <;> rfl
  apply popTcpClientConnect_returns.bind
  intro result
  cases result with
  | error =>
      have added : Returns (Popd.Unwatched p) (popTcpClientEventAdd p .connectionError)
          fun _ => Popd.Unwatched p := by
        apply store_unwatched
        intro peer
        rfl
      refine closes.bind fun _ => (note_unwatched _).bind fun _ => added.bind fun _ =>
        (note_unwatched _).bind fun _ => Returns.pure ?_
      rintro s ⟨peer, found, _⟩
      exact ⟨peer, found⟩
  | success => exact armed
  | inProgress => exact armed

theorem popTcpClientEvent_start_returns {s : Popd} {peer : Peer} (found : s.peers p = some peer)
    (idle : peer.tcpClientStatus = .idle) (unwatched : peer.tEvent = none) :
    ∃ s', popTcpClientEvent p .start s = .ok ((), s') := by
  have loaded := load_found found
  obtain ⟨ret, m, ran, live⟩ := popTcpClientStart_returns s ⟨peer, found, unwatched⟩
  unfold popTcpClientEvent
  rw [bind_runs loaded, idle]
  dsimp only [popTcpClientFsm]
  rw [bind_runs ran]
  split
  · obtain ⟨_, s', stored, _⟩ := store_live (fun peer => { peer with tcpClientStatus := .connect }) m live
    exact ⟨s', stored⟩
  · exact ⟨m, rfl⟩

end Start

/-! ## The hit and the sweep -/

def Popd.hostipOf (s : Popd) (p : Nat) : Option Nat := (s.peers p).map Peer.remoteHostip

theorem hostipFrame (p : Nat) : Frame fun s s' => s'.hostipOf p = s.hostipOf p where
  refl _ := rfl
  trans first second := second.trans first
  put := by
    intro s q peer peer' found same
    unfold Popd.hostipOf
    by_cases here : p = q
    · subst here
      rw [put_self, found, Option.map_some, Option.map_some]
      exact congrArg (fun i => some i.remoteHostip) same
    · rw [put_of_ne _ here]
  aside same _ _ _ _ := by
    unfold Popd.hostipOf
    rw [same]

/-- `p` is the new server-side peer of a request for this host, which is no address. -/
def Popd.Asks (s : Popd) (p : Nat) (hostname : List UInt8) : Prop :=
  ∃ peer, s.peers p = some peer ∧ peer.remoteHostname = hostname ∧ peer.remoteHostip = 0 ∧
    peer.tcpClientStatus = .idle ∧ peer.tEvent = none

/-- The path of the request takes this address from the cache. -/
def Popd.Hits (s : Popd) (p : Nat) (dropExpired : Bool) (address : Nat) : Prop :=
  ∃ ret s', domainParseHost p dropExpired s = .ok (ret, s') ∧ s'.hostipOf p = some address

/-- The sweep takes this record out of the cache. -/
def Popd.Sweeps (s : Popd) (r : DnsQueryResult) : Prop :=
  ∃ u s', dispatch .cacheCheck s = .ok (u, s') ∧ r ∉ s'.dnsCache

section Tests

variable {s : Popd} {p : Nat} {hostname : List UInt8} {r : DnsQueryResult}

theorem popGetHostByNameUnblock_not_hits {ret : Int} {s' : Popd} {address : Nat}
    (before : s.hostipOf p = some 0) (some_ : address ≠ 0)
    (runs : popGetHostByNameUnblock p s = .ok (ret, s')) : s'.hostipOf p ≠ some address := by
  rw [(hostipFrame p).routine.popGetHostByNameUnblock p _ _ _ runs, before]
  intro same
  exact some_ (Option.some.inj same).symm

/-- The test of both paths of requests. -/
theorem hits_iff (asks : s.Asks p hostname)
    (cached : dnsCacheLookupByHostname s.dnsCache hostname = some r) (address : r.address ≠ 0)
    (dropExpired : Bool) :
    s.Hits p dropExpired r.address ↔ (s.answers s.calls).time ≤ r.validityEndTime := by
  obtain ⟨peer, found, rfl, none_, idle, unwatched⟩ := asks
  set asked : Popd := { s with calls := s.calls + 1 } with asked_eq
  have loaded := load_found found
  have path : domainParseHost p dropExpired s =
      (if (s.answers s.calls).time ≤ r.validityEndTime then do
        store p fun peer => { peer with remoteHostip := r.address, remoteAddr := r.address }
        modify fun s => { s with dnsCache := dnsCacheFreshnessUpdate s.dnsCache r }
        popTcpClientEvent p .start
        return 0
      else do
        if dropExpired then modify fun s => { s with dnsCache := dnsCacheDel s.dnsCache r }
        popGetHostByNameUnblock p : Daemon Int) asked := by
    unfold domainParseHost
    rw [bind_runs loaded, if_neg (not_not.mpr none_)]
    dsimp only
    rw [bind_runs (rfl : ask s = .ok (s.answers s.calls, asked)),
      bind_runs (rfl : (get : Daemon Popd) asked = .ok (asked, asked))]
    rw [show asked.dnsCache = s.dnsCache from rfl, cached]
  unfold Popd.Hits
  rw [path]
  by_cases valid : (s.answers s.calls).time ≤ r.validityEndTime
  · rw [if_pos valid]
    apply iff_of_true _ valid
    have there : asked.peers p = some peer := found
    set placed : Peer := { peer with remoteHostip := r.address, remoteAddr := r.address }
    set mid := asked.put p (some placed) (asked.inside there) with mid_eq
    set moved : Popd := { mid with dnsCache := dnsCacheFreshnessUpdate mid.dnsCache r }
    have placed_at : moved.peers p = some placed := put_self _ (asked.inside there)
    obtain ⟨s', started⟩ := popTcpClientEvent_start_returns placed_at idle unwatched
    refine ⟨0, s', ?_, ?_⟩
    · have updated : (modify fun s => { s with dnsCache := dnsCacheFreshnessUpdate s.dnsCache r } :
          Daemon Unit) mid = .ok ((), moved) := rfl
      rw [bind_runs (store_found there _), bind_runs updated, bind_runs started]
      rfl
    · rw [(hostipFrame p).popTcpClientEvent p .start _ _ _ started, Popd.hostipOf, placed_at]
      rfl
  · rw [if_neg valid]
    apply iff_of_false _ valid
    have before : asked.hostipOf p = some 0 := by
      rw [Popd.hostipOf, show asked.peers p = some peer from found, Option.map_some, none_]
    rintro ⟨ret, s', runs, hit⟩
    cases dropExpired with
    | true =>
        obtain ⟨_, m, dropped, rest⟩ := runs_bind runs
        rw [runs_modify dropped] at rest
        exact popGetHostByNameUnblock_not_hits (by exact before) address rest hit
    | false => exact popGetHostByNameUnblock_not_hits before address runs hit

theorem sweeps_iff (cached : dnsCacheLookupByHostname s.dnsCache hostname = some r) :
    s.Sweeps r ↔ r.validityEndTime ≤ (s.answers s.calls).time := by
  have member := List.mem_of_find?_eq_some cached
  have swept : ∀ {u : Unit} {s' : Popd}, dispatch .cacheCheck s = .ok (u, s') →
      s'.dnsCache = dnsCacheValidityCheck s.dnsCache (s.answers s.calls).time := by
    rintro u s' ⟨⟩
    rfl
  constructor
  · rintro ⟨u, s', runs, gone⟩
    rw [swept runs, dnsCacheValidityCheck, List.mem_filter, decide_eq_true_eq, not_and, not_lt] at gone
    exact gone member
  · intro past
    refine ⟨_, _, rfl, ?_⟩
    rw [swept rfl, dnsCacheValidityCheck, List.mem_filter, decide_eq_true_eq, not_and, not_lt]
    exact fun _ => past

/-- The record of a host as the answer received at `t` left it: the sweep and the paths of
requests agree about it at `u`, and on the end without wrap-around, exactly when that end
fits 32 bits and `u` is not the end itself. -/
theorem validity_iff {payload : List UInt8} {t u : Nat} {result : DnsQueryResult}
    (parses : domainNameIpv4Addr (received payload) t = .ok (some result))
    (has : result.address ≠ 0) (asks : s.Asks p result.hostName)
    (cached : dnsCacheLookupByHostname s.dnsCache result.hostName = some r)
    (address : r.address ≠ 0) (ends : r.validityEndTime = result.validityEndTime) (later : t ≤ u)
    (clock : u < 2 ^ 32) (now : (s.answers s.calls).time = u) (dropExpired : Bool) :
    ((s.Hits p dropExpired r.address ↔ ¬ s.Sweeps r) ∧
        (s.Hits p dropExpired r.address ↔ u ≤ t + result.timeLive)) ↔
      t + result.timeLive < 2 ^ 32 ∧ u ≠ t + result.timeLive := by
  obtain ⟨small, same⟩ := validityEndTime_eq parses has
  rw [hits_iff asks cached address, sweeps_iff cached, now, ends, same]
  by_cases fits : t + result.timeLive < 2 ^ 32
  · rw [Nat.mod_eq_of_lt fits]
    omega
  · -- the end has wrapped to a time before the answer came
    have wrapped : (t + result.timeLive) % 2 ^ 32 = t + result.timeLive - 2 ^ 32 := by omega
    rw [wrapped]
    omega

end Tests

/-- A daemon at the time `u` with one record in its cache, which peer 1 was just made to ask
for. -/
def asking (r : DnsQueryResult) (u : Nat) : Popd :=
  let s := { popInit 3 fun _ => { time := u } with dnsCache := [r] }
  ((popRemoteServerPeerMake ⟨r.hostName, some 80⟩ s).toOption.map Prod.snd).getD s

/-- The record of the answer `hostReply 0 60 1` received at the time 1000. -/
def minuteRecord : DnsQueryResult := ⟨0, Http.ascii "a.b", 0x0A000001, 60, 1060⟩

theorem minuteRecord_parses :
    domainNameIpv4Addr (received (hostReply 0 60 1)) 1000 = .ok (some minuteRecord) := by
  decide +kernel

theorem minuteRecord_asked (u : Nat) : (asking minuteRecord u).Asks 1 minuteRecord.hostName :=
  ⟨_, rfl, rfl, rfl, rfl, rfl⟩

theorem minuteRecord_cached (u : Nat) :
    dnsCacheLookupByHostname (asking minuteRecord u).dnsCache minuteRecord.hostName =
      some minuteRecord := rfl

theorem validity_sample :
    (((asking minuteRecord 1030).Hits 1 true minuteRecord.address ↔
          ¬ (asking minuteRecord 1030).Sweeps minuteRecord) ∧
        ((asking minuteRecord 1030).Hits 1 true minuteRecord.address ↔ 1030 ≤ 1000 + 60)) ↔
      1000 + 60 < 2 ^ 32 ∧ 1030 ≠ 1000 + 60 :=
  validity_iff minuteRecord_parses (by decide) (minuteRecord_asked 1030) (minuteRecord_cached 1030)
    (by decide) rfl (by decide) (by decide) rfl true

/-- In the second in which it ends a record is used and swept. -/
theorem last_second_disagrees :
    ¬ ((asking minuteRecord 1060).Hits 1 true minuteRecord.address ↔
      ¬ (asking minuteRecord 1060).Sweeps minuteRecord) := by
  have hit : (asking minuteRecord 1060).Hits 1 true minuteRecord.address := by
    apply (hits_iff (minuteRecord_asked 1060) (minuteRecord_cached 1060) (by decide) true).mpr
    exact Nat.le_refl 1060
  have swept : (asking minuteRecord 1060).Sweeps minuteRecord := by
    apply (sweeps_iff (minuteRecord_cached 1060)).mpr
    exact Nat.le_refl 1060
  intro agree
  exact agree.mp hit swept

end Poplar.Proxy
