import Poplar.Http.Requests
import Poplar.Proxy.Relay
import Poplar.Proxy.Sites

/-!
# Which server a request is queued for

Whether bytes read from a client are looked at as a request depends on the partner the
client has then. A request that finds a connected server goes there, whatever host it
names, and one that finds a connecting server goes back to the client.
-/
namespace Poplar.Proxy

open Effects Poplar.Domain Poplar.Http

/-- A server-side peer for the host and port of a target. -/
def serverSite (t : Target) : Site := ⟨.httpProxy, .server, t.host, t.portWritten⟩

/-- A client of the proxy. -/
def ClientAt (site : Nat → Option Site) (p : Nat) : Prop :=
  ∃ known, site p = some known ∧ known.serviceType = .httpProxy ∧ known.tcpPeerType = .client

/-- A request read from a client is queued on the server its URI names. -/
def Call.AtOwn (site : Nat → Option Site) : Call → Prop
  | .queued q bytes (some c) => ClientAt site c → ∀ r : Request, bytes = r.bytes →
      site q = some (serverSite r.target)
  | _ => True

/-- There is no partner, or it is idle. -/
def Spare (partner : Option (Nat × TcpPeerType × TcpClientStatus)) : Prop :=
  ∀ q side status, partner = some (q, side, status) → status = .idle

/-- The callback of the method is `pop_http_proxy_request_get`. -/
def opens : HttpMethod → Bool
  | .get | .head | .put | .post => true
  | _ => false

/-- A request is read while its client has a connection to the server its URI names; or while
the client has no partner in use, and then the method is known, and the URI of a method that
opens a connection has a port, or no `:` in its path. -/
def Call.FindsOwn (site : Nat → Option Site) : Call → Prop
  | .chunk c bytes partner => ClientAt site c → ∀ r : Request, bytes = r.bytes →
      (∃ q, partner = some (q, .server, .establish) ∧ site q = some (serverSite r.target)) ∨
        (Spare partner ∧ ∃ method, popHttpProxyMethodMatch bytes = some method ∧
          (opens method = true →
            r.target.port.isSome = true ∨ ∀ rest ∈ r.target.rest, colon ∉ rest))
  | _ => True

/-- The requests a dispatch queues are all queued for their own servers. -/
def Popd.RoutesOwn (s : Popd) (event : Dispatch) : Prop :=
  ∀ u s', dispatch event s = .ok (u, s') →
    ∃ calls, s'.log = calls ++ s.log ∧ ∀ call ∈ calls, call.AtOwn s'.siteOf

/-- The requests a dispatch reads all find their own servers. -/
def Popd.FindsOwn (s : Popd) (event : Dispatch) : Prop :=
  ∀ u s', dispatch event s = .ok (u, s') →
    ∃ calls, s'.log = calls ++ s.log ∧ ∀ call ∈ calls, call.FindsOwn s'.siteOf

/-! ## Calls -/

/-- A call that moves bytes of a peer. -/
def Call.carries : Call → Bool
  | .chunk _ _ _ | .queued _ _ (some _) => true
  | _ => false

/-- Of these calls exactly those about requests that found their own server kept to it. -/
def Consistent (site : Nat → Option Site) (calls : List Call) : Prop :=
  (∀ call ∈ calls, call.AtOwn site) ↔ ∀ call ∈ calls, call.FindsOwn site

section Calls

variable {site : Nat → Option Site} {calls later earlier : List Call}

theorem Consistent.append (first : Consistent site later) (second : Consistent site earlier) :
    Consistent site (later ++ earlier) := by
  unfold Consistent
  rw [List.forall_mem_append, List.forall_mem_append]
  exact and_congr first second

/-- Only the calls that move bytes matter. -/
theorem Consistent.of_filter (consistent : Consistent site (calls.filter Call.carries)) :
    Consistent site calls := by
  have own : ∀ call : Call, call.carries = false → call.AtOwn site := by
    intro call idle
    cases call with
    | queued q bytes origin =>
        cases origin with
        | none => trivial
        | some c => cases idle
    | _ => trivial
  have finds : ∀ call : Call, call.carries = false → call.FindsOwn site := by
    intro call idle
    cases call with
    | chunk c bytes partner => cases idle
    | _ => trivial
  constructor
  · intro all call member
    cases moves : call.carries with
    | false => exact finds call moves
    | true =>
        apply consistent.mp
        · intro other inside
          exact all other (List.mem_of_mem_filter inside)
        · exact List.mem_filter.mpr ⟨member, moves⟩
  · intro all call member
    cases moves : call.carries with
    | false => exact own call moves
    | true =>
        apply consistent.mpr
        · intro other inside
          exact all other (List.mem_of_mem_filter inside)
        · exact List.mem_filter.mpr ⟨member, moves⟩

theorem not_carries_of_quiet {call : Call} (quiet : call.quiet = true) : call.carries = false := by
  cases call with
  | chunk => cases quiet
  | queued => cases quiet
  | _ => rfl

theorem filter_quiet (quiet : ∀ call ∈ calls, call.quiet = true) :
    calls.filter Call.carries = [] := by
  rw [List.filter_eq_nil_iff]
  intro call member
  rw [not_carries_of_quiet (quiet call member)]
  exact Bool.false_ne_true

end Calls

/-! ## A chunk of a client -/

/-- What the first line of these bytes is read as. -/
def Names (bytes : List UInt8) (host : Option HostPort) : Prop :=
  ∃ parsed, httpRequestStartLineParse (received bytes).data = .ok parsed ∧
    (parsed = none ∧ host = none ∨
      ∃ sline, parsed = some sline ∧ getHostIpPostFromURI sline.uri = .ok host)

/-- Where bytes read from the client `p` are queued, if anywhere. -/
inductive Sent (p : Nat) (bytes : List UInt8) (s s' : Popd) : Option Nat → Prop
  | relayed {q : Nat} : s.partnerOf p = some (q, .server, .establish) → Sent p bytes s s' (some q)
  | kept : (∀ q, s.partnerOf p ≠ some (q, .server, .establish)) →
      (Spare (s.partnerOf p) → popHttpProxyMethodMatch bytes = none) → Sent p bytes s s' (some p)
  | asked {server : Nat} {method : HttpMethod} {host : HostPort} : Spare (s.partnerOf p) →
      popHttpProxyMethodMatch bytes = some method → opens method = true →
      Names bytes (some host) →
      s'.siteOf server = some ⟨.httpProxy, .server, host.ipAddr, host.port⟩ →
      Sent p bytes s s' (some server)
  | silent {method : HttpMethod} : Spare (s.partnerOf p) →
      popHttpProxyMethodMatch bytes = some method → (opens method = true → Names bytes none) →
      Sent p bytes s s' none

/-- Requests are named by the URI they were written with, and no request is refused. -/
theorem names_target {r : Request} {host : Option HostPort} (names : Names r.bytes host) :
    getHostIpPostFromURI r.target.uri = .ok host := by
  obtain ⟨parsed, parses, ⟨none_, _⟩ | ⟨sline, some_, taken⟩⟩ := names
  · cases none_.symm.trans (httpRequestStartLineParse_bytes r parses)
  · cases some_.symm.trans (httpRequestStartLineParse_bytes r parses)
    exact taken

section Sending

variable {p : Nat} {bytes : List UInt8} {s s' : Popd} {target : Option Nat}
variable {site : Nat → Option Site}

/-- One request: it is queued for its own server just where it finds it. -/
theorem Sent.consistent (sent : Sent p bytes s s' target) (grown : Grown s'.siteOf site)
    (live : ∀ known, site p = some known → known.tcpPeerType = .client) :
    Consistent site ((target.map fun q => Call.queued q bytes (some p)).toList ++
      [.chunk p bytes (s.partnerOf p)]) := by
  -- the first alternative of the condition needs a partner the second excludes
  have busy : ∀ {q : Nat}, Spare (s.partnerOf p) →
      s.partnerOf p ≠ some (q, .server, .establish) := by
    intro q spare same
    cases spare q .server .establish same
  cases sent with
  | relayed partner =>
      simp only [Consistent, Option.map_some, Option.toList_some, List.cons_append,
        List.nil_append, List.forall_mem_cons, List.not_mem_nil, Call.AtOwn, Call.FindsOwn,
        false_implies, implies_true, and_true, true_and]
      constructor
      · intro own client r same
        exact .inl ⟨_, partner, own client r same⟩
      · intro finds client r same
        obtain ⟨q, other, there⟩ | ⟨spare, _⟩ := finds client r same
        · cases partner.symm.trans other
          exact there
        · exact absurd partner (busy spare)
  | kept away unknown =>
      simp only [Consistent, Option.map_some, Option.toList_some, List.cons_append,
        List.nil_append, List.forall_mem_cons, List.not_mem_nil, Call.AtOwn, Call.FindsOwn,
        false_implies, implies_true, and_true, true_and]
      constructor
      · intro own client r same
        have type := live _ (own client r same)
        cases type
      · intro finds client r same
        obtain ⟨q, partner, _⟩ | ⟨spare, method, known, _⟩ := finds client r same
        · exact absurd partner (away q)
        · rw [unknown spare] at known
          cases known
  | asked spare known open_ names there =>
      have placed := grown _ _ there
      simp only [Consistent, Option.map_some, Option.toList_some, List.cons_append,
        List.nil_append, List.forall_mem_cons, List.not_mem_nil, Call.AtOwn, Call.FindsOwn,
        false_implies, implies_true, and_true, true_and]
      constructor
      · intro own client r same
        subst same
        have taken := names_target names
        have right := placed.symm.trans (own client r rfl)
        simp only [serverSite, Option.some.injEq, Site.mk.injEq, true_and] at right
        obtain ⟨host, port⟩ := right
        refine .inr ⟨spare, _, known, fun _ => ?_⟩
        rw [← target_taken_iff, taken, ← host, ← port]
      · intro finds client r same
        subst same
        have taken := names_target names
        obtain ⟨q, partner, _⟩ | ⟨_, method, again, fits⟩ := finds client r rfl
        · exact absurd partner (busy spare)
        · cases known.symm.trans again
          have right := (target_taken_iff r.target).mpr (fits open_)
          cases taken.symm.trans right
          exact placed
  | silent spare known refused =>
      simp only [Consistent, Option.map_none, Option.toList_none, List.nil_append,
        List.forall_mem_cons, List.not_mem_nil, Call.AtOwn, Call.FindsOwn, false_implies,
        implies_true, and_true, true_iff]
      intro client r same
      subst same
      refine .inr ⟨spare, _, known, fun open_ => ?_⟩
      exact absurd (names_target (refused open_)) (target_not_refused r.target)

/-- The bytes of a chunk of the client `p` are queued in one place at most. -/
def Delivered (p : Nat) (bytes : List UInt8) (s s' : Popd) : Prop :=
  ∃ calls target, s'.log = calls ++ s.log ∧
    calls.filter Call.carries = (target.map fun q => Call.queued q bytes (some p)).toList ∧
    Grown s.siteOf s'.siteOf ∧ Sent p bytes s s' target

theorem delivered_quietly (mild : View.Mild s.view s'.view) (grown : Grown s.siteOf s'.siteOf)
    (sent : Sent p bytes s s' none) : Delivered p bytes s s' := by
  obtain ⟨calls, log, quiet⟩ := mild.log
  exact ⟨calls, none, log, filter_quiet quiet, grown, sent⟩

/-- What follows the push is quiet. -/
theorem delivered_to {q : Nat}
    (mild : View.Mild (s.view.note (.queued q bytes (some p))) s'.view)
    (grown : Grown s.siteOf s'.siteOf) (sent : Sent p bytes s s' (some q)) :
    Delivered p bytes s s' := by
  obtain ⟨calls, log, quiet⟩ := mild.log
  refine ⟨calls ++ [Call.queued q bytes (some p)], some q, ?_, ?_, grown, sent⟩
  · rw [List.append_assoc]
    exact log
  · rw [List.filter_append, filter_quiet quiet]
    rfl

theorem partnerBusy_answer {busy : Bool} (runs : partnerBusy p s = .ok (busy, s')) :
    busy = false ↔ Spare (s.partnerOf p) := by
  obtain ⟨peer, s₁, loaded, rest⟩ := runs_bind runs
  obtain ⟨found, same⟩ := load_runs loaded
  rw [same] at rest
  cases partner : peer.pairedPeer with
  | none =>
      simp only [partner] at rest
      rw [(runs_pure rest).1]
      refine iff_of_true rfl fun q side status there => ?_
      simp [Popd.partnerOf, found, partner] at there
  | some q =>
      simp only [partner] at rest
      obtain ⟨paired, s₂, other, rest⟩ := runs_bind rest
      have live := (load_runs other).1
      rw [(runs_pure rest).1, decide_eq_false_iff_not, not_not]
      constructor
      · intro idle r side status there
        simp only [Popd.partnerOf, found, partner, live, Option.bind_eq_bind, Option.bind_some,
          Option.pure_def, Option.some.injEq, Prod.mk.injEq] at there
        rw [← there.2.2, idle]
      · intro spare
        apply spare q paired.tcpPeerType
        simp [Popd.partnerOf, found, partner, live]

theorem requestHost_names {host : Option HostPort} (holds : s.bufferOf p = some bytes)
    (runs : requestHost p s = .ok (host, s')) : Names bytes host := by
  unfold requestHost at runs
  obtain ⟨peer, s₁, loaded, rest⟩ := runs_bind runs
  rw [Popd.bufferOf, (load_runs loaded).1] at holds
  cases holds
  dsimp only at rest
  obtain ⟨sline, s₂, parsed, rest⟩ := runs_bind rest
  refine ⟨sline, call_result parsed, ?_⟩
  cases sline with
  | none => exact .inl ⟨rfl, (runs_pure rest).1⟩
  | some sline => exact .inr ⟨sline, rfl, call_result rest⟩

/-- A request for a new connection is queued on the fifo of the new server-side peer. -/
theorem popHttpProxyRequestGet_delivered {ret : Int} {method : HttpMethod}
    (holds : s.bufferOf p = some bytes) (spare : Spare (s.partnerOf p))
    (known : popHttpProxyMethodMatch bytes = some method) (open_ : opens method = true)
    (runs : popHttpProxyRequestGet p s = .ok (ret, s')) : Delivered p bytes s s' := by
  obtain ⟨host, names, ⟨rfl, closed⟩ | ⟨some_, resolved⟩⟩ := popHttpProxyRequestGet_runs holds runs
  · apply delivered_quietly closed.mild (popHttpProxyRequestGet_site names runs).1
    exact .silent spare known fun _ => requestHost_names holds names
  · obtain ⟨host, rfl⟩ := Option.isSome_iff_exists.mp some_
    obtain ⟨grown, there⟩ := popHttpProxyRequestGet_site names runs
    obtain ⟨calls, log, quiet⟩ := resolved.mild.log
    refine ⟨calls ++ [Call.requested p s.view.next bytes, .queued s.view.next bytes (some p),
      .paired s.view.next p (s.view.pairedOf s.view.next) (s.view.pairedOf p)], some s.next,
      ?_, ?_, grown, .asked spare known open_ (requestHost_names holds names) (there host rfl)⟩
    · rw [List.append_assoc]
      refine Eq.trans log ?_
      rw [View.log_note, View.log_note, View.openServer_log]
      rfl
    · rw [List.filter_append, filter_quiet quiet]
      rfl

theorem popHttpProxyRequestConnect_delivered {ret : Int} {method : HttpMethod}
    (spare : Spare (s.partnerOf p)) (known : popHttpProxyMethodMatch bytes = some method)
    (closed_ : opens method = false) (runs : popHttpProxyRequestConnect p s = .ok (ret, s')) :
    Delivered p bytes s s' := by
  have grown := popHttpProxyRequestConnect_site runs
  have silent : Sent p bytes s s' none := by
    apply Sent.silent spare known
    intro open_
    rw [closed_] at open_
    cases open_
  obtain closed | resolved := popHttpProxyRequestConnect_runs runs
  · exact delivered_quietly closed.mild grown silent
  · obtain ⟨calls, log, quiet⟩ := resolved.mild.log
    refine ⟨calls ++ [Call.queued p HTTP_METHOD_CONNECT_ESTABLISHED none,
      .paired s.view.next p (s.view.pairedOf s.view.next) (s.view.pairedOf p)], none, ?_, ?_,
      grown, silent⟩
    · rw [List.append_assoc]
      refine Eq.trans log ?_
      rw [View.log_note, View.openServer_log]
      rfl
    · rw [List.filter_append, filter_quiet quiet]
      rfl

/-- Bytes that no connected server gets. -/
theorem popHttpProxyRequestEvent_delivered {ret : Int} (holds : s.bufferOf p = some bytes)
    (away : ∀ q, s.partnerOf p ≠ some (q, .server, .establish))
    (runs : popHttpProxyRequestEvent p s = .ok (ret, s')) : Delivered p bytes s s' := by
  have back : ∀ {ret : Int} {s' : Popd}, (do streamFifoPushDup p p; return 0 : Daemon Int) s =
      .ok (ret, s') → (Spare (s.partnerOf p) → popHttpProxyMethodMatch bytes = none) →
      Delivered p bytes s s' := by
    intro ret s' runs unknown
    obtain ⟨_, s₁, pushed, rest⟩ := runs_bind runs
    rw [(runs_pure rest).2]
    apply delivered_to (q := p)
    · rw [(streamFifoPushDup_runs holds pushed).1]
      exact View.Mild.refl _
    · exact grown_of_eq (siteFrame.routine.streamFifoPushDup p p _ _ _ pushed)
    · exact .kept away unknown
  obtain ⟨busy, s₁, looked, rest⟩ := runs_bind runs
  have answer := partnerBusy_answer looked
  rw [partnerBusy_runs looked] at rest
  cases busy with
  | true =>
      apply back rest
      intro spare
      cases answer.mpr spare
  | false =>
      have spare := answer.mp rfl
      simp only [Bool.false_eq_true, if_false] at rest
      obtain ⟨peer, s₂, loaded, rest⟩ := runs_bind rest
      rw [(load_runs loaded).2] at rest
      have read : peer.recvBuffer = bytes := by
        rw [Popd.bufferOf, (load_runs loaded).1] at holds
        exact Option.some.inj holds
      rw [read] at rest
      cases known : popHttpProxyMethodMatch bytes with
      | none =>
          simp only [known] at rest
          exact back rest fun _ => known
      | some method =>
          simp only [known] at rest
          have prints : ∀ {ret : Int} {s' : Popd}, (return 0 : Daemon Int) s = .ok (ret, s') →
              opens method = false → Delivered p bytes s s' := by
            intro ret s' runs closed
            rw [(runs_pure runs).2]
            apply delivered_quietly (View.Mild.refl _) (Grown.refl _)
            apply Sent.silent spare known
            intro open_
            rw [closed] at open_
            cases open_
          cases method with
          | get | head | put | post =>
              exact popHttpProxyRequestGet_delivered holds spare known rfl rest
          | connect => exact popHttpProxyRequestConnect_delivered spare known rfl rest
          | trace | options | delete | lock | mkcol | copy | move => exact prints rest rfl

/-- A peer that is a client of the proxy. -/
theorem popHttpProxyMessageDeal_delivered {u : Unit} (client : ClientAt s.siteOf p)
    (holds : s.bufferOf p = some bytes) (runs : popHttpProxyMessageDeal p s = .ok (u, s')) :
    Delivered p bytes s s' := by
  obtain ⟨peer, s₁, loaded, rest⟩ := runs_bind runs
  obtain ⟨found, same⟩ := load_runs loaded
  rw [same] at rest
  obtain ⟨known, there, service, type⟩ := client
  cases (siteOf_found found).symm.trans there
  have service : peer.serviceType = .httpProxy := service
  have type : peer.tcpPeerType = .client := type
  simp only [service, if_true, type] at rest
  obtain ⟨answer, s₂, checked, rest⟩ := runs_bind rest
  obtain ⟨unchanged, forwards, waits⟩ := popCheckWhetherMsgForward_runs found checked
  rw [unchanged] at rest
  cases answer with
  | true =>
      obtain ⟨q, _, _, partner, paired, ⟨-, rfl, rfl⟩ | ⟨server, -⟩⟩ := forwards rfl
      · simp only [if_true, partner] at rest
        apply delivered_to (q := q)
        · exact (popTcpPacketTranspond_runs holds rest).mild
        · exact grown_of_eq (siteFrame.routine.popTcpPacketTranspond q p _ _ _ rest)
        · exact .relayed (partnerOf_view s p ▸ paired)
      · cases type.symm.trans server
  | false =>
      simp only [Bool.false_eq_true, if_false] at rest
      obtain ⟨_, s₃, asked, rest⟩ := runs_bind rest
      rw [(runs_pure rest).2]
      apply popHttpProxyRequestEvent_delivered holds _ asked
      intro q forwards
      apply waits rfl type
      exact ⟨q, partnerOf_view s p ▸ forwards⟩

/-- Bytes of any other peer go to its partner or nowhere. -/
theorem popHttpProxyMessageDeal_other {u : Unit} (other : ¬ ClientAt s.siteOf p)
    (holds : s.bufferOf p = some bytes) (runs : popHttpProxyMessageDeal p s = .ok (u, s')) :
    s'.siteOf = s.siteOf ∧ ∃ calls, s'.log = calls ++ s.log ∧
      ∀ call ∈ calls, call.quiet = true ∨ ∃ q, call = .queued q bytes (some p) := by
  have nothing : s' = s → s'.siteOf = s.siteOf ∧ ∃ calls, s'.log = calls ++ s.log ∧
      ∀ call ∈ calls, call.quiet = true ∨ ∃ q, call = .queued q bytes (some p) := by
    rintro rfl
    exact ⟨rfl, [], rfl, by simp⟩
  obtain ⟨peer, s₁, loaded, rest⟩ := runs_bind runs
  obtain ⟨found, same⟩ := load_runs loaded
  rw [same] at rest
  split at rest
  next service =>
    cases side : peer.tcpPeerType with
    | client => exact absurd ⟨_, siteOf_found found, service, side⟩ other
    | unknown =>
        simp only [side] at rest
        exact nothing (runs_pure rest).2
    | server =>
        simp only [side] at rest
        obtain ⟨answer, s₂, checked, rest⟩ := runs_bind rest
        rw [(popCheckWhetherMsgForward_runs found checked).1] at rest
        cases answer with
        | false => exact nothing (runs_pure rest).2
        | true =>
            cases partner : peer.pairedPeer with
            | none =>
                simp only [if_true, partner] at rest
                exact nothing (runs_pure rest).2
            | some q =>
                simp only [if_true, partner] at rest
                refine ⟨siteFrame.routine.popTcpPacketTranspond q p _ _ _ rest, ?_⟩
                obtain ⟨calls, log, quiet⟩ := (popTcpPacketTranspond_runs holds rest).mild.log
                refine ⟨calls ++ [Call.queued q bytes (some p)], ?_, ?_⟩
                · rw [List.append_assoc]
                  exact log
                · intro call member
                  rcases List.mem_append.mp member with later | here
                  · exact .inl (quiet call later)
                  · exact .inr ⟨q, List.mem_singleton.mp here⟩
  next => exact nothing (runs_pure rest).2

end Sending

/-! ## Runs -/

/-- All requests handled in between were queued for their servers just where they found them. -/
def Routed (s s' : Popd) : Prop :=
  Grown s.siteOf s'.siteOf ∧ ∃ calls, s'.log = calls ++ s.log ∧
    ∀ site, Grown s'.siteOf site → Consistent site calls

section Runs

variable {s m s' : Popd} {p : Nat}

theorem Routed.trans (first : Routed s m) (second : Routed m s') : Routed s s' := by
  obtain ⟨grown, calls, log, consistent⟩ := first
  obtain ⟨grown', calls', log', consistent'⟩ := second
  refine ⟨grown.trans grown', calls' ++ calls, ?_, ?_⟩
  · rw [log', log, List.append_assoc]
  · intro site later
    exact (consistent' site later).append (consistent site (grown'.trans later))

theorem consistent_of_quiet {site : Nat → Option Site} {calls : List Call}
    (quiet : ∀ call ∈ calls, call.quiet = true) : Consistent site calls := by
  apply Consistent.of_filter
  rw [filter_quiet quiet]
  exact iff_of_true (List.forall_mem_nil _) (List.forall_mem_nil _)

theorem routed_of_mild (mild : View.Mild s.view s'.view) (same : s'.siteOf = s.siteOf) :
    Routed s s' := by
  obtain ⟨calls, log, quiet⟩ := mild.log
  exact ⟨grown_of_eq same, calls, log, fun _ _ => consistent_of_quiet quiet⟩

theorem routed_of_same (view : s'.view = s.view) (same : s'.siteOf = s.siteOf) : Routed s s' := by
  apply routed_of_mild _ same
  rw [view]
  exact View.Mild.refl _

theorem Routed.bind {α β : Type} {x : Daemon α} {f : α → Daemon β} (first : Within Routed x)
    (second : ∀ a, Within Routed (f a)) : Within Routed (x >>= f) := by
  intro s b s' runs
  obtain ⟨a, m, ran, rest⟩ := runs_bind runs
  exact (first s a m ran).trans (second a m b s' rest)

theorem Routed.pure {α : Type} (a : α) : Within Routed (Pure.pure a : Daemon α) := by
  intro s b s' runs
  rw [(runs_pure runs).2]
  exact routed_of_same rfl rfl

theorem popTcpClosePairedPeer_routed (p : Nat) : Within Routed (popTcpClosePairedPeer p) := by
  intro s u s' runs
  apply routed_of_mild (popTcpClosePairedPeer_effect p _ _ _ runs).mild
  exact siteFrame.routine.popTcpClosePairedPeer p _ _ _ runs

theorem popHttpProxyTcpWrite_routed (p : Nat) : Within Routed (popHttpProxyTcpWrite p) := by
  intro s u s' runs
  apply routed_of_mild (popHttpProxyTcpWrite_effect p _ _ _ runs).mild
  exact siteFrame.routine.popHttpProxyTcpWrite p _ _ _ runs

theorem eventSet_routed (p : Nat) (func : EventFunc) (write : Bool) :
    Within Routed (eventSet p func write) := by
  intro s u s' runs
  apply routed_of_same (eventSet_still p func write _ _ _ runs)
  exact siteFrame.eventSet p func write _ _ _ runs

/-- One turn of the read loop that reads bytes. -/
theorem chunk_routed {bytes : List UInt8} (holds : s.bufferOf p = some bytes) {u : Unit}
    (runs : (do
      note fun s => .chunk p bytes (s.partnerOf p)
      popHttpProxyMessageDeal p : Daemon Unit) s = .ok (u, s')) : Routed s s' := by
  obtain ⟨_, m, noted, dealt⟩ := runs_bind runs
  have site : m.siteOf = s.siteOf := siteFrame.routine.note _ _ _ _ noted
  have holdsM : m.bufferOf p = some bytes := by rw [note_buffer noted, holds]
  have log : m.log = .chunk p bytes (m.partnerOf p) :: s.log := by
    rw [runs_modify noted]
    rfl
  by_cases client : ClientAt m.siteOf p
  · obtain ⟨calls, target, log', carried, grown, sent⟩ :=
      popHttpProxyMessageDeal_delivered client holdsM dealt
    refine ⟨(grown_of_eq site).trans grown, calls ++ [Call.chunk p bytes (m.partnerOf p)], ?_, ?_⟩
    · rw [log', log, List.append_assoc]
      rfl
    · intro final later
      apply Consistent.of_filter
      rw [List.filter_append, carried]
      apply sent.consistent later
      intro known there
      obtain ⟨first, before, _, type⟩ := client
      cases (later p first (grown p first before)).symm.trans there
      exact type
  · obtain ⟨same, calls, log', kinds⟩ := popHttpProxyMessageDeal_other client holdsM dealt
    refine ⟨grown_of_eq (same.trans site), calls ++ [Call.chunk p bytes (m.partnerOf p)], ?_, ?_⟩
    · rw [log', log, List.append_assoc]
      rfl
    · intro final later
      -- the peer is live, so it is no client in the end either
      have never : ¬ ClientAt final p := by
        rintro ⟨known, there, kind⟩
        cases found : m.peers p with
        | none =>
            rw [Popd.bufferOf, found] at holdsM
            cases holdsM
        | some peer =>
            have before := siteOf_found found
            cases (later p _ (same ▸ before)).symm.trans there
            exact client ⟨_, before, kind⟩
      apply Consistent.append
      · apply iff_of_true
        · intro call member
          obtain quiet | ⟨q, rfl⟩ := kinds call member
          · cases call with
            | queued => cases quiet
            | _ => trivial
          · exact fun is => absurd is never
        · intro call member
          obtain quiet | ⟨q, rfl⟩ := kinds call member
          · cases call with
            | chunk => cases quiet
            | _ => trivial
          · trivial
      · apply iff_of_true
        · exact List.forall_mem_singleton.mpr trivial
        · exact List.forall_mem_singleton.mpr fun is => absurd is never

/-- The induction follows the turns of the loop. -/
theorem readLoop_routed (p n : Nat) : Within Routed (readLoop p n) := by
  induction n with
  | zero => exact Routed.pure true
  | succ n ih =>
      intro s a s' runs
      unfold readLoop at runs
      obtain ⟨answer, s₁, asked, rest⟩ := runs_bind runs
      obtain ⟨peer, s₂, loaded, rest⟩ := runs_bind rest
      rw [(load_runs loaded).2] at rest
      dsimp only at rest
      generalize (if peer.sockfd < 0 then [] else answer.read.take MAX_RECV_PACKET_SIZE) = bytes
        at rest
      obtain ⟨_, s₃, stored, rest⟩ := runs_bind rest
      obtain ⟨unseen, holds⟩ := store_read stored
      have keeps : Within (fun s s' => s'.siteOf = s.siteOf)
          (store p fun peer => { peer with recvBuffer := bytes }) := siteFrame.store p fun _ => rfl
      have begun : Routed s s₃ := by
        apply routed_of_same
        · rw [unseen, ask_still _ _ _ asked]
        · rw [keeps _ _ _ stored, siteFrame.routine.ask _ _ _ asked]
      apply begun.trans
      split at rest
      · split at rest
        · exact Routed.pure true _ _ _ rest
        · have closes : Within Routed (do
              popTcpClosePairedPeer p
              return false) :=
            Routed.bind (popTcpClosePairedPeer_routed p) fun _ => Routed.pure _
          exact closes _ _ _ rest
      · obtain ⟨_, s₄, noted, rest⟩ := runs_bind rest
        obtain ⟨_, s₅, dealt, rest⟩ := runs_bind rest
        have turn : Routed s₃ s₅ := chunk_routed holds ((bind_runs noted).trans dealt)
        exact turn.trans (ih _ _ _ rest)

theorem popHttpProxyTcpRead_routed (p : Nat) (write : Bool) :
    Within Routed (popHttpProxyTcpRead p write) := by
  apply Routed.bind (readLoop_routed p POP_PACKET_READ_TIMES)
  intro again
  split
  · exact eventSet_routed _ _ _
  · exact Routed.pure ()

theorem popHttpProxyTcpEpollEvent_routed (p : Nat) (listenWrite read write error : Bool) :
    Within Routed (popHttpProxyTcpEpollEvent p listenWrite read write error) := by
  have reads (b : Bool) :
      Within Routed (if b then popHttpProxyTcpRead p listenWrite else return ()) := by
    split
    · exact popHttpProxyTcpRead_routed _ _
    · exact Routed.pure ()
  have writes (b : Bool) :
      Within Routed (if b then popHttpProxyTcpWrite p else return ()) := by
    split
    · exact popHttpProxyTcpWrite_routed _
    · exact Routed.pure ()
  rw [popHttpProxyTcpEpollEvent_joined]
  exact Routed.bind (reads read) fun _ => Routed.bind (writes write) fun _ => reads error

theorem popTcpClientConnectCheck_routed (p : Nat) : Within Routed (popTcpClientConnectCheck p) := by
  intro s u s' runs
  apply routed_of_mild _ (siteFrame.routine.popTcpClientConnectCheck p _ _ _ runs)
  obtain ⟨answer, s₁, asked, rest⟩ := runs_bind runs
  rw [← ask_still _ _ _ asked]
  split at rest
  · exact (popTcpClosePairedPeer_effect p _ _ _ rest).mild
  · obtain ⟨_, established⟩ | same := popTcpClientEvent_success p _ _ _ rest
    · rw [established]
      exact ((View.Mild.enlist _ p).trans (.clientInfo _ p _)).trans (.setStatus _ p _)
    · rw [same]
      exact View.Mild.refl _

theorem socketEvent_routed (p : Nat) (read write error : Bool) :
    Within Routed (socketEvent p read write error) := by
  intro s u s' runs
  obtain ⟨peer, s₁, loaded, rest⟩ := runs_bind runs
  rw [(load_runs loaded).2] at rest
  cases event : peer.tEvent with
  | none =>
      simp only [event] at rest
      exact Routed.pure () _ _ _ rest
  | some watch =>
      simp only [event] at rest
      obtain ⟨_, s₂, stored, rest⟩ := runs_bind rest
      have fires : Within (fun s s' => s'.siteOf = s.siteOf) (store p fun peer =>
          { peer with tEvent := some { watch with armed := false } }) := siteFrame.store p fun _ => rfl
      have fired : Routed s s₂ :=
        routed_of_same (store_unseen stored fun _ => rfl) (fires _ _ _ stored)
      apply fired.trans
      cases func : watch.func with
      | tcpClientConnectCheck =>
          simp only [func] at rest
          exact popTcpClientConnectCheck_routed p _ _ _ rest
      | httpProxyTcpEpollEvent =>
          simp only [func] at rest
          exact popHttpProxyTcpEpollEvent_routed _ _ _ _ _ _ _ _ rest

/-! ### The other dispatches -/

theorem popHttpProxyTcpServerAccept_mild (clients : List (Nat × Nat × Int)) (broken : Bool) {u : Unit}
    (runs : popHttpProxyTcpServerAccept clients broken s = .ok (u, s')) :
    View.Mild s.view s'.view := by
  induction clients generalizing s with
  | nil =>
      unfold popHttpProxyTcpServerAccept at runs
      split at runs
      · cases runs
      · rw [(runs_pure runs).2]
        exact View.Mild.refl _
  | cons client clients ih =>
      obtain ⟨_, m, connected, rest⟩ := runs_bind runs
      apply View.Mild.trans _ (ih rest)
      rw [popHttpProxyServerPeerConnect_effect _ _ _ _ _ _ connected]
      exact View.Mild.accept _

/-- Only an event of a socket moves bytes. -/
theorem dispatch_mild {event : Dispatch} {u : Unit}
    (calm : ∀ p read write error, event ≠ .socket p read write error)
    (runs : dispatch event s = .ok (u, s')) : View.Mild s.view s'.view := by
  cases event with
  | accept clients broken => exact popHttpProxyTcpServerAccept_mild clients broken runs
  | socket p read write error => exact absurd rfl (calm p read write error)
  | connectExpired p =>
      obtain ⟨_, s₁, stored, closed⟩ := runs_bind runs
      have closes := (popTcpClosePairedPeer_effect p _ _ _ closed).mild
      rwa [store_unseen stored fun _ => rfl] at closes
  | dnsWaitAckTimeout p =>
      obtain ⟨_, s₁, stored, rest⟩ := runs_bind runs
      obtain ⟨_, s₂, dropped, closed⟩ := runs_bind rest
      have closes := (popTcpClosePairedPeer_effect p _ _ _ closed).mild
      rw [(dnsWaitAckQueueDel_effect p _ _ _ dropped).1,
        store_runs (fun actor => { actor with tDnsWaitAck := false }) stored fun _ => rfl] at closes
      exact ((View.Mild.setWait s.view p false).trans (.drop _ p)).trans closes
  | infoDeal p =>
      obtain ⟨actor, _, ⟨_, same⟩ | ⟨_, turns⟩ | ⟨_, turns⟩⟩ := infoDeal_runs runs
      · rw [same]
        exact View.Mild.refl _
      · exact (View.Mild.infoRun _ p).trans (turns.mild fun v _ =>
          .touch v p (fun _ => rfl) (fun _ => rfl) fun _ => rfl)
      · exact (View.Mild.infoRun _ p).trans (turns.mild fun v _ =>
          .touch v p (fun _ => rfl) (fun _ => rfl) fun _ => rfl)
  | datagram payload fromAddr fromPort =>
      obtain same | ⟨p, _, same | ⟨address, _, started⟩⟩ :=
        popUdpRecvDnsQueryAck_effect payload fromAddr fromPort _ _ _ runs
      · rw [same]
        exact View.Mild.refl _
      · rw [same]
        exact View.Mild.answer _ p 0
      · exact (View.Mild.answer _ p address).trans started.mild
  | cacheCheck =>
      obtain ⟨answer, s₁, asked, rest⟩ := runs_bind runs
      rw [modify_unseen rest fun _ => rfl, ask_still _ _ _ asked]
      exact View.Mild.refl _

theorem dispatch_consistent {event : Dispatch} {u : Unit}
    (runs : dispatch event s = .ok (u, s')) :
    ∃ calls, s'.log = calls ++ s.log ∧ Consistent s'.siteOf calls := by
  by_cases socket : ∃ p read write error, event = .socket p read write error
  · obtain ⟨p, read, write, error, rfl⟩ := socket
    obtain ⟨_, calls, log, consistent⟩ := socketEvent_routed p read write error _ _ _ runs
    exact ⟨calls, log, consistent _ (Grown.refl _)⟩
  · simp only [not_exists] at socket
    obtain ⟨calls, log, quiet⟩ := (dispatch_mild socket runs).log
    exact ⟨calls, log, consistent_of_quiet quiet⟩

/-- One dispatch. -/
theorem routesOwn_iff {event : Dispatch} {u : Unit} (runs : dispatch event s = .ok (u, s')) :
    s.RoutesOwn event ↔ s.FindsOwn event := by
  obtain ⟨calls, log, consistent⟩ := dispatch_consistent runs
  constructor
  · intro routes u' s'' again
    cases runs.symm.trans again
    obtain ⟨calls', log', own⟩ := routes u s' runs
    cases List.append_cancel_right (log.symm.trans log')
    exact ⟨calls, log, consistent.mp own⟩
  · intro finds u' s'' again
    cases runs.symm.trans again
    obtain ⟨calls', log', own⟩ := finds u s' runs
    cases List.append_cancel_right (log.symm.trans log')
    exact ⟨calls, log, consistent.mpr own⟩

end Runs

/-- In every run: requests are only queued for the servers their URIs name just where every
request read finds its server, or no other server, and is understood. -/
theorem routes_own_iff (s : Popd) (events : List Dispatch) :
    system.Each Popd.RoutesOwn events s ↔ system.Each Popd.FindsOwn events s := by
  apply system.each_iff
  intro s event s' _ executes
  obtain ⟨u, runs⟩ := exec_runs executes
  exact routesOwn_iff runs

theorem secondHost_sized : 1 ≤ (ascii "5.6.7.8").length ∧ (ascii "5.6.7.8").length ≤ 254 := by
  decide

theorem secondHost_plain : ∀ c ∈ ascii "5.6.7.8", c ≠ colon ∧ c ≠ slash ∧ c ≠ 0 := by
  simp [ascii, colon, slash]

/-- `http://5.6.7.8/` -/
def secondTarget : Target where
  scheme := some .http
  host := ascii "5.6.7.8"
  port := none
  rest := some []
  hostSized := secondHost_sized
  hostPlain := secondHost_plain
  portNumber := fun _ written => nomatch written
  restPlain := fun _ empty _ member => absurd member (Option.some.inj empty ▸ List.not_mem_nil)
  authority := fun absent => nomatch absent

theorem secondMethod_plain : ∀ c ∈ ascii "GET", 32 < c := by simp [ascii]

theorem secondTarget_plain : ∀ c ∈ secondTarget.uri, 32 < c := by
  simp [secondTarget, Target.uri, Target.tail, Scheme.text, ascii, slash]

theorem secondVersion_plain : ∀ c ∈ ascii "HTTP/1.1", 32 < c := by simp [ascii]

theorem secondMethod_notConnect : ascii "GET" ≠ ascii "CONNECT" := by simp [ascii]

/-- A request for another host than that of `addressRequest`. -/
def secondRequest : Request where
  method := ascii "GET"
  target := secondTarget
  version := ascii "HTTP/1.1"
  fields := []
  body := []
  methodPlain := secondMethod_plain
  targetPlain := secondTarget_plain
  versionPlain := secondVersion_plain
  notConnect := secondMethod_notConnect
  absolute := rfl

/-- The server of the first request of a client is connected. -/
def keptAlive : Option Popd :=
  replay (fun n => if n = 1 then { read := addressRequest } else
      if n = 7 then { read := secondRequest.bytes } else {})
    [.accept [(5, 1, 2)] false, .socket 1 true false false, .socket 2 false true false, .infoDeal 2]

/-- The second request of the client is queued for the server of the first. -/
theorem second_goes_to_first : ∃ s, system.Reachable s ∧
    system.guard s (.socket 1 true false false) ∧ ¬ s.RoutesOwn (.socket 1 true false false) := by
  have finishes : (keptAlive.map fun s => (s.enabled (.socket 1 true false false),
      (dispatch (.socket 1 true false false) s).toOption.map fun ran =>
        ((ran.2.log.take (ran.2.log.length - s.log.length)).head?, ran.2.siteOf 1,
          ran.2.siteOf 2))) =
      some (true, some (some (.queued 2 secondRequest.bytes (some 1)),
        some ⟨.httpProxy, .client, [], some 2⟩,
        some ⟨.httpProxy, .server, ascii "1.2.3.4", some 80⟩)) := by
    decide +kernel
  obtain ⟨s, replayed, facts⟩ := Option.map_eq_some_iff.mp finishes
  obtain ⟨enabled, handled⟩ := Prod.mk.inj facts
  obtain ⟨⟨u, s'⟩, ran, after⟩ := Option.map_eq_some_iff.mp handled
  simp only [Prod.mk.injEq] at after
  obtain ⟨queued, first, second⟩ := after
  refine ⟨s, replay_reachable replayed, enabled, fun routes => ?_⟩
  obtain ⟨calls, log, own⟩ := routes u s' (toOption_some ran)
  have added : s'.log.take (s'.log.length - s.log.length) = calls := by
    rw [log, List.length_append, Nat.add_sub_cancel, List.take_left]
  rw [added] at queued
  cases calls with
  | nil => cases queued
  | cons call calls =>
      cases queued
      have right := own _ List.mem_cons_self ⟨_, first, rfl, rfl⟩ secondRequest rfl
      rw [second] at right
      revert right
      decide

end Poplar.Proxy
