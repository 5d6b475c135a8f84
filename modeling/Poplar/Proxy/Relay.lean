import Poplar.Proxy.Mild
import Poplar.Proxy.Simulation

/-!
# The bytes of a client reach its server-side peer

While a client's server-side peer is connected, each chunk read from the client is
pushed on that peer's `write_fifo`. A chunk that finds it still connecting is pushed on
the client's own fifo instead, and one that finds it idle may start another request.
-/
namespace Poplar.Proxy

/-- The bytes a call pushes on the fifo of `p`. -/
def Call.queuedOn (p : Nat) : Call → List UInt8
  | .queued q bytes _ => if q = p then bytes else []
  | _ => []

/-- The bytes a call reads from `p`. -/
def Call.readFrom (p : Nat) : Call → List UInt8
  | .chunk q bytes _ => if q = p then bytes else []
  | _ => []

/-- A chunk of `p` finds a connected server-side partner. -/
def Call.steady (p : Nat) : Call → Bool
  | .chunk q _ partner => q ≠ p ||
    match partner with
    | some (_, .server, .establish) => true
    | _ => false
  | _ => true

/-- Bytes read from `p` are pushed on its own fifo. -/
def Call.echoes (p : Nat) : Call → Bool
  | .queued q _ origin => q = p && origin = some p
  | _ => false

/-- All bytes ever pushed on the fifo of `p`, in order. -/
def bytesQueued (p : Nat) (log : List Call) : List UInt8 := log.reverse.flatMap (Call.queuedOn p)

def bytesRead (p : Nat) (log : List Call) : List UInt8 := log.reverse.flatMap (Call.readFrom p)

theorem bytesQueued_append (p : Nat) (later earlier : List Call) :
    bytesQueued p (later ++ earlier) = bytesQueued p earlier ++ bytesQueued p later := by
  simp only [bytesQueued, List.reverse_append, List.flatMap_append]

theorem bytesRead_append (p : Nat) (later earlier : List Call) :
    bytesRead p (later ++ earlier) = bytesRead p earlier ++ bytesRead p later := by
  simp only [bytesRead, List.reverse_append, List.flatMap_append]

theorem bytesQueued_none {p : Nat} {log : List Call} (none : ∀ call ∈ log, call.queuedOn p = []) :
    bytesQueued p log = [] := by
  rw [bytesQueued, List.flatMap_eq_nil_iff]
  intro call member
  exact none call (List.mem_reverse.mp member)

theorem bytesRead_none {p : Nat} {log : List Call} (none : ∀ call ∈ log, call.readFrom p = []) :
    bytesRead p log = [] := by
  rw [bytesRead, List.flatMap_eq_nil_iff]
  intro call member
  exact none call (List.mem_reverse.mp member)

theorem Call.quiet_silent {call : Call} (quiet : call.quiet = true) (p : Nat) :
    call.queuedOn p = [] ∧ call.readFrom p = [] ∧ call.echoes p = false := by
  cases call with
  | chunk => cases quiet
  | queued => cases quiet
  | _ => exact ⟨rfl, rfl, rfl⟩

/-- Where a later part does not hold an entry, the entry is in the earlier part. -/
theorem split_of_append {α : Type} {added log later earlier : List α} {x : α}
    (absent : x ∉ added) (split : added ++ log = later ++ x :: earlier) :
    ∃ rest, later = added ++ rest ∧ log = rest ++ x :: earlier := by
  induction added generalizing later with
  | nil => exact ⟨later, rfl, split⟩
  | cons a added ih =>
      cases later with
      | nil =>
          simp only [List.cons_append, List.nil_append, List.cons.injEq] at split
          exact absurd (split.1 ▸ List.mem_cons_self) absent
      | cons b later =>
          simp only [List.cons_append, List.cons.injEq] at split
          obtain ⟨rest, same, below⟩ :=
            ih (fun member => absent (List.mem_cons_of_mem _ member)) split.2
          exact ⟨rest, by rw [same, split.1]; rfl, below⟩

namespace View

/-- Client `c` and server-side peer `sv` have no partner but each other. -/
structure Relay (c sv : Nat) (v : View) : Prop where
  clientInside : c < v.next
  serverInside : sv < v.next
  clientSide : ∀ actor, v.actors c = some actor →
    actor.tcpPeerType = .client ∧ actor.serviceType = .httpProxy
  serverSide : ∀ actor, v.actors sv = some actor → actor.tcpPeerType = .server
  toServer : ∀ p, v.pairedOf p = some sv → p = c
  fromClient : ∀ q, v.pairedOf c = some q → q = sv

/-- Partners and pushes refer to peers made before, and clients are the proxy's. -/
structure Bounded (v : View) : Prop where
  partners : ∀ p q, v.pairedOf p = some q → q < v.next
  queued : ∀ p bytes origin, .queued p bytes origin ∈ v.log → p < v.next
  clients : ∀ p actor, v.actors p = some actor → actor.tcpPeerType = .client →
    actor.serviceType = .httpProxy

/-- What the calls since a request have done with the bytes of its client. -/
structure Relays (v : View) : Prop extends Bounded v where
  since : ∀ c sv bytes later earlier, v.log = later ++ .requested c sv bytes :: earlier →
    (∀ call ∈ later, call.steady c) →
    Relay c sv v ∧ bytesQueued sv v.log = bytes ++ bytesRead c later ∧
      ∀ call ∈ later, call.echoes c = false

variable {v m v' : View} {p : Nat}

theorem Relay.mild {c sv : Nat} (relay : Relay c sv v) (mild : Mild v v') : Relay c sv v' where
  clientInside := Nat.lt_of_lt_of_le relay.clientInside mild.next
  serverInside := Nat.lt_of_lt_of_le relay.serverInside mild.next
  clientSide actor' found := by
    obtain ⟨actor, live, type, service⟩ := mild.old c actor' relay.clientInside found
    rw [type, service]
    exact relay.clientSide actor live
  serverSide actor' found := by
    obtain ⟨actor, live, type, _⟩ := mild.old sv actor' relay.serverInside found
    rw [type]
    exact relay.serverSide actor live
  toServer p paired := relay.toServer p (mild.pairs p sv paired)
  fromClient q paired := relay.fromClient q (mild.pairs c q paired)

theorem Bounded.mild (bounded : Bounded v) (mild : Mild v v') : Bounded v' where
  partners p q paired :=
    Nat.lt_of_lt_of_le (bounded.partners p q (mild.pairs p q paired)) mild.next
  queued p bytes origin member := by
    obtain ⟨calls, log, quiet⟩ := mild.log
    rw [log] at member
    rcases List.mem_append.mp member with later | earlier
    · exact absurd (quiet _ later) (by simp [Call.quiet])
    · exact Nat.lt_of_lt_of_le (bounded.queued p bytes origin earlier) mild.next
  clients p actor' found client := by
    by_cases inside : p < v.next
    · obtain ⟨actor, live, type, service⟩ := mild.old p actor' inside found
      rw [service]
      exact bounded.clients p actor live (type ▸ client)
    · exact mild.new p actor' (Nat.not_lt.mp inside) found client

/-- Calls that request nothing keep the account if they push for each relay what they read. -/
theorem Relays.add (relays : Relays v) (bounded : Bounded v') (calls : List Call)
    (log : v'.log = calls ++ v.log)
    (requests : ∀ c sv bytes, .requested c sv bytes ∉ calls)
    (keeps : ∀ c sv, Relay c sv v → (∀ call ∈ calls, call.steady c) →
      Relay c sv v' ∧ bytesQueued sv calls = bytesRead c calls ∧
        ∀ call ∈ calls, call.echoes c = false) : Relays v' := by
  refine ⟨bounded, ?_⟩
  intro c sv bytes later earlier split steady
  rw [log] at split
  obtain ⟨rest, same, before⟩ := split_of_append (requests c sv bytes) split
  rw [same] at steady ⊢
  obtain ⟨relay, queued, silent⟩ := relays.since c sv bytes rest earlier before fun call member =>
    steady call (List.mem_append_right _ member)
  obtain ⟨relay', pushed, silent'⟩ := keeps c sv relay fun call member =>
    steady call (List.mem_append_left _ member)
  refine ⟨relay', ?_, ?_⟩
  · rw [log, bytesQueued_append, bytesRead_append, queued, pushed, List.append_assoc]
  · intro call member
    rcases List.mem_append.mp member with new | old
    · exact silent' call new
    · exact silent call old

theorem Relays.mild (relays : Relays v) (mild : Mild v v') : Relays v' := by
  obtain ⟨calls, log, quiet⟩ := mild.log
  have silent (p : Nat) : ∀ call ∈ calls, call.queuedOn p = [] ∧ call.readFrom p = [] ∧
      call.echoes p = false := fun call member => Call.quiet_silent (quiet call member) p
  refine relays.add (relays.toBounded.mild mild) calls log ?_ ?_
  · intro c sv bytes member
    exact absurd (quiet _ member) (by simp [Call.quiet])
  · intro c sv relay _
    refine ⟨relay.mild mild, ?_, fun call member => (silent c call member).2.2⟩
    rw [bytesQueued_none fun call member => (silent sv call member).1,
      bytesRead_none fun call member => (silent c call member).2.1]

theorem Relay.congr {c sv : Nat} (relay : Relay c sv v) (next : v'.next = v.next)
    (actors : v'.actors = v.actors) : Relay c sv v' := by
  have paired : v'.pairedOf = v.pairedOf := by
    funext q
    rw [pairedOf, actors]
    rfl
  constructor
  · rw [next]
    exact relay.clientInside
  · rw [next]
    exact relay.serverInside
  · rw [actors]
    exact relay.clientSide
  · rw [actors]
    exact relay.serverSide
  · rw [paired]
    exact relay.toServer
  · rw [paired]
    exact relay.fromClient

theorem typed_of_partner {q : Nat} {type : TcpPeerType} {status : TcpClientStatus}
    (partner : v.partnerOf p = some (q, type, status)) :
    v.pairedOf p = some q ∧ ∃ actor, v.actors q = some actor ∧ actor.tcpPeerType = type ∧
      actor.tcpClientStatus = status := by
  obtain ⟨r, paired, rest⟩ := Option.bind_eq_some_iff.mp partner
  obtain ⟨actor, live, same⟩ := Option.bind_eq_some_iff.mp rest
  cases same
  exact ⟨paired, actor, live, rfl, rfl⟩

theorem steady_chunk {bytes : List UInt8} {partner : Option (Nat × TcpPeerType × TcpClientStatus)}
    (steady : (Call.chunk p bytes partner).steady p) :
    ∃ q, partner = some (q, .server, .establish) := by
  obtain _ | ⟨q, type, status⟩ := partner
  · simp [Call.steady] at steady
  · cases type <;> cases status <;> simp [Call.steady] at steady ⊢

/-- A steady client is forwarded. -/
theorem Relay.forwards {c sv : Nat} {bytes : List UInt8} (relay : Relay c sv v)
    (steady : (Call.chunk c bytes (v.partnerOf c)).steady c) :
    v.Forwards c ∧ v.typeOf c = some .client ∧ v.serviceOf c = some .httpProxy := by
  obtain ⟨q, partner⟩ := steady_chunk steady
  refine ⟨⟨q, partner⟩, ?_⟩
  obtain ⟨paired, _⟩ := typed_of_partner partner
  obtain ⟨actor, live, _⟩ := Option.bind_eq_some_iff.mp paired
  obtain ⟨type, service⟩ := relay.clientSide actor live
  simp [typeOf, serviceOf, live, type, service]

theorem Relay.not_client {c sv : Nat} (relay : Relay c sv v) (type : v.typeOf p = some .server) :
    p ≠ c := by
  rintro rfl
  obtain ⟨actor, live, server⟩ := Option.map_eq_some_iff.mp type
  simp [(relay.clientSide actor live).1] at server

theorem Relay.not_server {c sv : Nat} (relay : Relay c sv v) (type : v.typeOf p = some .client) :
    p ≠ sv := by
  rintro rfl
  obtain ⟨actor, live, client⟩ := Option.map_eq_some_iff.mp type
  simp [relay.serverSide actor live] at client

theorem Relay.openServer {c sv : Nat} (relay : Relay c sv v) (live : (v.actors p).isSome)
    (notClient : p ≠ c) (notServer : p ≠ sv) : Relay c sv (v.openServer p) := by
  have newClient : c ≠ v.next := Nat.ne_of_lt relay.clientInside
  have newServer : sv ≠ v.next := Nat.ne_of_lt relay.serverInside
  constructor
  · exact Nat.lt_succ_of_lt relay.clientInside
  · exact Nat.lt_succ_of_lt relay.serverInside
  · rw [openServer_actors (Ne.symm notClient) newClient]
    exact relay.clientSide
  · rw [openServer_actors (Ne.symm notServer) newServer]
    exact relay.serverSide
  · intro r paired
    rw [pairedOf_openServer live, Pairings.join_some] at paired
    obtain ⟨_, same⟩ | ⟨_, _, same⟩ | ⟨_, _, paired⟩ := paired
    · exact absurd same newServer
    · exact absurd same.symm notServer
    · exact relay.toServer r paired
  · intro q paired
    rw [pairedOf_openServer live, Pairings.join_some] at paired
    obtain ⟨same, _⟩ | ⟨_, same, _⟩ | ⟨_, _, paired⟩ := paired
    · exact absurd same.symm notClient
    · exact absurd same newClient
    · exact relay.fromClient q paired

theorem Bounded.note (bounded : Bounded v) (call : Call)
    (fits : ∀ q bytes origin, call = .queued q bytes origin → q < v.next) :
    Bounded (v.note call) where
  partners := bounded.partners
  queued q bytes origin member := by
    rcases List.mem_cons.mp member with new | old
    · exact fits q bytes origin new.symm
    · exact bounded.queued q bytes origin old
  clients := bounded.clients

theorem Bounded.openServer (bounded : Bounded v) (live : (v.actors p).isSome) :
    Bounded (v.openServer p) := by
  have inside := inside_of_live live
  constructor
  · intro q r paired
    rw [pairedOf_openServer live, Pairings.join_some] at paired
    obtain ⟨_, rfl⟩ | ⟨_, _, rfl⟩ | ⟨_, _, paired⟩ := paired
    · exact Nat.lt_succ_self _
    · exact Nat.lt_succ_of_lt inside
    · exact Nat.lt_succ_of_lt (bounded.partners q r paired)
  · intro q bytes origin member
    rw [openServer_log] at member
    rcases List.mem_cons.mp member with new | old
    · cases new
    · exact Nat.lt_succ_of_lt (bounded.queued q bytes origin old)
  · intro q actor found client
    obtain ⟨_, server⟩ | ⟨before, there, type, service⟩ := openServer_sides live found
    · rw [client] at server
      cases server
    · rw [service]
      exact bounded.clients q before there (type ▸ client)

/-- A request is the first entry of its own account. -/
theorem Relays.request (relays : Relays v) {c sv : Nat} {bytes : List UInt8}
    (relay : Relay c sv v) (queued : bytesQueued sv v.log = bytes) :
    Relays (v.note (.requested c sv bytes)) := by
  refine ⟨relays.toBounded.note _ (by simp), ?_⟩
  intro c' sv' bytes' later earlier split steady
  cases later with
  | nil =>
      simp only [View.note, List.nil_append, List.cons.injEq, Call.requested.injEq] at split
      obtain ⟨⟨rfl, rfl, rfl⟩, _⟩ := split
      refine ⟨relay.congr rfl rfl, ?_, by simp⟩
      simpa [View.note, bytesQueued, bytesRead, Call.queuedOn] using queued
  | cons call later =>
      simp only [View.note, List.cons_append, List.cons.injEq] at split
      obtain ⟨rfl, split⟩ := split
      obtain ⟨relay', queued', silent⟩ := relays.since c' sv' bytes' later earlier split
        fun call member => steady call (List.mem_cons_of_mem _ member)
      refine ⟨relay'.congr rfl rfl, ?_, ?_⟩
      · simpa [View.note, bytesQueued, bytesRead, Call.queuedOn, Call.readFrom] using queued'
      · simpa [Call.echoes] using silent

theorem Bounded.relay_opened (bounded : Bounded v) (type : v.typeOf p = some .client) :
    Relay p v.next (v.openServer p) := by
  have live := live_of_type type
  have inside := inside_of_live live
  constructor
  · exact Nat.lt_succ_of_lt inside
  · exact Nat.lt_succ_self _
  · intro actor found
    obtain ⟨same, _⟩ | ⟨before, there, side, service⟩ := openServer_sides live found
    · exact absurd same (Nat.ne_of_lt inside)
    · have client : before.tcpPeerType = .client := by
        rw [typeOf, there] at type
        exact Option.some.inj type
      exact ⟨side.trans client, service.trans (bounded.clients p before there client)⟩
  · intro actor found
    obtain ⟨_, server⟩ | ⟨before, there, _⟩ := openServer_sides live found
    · exact server
    · rw [v.fresh _ (Nat.le_refl _)] at there
      cases there
  · intro q paired
    rw [pairedOf_openServer live, Pairings.join_some] at paired
    obtain ⟨rfl, _⟩ | ⟨_, _, same⟩ | ⟨_, _, paired⟩ := paired
    · rfl
    · exact absurd same.symm (Nat.ne_of_lt inside)
    · exact absurd (bounded.partners q _ paired) (Nat.lt_irrefl _)
  · intro q paired
    rw [pairedOf_openServer live, Pairings.join_some] at paired
    obtain ⟨_, rfl⟩ | ⟨notClient, _, _⟩ | ⟨notClient, _, _⟩ := paired
    · rfl
    · exact absurd rfl notClient
    · exact absurd rfl notClient

/-- A chunk read from `p` is pushed on the fifo of `q`. -/
theorem Relays.pushed {q : Nat} {bytes : List UInt8} (relays : Relays v) (inside : q < v.next)
    (fits : ∀ c sv, Relay c sv v → (Call.chunk p bytes (v.partnerOf p)).steady c →
      (p = c → q = sv ∧ q ≠ c) ∧ (p ≠ c → q ≠ sv)) :
    Relays ((v.note (.chunk p bytes (v.partnerOf p))).note (.queued q bytes (some p))) := by
  have bounded := relays.toBounded.note (.chunk p bytes (v.partnerOf p)) (by simp)
  refine relays.add (bounded.note _ ?_) [_, .chunk p bytes (v.partnerOf p)] rfl (by simp) ?_
  · intro r bytes' origin same
    cases same
    exact inside
  · intro c sv relay steady
    obtain ⟨own, other⟩ := fits c sv relay (steady _ (by simp))
    refine ⟨relay.congr rfl rfl, ?_, ?_⟩
    · by_cases same : p = c
      · simp [bytesQueued, bytesRead, Call.queuedOn, Call.readFrom, same, (own same).1]
      · simp [bytesQueued, bytesRead, Call.queuedOn, Call.readFrom, same, other same]
    · by_cases same : p = c
      · simp [Call.echoes, (own same).2]
      · simp [Call.echoes, same]

/-- A chunk of nobody whose chunks are steady is pushed nowhere. -/
theorem Relays.unpushed {bytes : List UInt8} (relays : Relays v)
    (other : ∀ c sv, Relay c sv v → (Call.chunk p bytes (v.partnerOf p)).steady c → p ≠ c) :
    Relays (v.note (.chunk p bytes (v.partnerOf p))) := by
  refine relays.add (relays.toBounded.note _ (by simp)) [_] rfl (by simp) ?_
  intro c sv relay steady
  have own := other c sv relay (steady _ (by simp))
  refine ⟨relay.congr rfl rfl, ?_, by simp [Call.echoes]⟩
  simp [bytesQueued, bytesRead, Call.queuedOn, Call.readFrom, own]

/-- A chunk of nobody whose chunks are steady opens a server-side peer, and `reply` is
pushed on a fifo that is not of an older server-side peer. -/
theorem Relays.opened {q : Nat} {bytes : List UInt8} (relays : Relays v) (reply : List UInt8)
    (origin : Option Nat) (type : v.typeOf p = some .client) (inside : q ≤ v.next)
    (other : ∀ c sv, Relay c sv v → (Call.chunk p bytes (v.partnerOf p)).steady c → p ≠ c)
    (apart : ∀ c sv, Relay c sv v → q ≠ sv ∧ (p ≠ c → origin ≠ some c)) :
    Relays (((v.note (.chunk p bytes (v.partnerOf p))).openServer p).note
      (.queued q reply origin)) := by
  have live : (v.actors p).isSome := live_of_type type
  have bounded := relays.toBounded.note (.chunk p bytes (v.partnerOf p)) (by simp)
  refine relays.add ((bounded.openServer live).note _ ?_)
    [.queued q reply origin, .paired v.next p (v.pairedOf v.next) (v.pairedOf p),
      .chunk p bytes (v.partnerOf p)] ?_
    (by simp) ?_
  · intro r bytes' origin' same
    cases same
    exact Nat.lt_succ_of_le inside
  · exact congrArg (List.cons _) (openServer_log _ p)
  · intro c sv relay steady
    have own := other c sv relay (steady _ (by simp))
    obtain ⟨notServer, notOrigin⟩ := apart c sv relay
    have noted : Relay c sv (v.note (.chunk p bytes (v.partnerOf p))) := relay.congr rfl rfl
    refine ⟨(noted.openServer live own (relay.not_server type)).congr rfl rfl, ?_, ?_⟩
    · simp [bytesQueued, bytesRead, Call.queuedOn, Call.readFrom, own, notServer]
    · simp [Call.echoes, notOrigin own]

/-- A steady chunk is forwarded to the server-side peer; any other is somebody else's. -/
theorem Relays.handled {bytes : List UInt8} (relays : Relays v)
    (handled : Handled p bytes (v.note (.chunk p bytes (v.partnerOf p))) v') : Relays v' := by
  have stranger (waits : v.serviceOf p = some .httpProxy → v.typeOf p = some .client →
      ¬ v.Forwards p) (c sv : Nat) (relay : Relay c sv v)
      (steady : (Call.chunk p bytes (v.partnerOf p)).steady c) : p ≠ c := by
    rintro rfl
    obtain ⟨forwards, type, service⟩ := relay.forwards steady
    exact waits service type forwards
  cases handled with
  | @forward q v' type partner written =>
      obtain ⟨paired, server, live, side, _⟩ := typed_of_partner (v := v) partner
      refine (relays.pushed (inside_of_live (by rw [live]; rfl)) ?_).mild written.mild
      intro c sv relay _
      constructor
      · rintro rfl
        refine ⟨relay.fromClient q paired, ?_⟩
        rintro rfl
        simp [(relay.clientSide server live).1] at side
      · intro own same
        exact own (relay.toServer p (same ▸ paired))
  | @back q status v' type partner written =>
      obtain ⟨paired, client, live, side, _⟩ := typed_of_partner (v := v) partner
      refine (relays.pushed (inside_of_live (by rw [live]; rfl)) ?_).mild written.mild
      intro c sv relay _
      refine ⟨fun own => absurd own (relay.not_client type), fun _ => ?_⟩
      rintro rfl
      simp [relay.serverSide client live] at side
  | ignore waits => exact relays.unpushed (stranger waits)
  | delay type waits =>
      refine relays.pushed (inside_of_live (live_of_type type)) ?_
      intro c sv relay steady
      exact ⟨fun own => absurd own (stranger (fun _ _ => waits) c sv relay steady),
        fun _ => relay.not_server type⟩
  | refuse type waits closed =>
      exact (relays.unpushed (stranger fun _ _ => waits)).mild closed.mild
  | request type waits resolved =>
      refine Relays.mild ?_ resolved.mild
      have opened := relays.opened bytes (some p) type (Nat.le_refl _) (stranger fun _ _ => waits) fun c sv relay =>
          ⟨Ne.symm (Nat.ne_of_lt relay.serverInside), fun own same => own (Option.some.inj same)⟩
      have before : bytesQueued v.next v.log = [] := by
        refine bytesQueued_none ?_
        intro call member
        cases call <;> simp only [Call.queuedOn]
        rename_i q _ _
        exact if_neg (Nat.ne_of_lt (relays.queued q _ _ member))
      refine opened.request ?_ ?_
      · have noted := relays.toBounded.note (.chunk p bytes (v.partnerOf p)) (by simp)
        exact (noted.relay_opened type).congr rfl rfl
      · rw [log_note, openServer_log, log_note]
        simpa [note, bytesQueued, Call.queuedOn] using before
  | tunnel type waits resolved =>
      refine Relays.mild ?_ resolved.mild
      exact relays.opened _ none type (Nat.le_of_lt (inside_of_live (live_of_type type)))
        (stranger fun _ _ => waits) fun c sv relay => ⟨relay.not_server type, by simp⟩

theorem Relays.reads (relays : Relays v) (reads : Reads p v v') : Relays v' := by
  induction reads with
  | done => exact relays
  | broken closed => exact relays.mild closed.mild
  | chunk handled _ ih => exact ih (relays.handled handled)

theorem Relays.step (relays : Relays v) (step : Step v v') : Relays v' := by
  obtain mild | ⟨p, reads⟩ := step.mild_or_reads
  · exact relays.mild mild
  · exact relays.reads reads

theorem Relays.init : Relays init := by
  have unpaired (p : Nat) : View.init.pairedOf p = none := by
    by_cases first : p = 0 <;> simp [pairedOf, View.init, first]
  refine ⟨⟨?_, ?_, ?_⟩, ?_⟩
  · intro p q paired
    rw [unpaired] at paired
    cases paired
  · simp [View.init]
  · intro p actor found client
    by_cases first : p = 0
    · simp only [View.init, first, Function.update_self, Option.some.injEq] at found
      rw [← found] at client
      cases client
    · simp [View.init, first] at found
  · simp [View.init]

theorem Reached.relays (reached : Reached v) : Relays v := by
  induction reached with
  | refl => exact .init
  | tail _ step ih => exact ih.step step

end View

/-- From the request that made the server-side peer on, that peer is pushed all the client
sends, while each chunk finds it connected. -/
theorem relay_of_steady {s : Popd} (reachable : system.Reachable s) {client server : Nat}
    {bytes : List UInt8} {later earlier : List Call}
    (split : s.log = later ++ .requested client server bytes :: earlier)
    (steady : ∀ call ∈ later, call.steady client) :
    bytesQueued server s.log = bytes ++ bytesRead client later ∧
      ∀ call ∈ later, call.echoes client = false :=
  ((reachable_view reachable).relays.since client server bytes later earlier split steady).2

/-- A request for a host given by its address, which needs no query. -/
def addressRequest : List UInt8 := Http.ascii "GET http://1.2.3.4/ HTTP/1.1\r\n\r\n"

/-- A client is accepted and reads `addressRequest` and then `abc`, at the call of the
operating system with this number. -/
def relayRun (second : Nat) (events : List Dispatch) : Option Popd :=
  replay (fun n => if n = 1 then { read := addressRequest } else
      if n = second then { read := Http.ascii "abc" } else {})
    (.accept [(5, 1, 2)] false :: .socket 1 true false false :: events)

/-- The entry `x` with `n` later ones divides a log. -/
theorem split_at {log : List Call} {n : Nat} {x : Call} (here : log[n]? = some x) :
    log = log.take n ++ x :: log.drop (n + 1) := by
  obtain ⟨inside, rfl⟩ := List.getElem?_eq_some_iff.mp here
  rw [List.getElem_cons_drop, List.take_append_drop]

/-- `abc` comes when the server is connected. -/
theorem relay_sample : ∃ s, system.Reachable s ∧
    s.log[3]? = some (.requested 1 2 addressRequest) ∧
    bytesQueued 2 s.log = addressRequest ++ bytesRead 1 (s.log.take 3) ∧
    ∀ call ∈ s.log.take 3, call.echoes 1 = false := by
  have runs : (relayRun 7 [.socket 2 false true false, .infoDeal 2, .socket 1 true false false]).map
      (fun s => (s.log[3]?, (s.log.take 3).all (Call.steady 1))) =
        some (some (.requested 1 2 addressRequest), true) := by
    decide +kernel
  obtain ⟨s, ran, facts⟩ := Option.map_eq_some_iff.mp runs
  obtain ⟨here, steady⟩ := Prod.mk.inj facts
  have reachable := replay_reachable ran
  exact ⟨s, reachable, here, relay_of_steady reachable (split_at here) (List.all_eq_true.mp steady)⟩

/-- `abc` comes while the connection to the server is being made, and is pushed on the
fifo of the client. -/
theorem connecting_chunk_is_echoed : ∃ s later earlier, system.Reachable s ∧
    s.log = later ++ .requested 1 2 addressRequest :: earlier ∧
    bytesQueued 2 s.log ≠ addressRequest ++ bytesRead 1 later ∧
    ∃ call ∈ later, call.echoes 1 = true := by
  have runs : (relayRun 5 []).map (fun s => (s.log[2]?,
      decide (bytesQueued 2 s.log ≠ addressRequest ++ bytesRead 1 (s.log.take 2)) &&
        (s.log.take 2).any (Call.echoes 1))) =
      some (some (.requested 1 2 addressRequest), true) := by
    decide +kernel
  obtain ⟨s, ran, facts⟩ := Option.map_eq_some_iff.mp runs
  obtain ⟨here, wrong⟩ := Prod.mk.inj facts
  obtain ⟨lost, echoed⟩ := Bool.and_eq_true_iff.mp wrong
  exact ⟨s, _, _, replay_reachable ran, split_at here, of_decide_eq_true lost,
    List.any_eq_true.mp echoed⟩

end Poplar.Proxy
