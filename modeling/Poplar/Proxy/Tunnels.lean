import Poplar.Proxy.Delivery

/-!
# Tunnels

The answer to CONNECT is pushed on the fifo of the client at once. From there on, while each
chunk of the client finds its server-side peer connected, that peer is pushed what the client
sends, and nothing of the request.
-/
namespace Poplar.Proxy

namespace View

variable {v m v' : View} {p q c sv : Nat} {bytes reply : List UInt8}
variable {calls later earlier : List Call}

/-- The calls push on each server-side peer what they read from its client, if that finds it
connected. -/
structure Carries (v v' : View) (calls : List Call) : Prop where
  log : v'.log = calls ++ v.log
  relay : ∀ c sv, Relay c sv v → (∀ call ∈ calls, call.steady c) →
    Relay c sv v' ∧ bytesQueued sv calls = bytesRead c calls ∧ ∀ call ∈ calls, call.echoes c = false

theorem Mild.carries (mild : Mild v v') :
    ∃ calls, Carries v v' calls ∧ ∀ call ∈ calls, call.quiet := by
  obtain ⟨calls, log, quiet⟩ := mild.log
  have silent (p : Nat) (call : Call) (member : call ∈ calls) :=
    Call.quiet_silent (quiet call member) p
  refine ⟨calls, ⟨log, fun c sv relay _ => ⟨relay.mild mild, ?_, ?_⟩⟩, quiet⟩
  · rw [bytesQueued_none fun call member => (silent sv call member).1,
      bytesRead_none fun call member => (silent c call member).2.1]
  · exact fun call member => (silent c call member).2.2

/-- A chunk read from `p` is pushed on the fifo of `q`. -/
theorem carries_pushed (fits : ∀ c sv, Relay c sv v →
    (Call.chunk p bytes (v.partnerOf p)).steady c → (p = c → q = sv ∧ q ≠ c) ∧ (p ≠ c → q ≠ sv)) :
    Carries v ((v.note (.chunk p bytes (v.partnerOf p))).note (.queued q bytes (some p)))
      [.queued q bytes (some p), .chunk p bytes (v.partnerOf p)] := by
  refine ⟨rfl, fun c sv relay steady => ?_⟩
  obtain ⟨own, other⟩ := fits c sv relay (steady _ (by simp))
  refine ⟨relay.congr rfl rfl, ?_, ?_⟩
  · by_cases same : p = c
    · simp [bytesQueued, bytesRead, Call.queuedOn, Call.readFrom, same, (own same).1]
    · simp [bytesQueued, bytesRead, Call.queuedOn, Call.readFrom, same, other same]
  · by_cases same : p = c
    · simp [Call.echoes, (own same).2]
    · simp [Call.echoes, same]

/-- A chunk of nobody whose chunks are steady is pushed nowhere. -/
theorem carries_unpushed (stranger : ∀ c sv, Relay c sv v →
    (Call.chunk p bytes (v.partnerOf p)).steady c → p ≠ c) :
    Carries v (v.note (.chunk p bytes (v.partnerOf p))) [.chunk p bytes (v.partnerOf p)] := by
  refine ⟨rfl, fun c sv relay steady => ?_⟩
  have own := stranger c sv relay (steady _ (by simp))
  refine ⟨relay.congr rfl rfl, ?_, by simp [Call.echoes]⟩
  simp [bytesQueued, bytesRead, Call.queuedOn, Call.readFrom, own]

/-- A chunk of nobody whose chunks are steady opens a server-side peer. -/
theorem carries_opened (type : v.typeOf p = some .client) (stranger : ∀ c sv, Relay c sv v →
    (Call.chunk p bytes (v.partnerOf p)).steady c → p ≠ c) :
    Carries v ((v.note (.chunk p bytes (v.partnerOf p))).openServer p)
      [.paired v.next p (v.pairedOf v.next) (v.pairedOf p), .chunk p bytes (v.partnerOf p)] := by
  refine ⟨openServer_log _ p, fun c sv relay steady => ?_⟩
  have own := stranger c sv relay (steady _ (by simp))
  have noted : Relay c sv (v.note (.chunk p bytes (v.partnerOf p))) := relay.congr rfl rfl
  have opened := noted.openServer (live_of_type type) own (relay.not_server type)
  refine ⟨opened, ?_, by simp [Call.echoes]⟩
  simp [bytesQueued, bytesRead, Call.queuedOn, Call.readFrom, own]

/-- The bytes of a request go to the peer it opens. -/
theorem carries_requested (type : v.typeOf p = some .client) (stranger : ∀ c sv, Relay c sv v →
    (Call.chunk p bytes (v.partnerOf p)).steady c → p ≠ c) :
    Carries v ((((v.note (.chunk p bytes (v.partnerOf p))).openServer p).note
        (.queued v.next bytes (some p))).note (.requested p v.next bytes))
      [.requested p v.next bytes, .queued v.next bytes (some p),
        .paired v.next p (v.pairedOf v.next) (v.pairedOf p), .chunk p bytes (v.partnerOf p)] := by
  have opens := carries_opened type stranger
  refine ⟨by rw [log_note, log_note, opens.log]; rfl, fun c sv relay steady => ?_⟩
  obtain ⟨kept, pushed, _⟩ := opens.relay c sv relay fun call member =>
    steady call (List.mem_append_right [_, _] member)
  have notServer : v.next ≠ sv := Ne.symm (Nat.ne_of_lt relay.serverInside)
  have notClient : v.next ≠ c := Ne.symm (Nat.ne_of_lt relay.clientInside)
  refine ⟨kept.congr rfl rfl, ?_, ?_⟩
  · simpa [bytesQueued, bytesRead, Call.queuedOn, Call.readFrom, notServer] using pushed
  · simp [Call.echoes, notClient]

/-- What the calls since the answer to CONNECT have done with the bytes of the client. -/
structure Tunnels (v : View) : Prop extends Bounded v where
  since : ∀ c sv reply before later earlier,
    v.log = later ++ .queued c reply none :: .paired sv c none before :: earlier →
    (∀ call ∈ later, call.steady c) →
    Relay c sv v ∧ bytesQueued sv v.log = bytesRead c later ∧ ∀ call ∈ later, call.echoes c = false

/-- Calls that answer no CONNECT keep the account. -/
theorem Tunnels.add (tunnels : Tunnels v) (bounded : Bounded v') (carries : Carries v v' calls)
    (answers : ∀ c reply, .queued c reply none ∉ calls) : Tunnels v' := by
  refine ⟨bounded, ?_⟩
  intro c sv reply before later earlier split steady
  rw [carries.log] at split
  obtain ⟨rest, same, opened⟩ := split_of_append (answers c reply) split
  rw [same] at steady ⊢
  obtain ⟨relay, queued, silent⟩ := tunnels.since c sv reply before rest earlier opened
    fun call member => steady call (List.mem_append_right _ member)
  obtain ⟨relay', pushed, silent'⟩ := carries.relay c sv relay fun call member =>
    steady call (List.mem_append_left _ member)
  refine ⟨relay', ?_, ?_⟩
  · rw [carries.log, bytesQueued_append, bytesRead_append, queued, pushed]
  · intro call member
    rcases List.mem_append.mp member with new | old
    · exact silent' call new
    · exact silent call old

theorem Tunnels.mild (tunnels : Tunnels v) (mild : Mild v v') : Tunnels v' := by
  obtain ⟨calls, carries, quiet⟩ := mild.carries
  refine tunnels.add (tunnels.toBounded.mild mild) carries fun c reply member => ?_
  cases quiet _ member

/-- The peer a client opens with CONNECT is pushed nothing of the request. -/
theorem Tunnels.opened (tunnels : Tunnels v) (type : v.typeOf p = some .client)
    (stranger : ∀ c sv, Relay c sv v → (Call.chunk p bytes (v.partnerOf p)).steady c → p ≠ c) :
    Tunnels (((v.note (.chunk p bytes (v.partnerOf p))).openServer p).note
      (.queued p reply none)) := by
  have inside := inside_of_live (live_of_type type)
  have noted := tunnels.toBounded.note (.chunk p bytes (v.partnerOf p)) (by simp)
  have opens := carries_opened type stranger
  have bounded := noted.openServer (live_of_type type)
  refine ⟨bounded.note _ ?_, ?_⟩
  · rintro _ _ _ ⟨⟩
    exact Nat.lt_succ_of_lt inside
  intro c sv reply' before later earlier split steady
  rw [log_note] at split ⊢
  have push : bytesQueued sv [.queued p reply none] = if p = sv then reply else [] := by
    simp [bytesQueued, Call.queuedOn]
  cases later with
  | nil =>
      rw [opens.log] at split
      simp only [List.nil_append, List.cons_append, List.cons.injEq, Call.queued.injEq,
        Call.paired.injEq] at split
      obtain ⟨⟨rfl, _⟩, ⟨rfl, _⟩, _⟩ := split
      have fresh : bytesQueued v.next v.log = [] := by
        refine bytesQueued_none fun call member => ?_
        cases call <;> simp only [Call.queuedOn]
        exact if_neg (Nat.ne_of_lt (tunnels.queued _ _ _ member))
      refine ⟨(noted.relay_opened type).congr rfl rfl, ?_, by simp⟩
      change bytesQueued v.next ([.queued p reply none] ++ _) = []
      rw [bytesQueued_append, push, if_neg (Nat.ne_of_lt inside), opens.log, bytesQueued_append,
        fresh]
      simp [bytesQueued, Call.queuedOn]
  | cons call later =>
      obtain ⟨first, below⟩ := List.cons.inj split
      have kept := tunnels.add bounded opens (by simp)
      obtain ⟨relay, queued, silent⟩ := kept.since c sv reply' before later earlier below
        fun call member => steady call (List.mem_cons_of_mem _ member)
      have partner : ((v.note (.chunk p bytes (v.partnerOf p))).openServer p).pairedOf p =
          some v.next := by
        rw [pairedOf_openServer (v := v.note _) (live_of_type type)]
        exact Pairings.join_some.mpr (.inl ⟨rfl, rfl⟩)
      obtain ⟨actor, there, _⟩ := Option.bind_eq_some_iff.mp partner
      have apart : p ≠ sv := by
        rintro rfl
        have server := relay.serverSide actor there
        rw [((noted.relay_opened (v := v.note _) type).clientSide actor there).1] at server
        cases server
      rw [← first]
      refine ⟨relay.congr rfl rfl, ?_, ?_⟩
      · change bytesQueued sv ([.queued p reply none] ++ _) = bytesRead c ([_] ++ later)
        rw [bytesQueued_append, bytesRead_append, push, if_neg apart, queued]
        simp [bytesRead, Call.readFrom]
      · intro call' member
        rcases List.mem_cons.mp member with rfl | old
        · simp [Call.echoes]
        · exact silent call' old

theorem Tunnels.handled (tunnels : Tunnels v)
    (handled : Handled p bytes (v.note (.chunk p bytes (v.partnerOf p))) v') : Tunnels v' := by
  have noted := tunnels.toBounded.note (.chunk p bytes (v.partnerOf p)) (by simp)
  have stranger (waits : v.serviceOf p = some .httpProxy → v.typeOf p = some .client →
      ¬ v.Forwards p) (c sv : Nat) (relay : Relay c sv v)
      (steady : (Call.chunk p bytes (v.partnerOf p)).steady c) : p ≠ c := by
    rintro rfl
    obtain ⟨forwards, type, service⟩ := relay.forwards steady
    exact waits service type forwards
  have pushed {q : Nat} (inside : q < v.next) (fits : ∀ c sv, Relay c sv v →
      (Call.chunk p bytes (v.partnerOf p)).steady c → (p = c → q = sv ∧ q ≠ c) ∧ (p ≠ c → q ≠ sv)) :
      Tunnels ((v.note (.chunk p bytes (v.partnerOf p))).note (.queued q bytes (some p))) := by
    refine tunnels.add (noted.note _ ?_) (carries_pushed fits) (by simp)
    rintro _ _ _ ⟨⟩
    exact inside
  have unpushed (stranger : ∀ c sv, Relay c sv v →
      (Call.chunk p bytes (v.partnerOf p)).steady c → p ≠ c) :
      Tunnels (v.note (.chunk p bytes (v.partnerOf p))) :=
    tunnels.add noted (carries_unpushed stranger) (by simp)
  cases handled with
  | @forward q v' type partner written =>
      obtain ⟨paired, server, live, side, _⟩ := typed_of_partner (v := v) partner
      refine (pushed (inside_of_live (by rw [live]; rfl)) fun c sv relay _ => ⟨?_, ?_⟩).mild
        written.mild
      · rintro rfl
        refine ⟨relay.fromClient q paired, ?_⟩
        rintro rfl
        rw [(relay.clientSide server live).1] at side
        cases side
      · intro own same
        exact own (relay.toServer p (same ▸ paired))
  | @back q status v' type partner written =>
      obtain ⟨paired, client, live, side, _⟩ := typed_of_partner (v := v) partner
      refine (pushed (inside_of_live (by rw [live]; rfl)) fun c sv relay _ =>
        ⟨fun own => absurd own (relay.not_client type), fun _ => ?_⟩).mild written.mild
      rintro rfl
      rw [relay.serverSide client live] at side
      cases side
  | ignore waits => exact unpushed (stranger waits)
  | delay type waits =>
      refine pushed (inside_of_live (live_of_type type)) fun c sv relay steady => ⟨?_, ?_⟩
      · exact fun own => absurd own (stranger (fun _ _ => waits) c sv relay steady)
      · exact fun _ => relay.not_server type
  | refuse type waits closed => exact (unpushed (stranger fun _ _ => waits)).mild closed.mild
  | request type waits resolved =>
      refine Tunnels.mild ?_ resolved.mild
      refine tunnels.add (((noted.openServer (live_of_type type)).note _ ?_).note _ (by simp))
        (carries_requested type (stranger fun _ _ => waits)) (by simp)
      rintro _ _ _ ⟨⟩
      exact Nat.lt_succ_self _
  | tunnel type waits resolved =>
      exact (tunnels.opened type (stranger fun _ _ => waits)).mild resolved.mild

theorem Tunnels.reads (tunnels : Tunnels v) (reads : Reads p v v') : Tunnels v' := by
  induction reads with
  | done => exact tunnels
  | broken closed => exact tunnels.mild closed.mild
  | chunk handled _ ih => exact ih (tunnels.handled handled)

theorem Reached.tunnels (reached : Reached v) : Tunnels v := by
  induction reached with
  | refl =>
      refine ⟨Relays.init.toBounded, fun c sv reply before later earlier split => ?_⟩
      cases later <;> cases split
  | tail _ step ih =>
      obtain mild | ⟨p, reads⟩ := step.mild_or_reads
      · exact ih.mild mild
      · exact ih.reads reads

end View

/-- From the answer to CONNECT on, and while the server-side peer is there, what `write` took for
it and what waits in its fifo are what the client sent since, in order, as long as each chunk
finds that peer connected. Nothing is pushed back to the client. -/
theorem tunnel_of_steady {s : Popd} (reachable : system.Reachable s) {client server : Nat}
    {reply : List UInt8} {before : Option Nat} {later earlier : List Call}
    (split : s.log =
      later ++ .queued client reply none :: .paired server client none before :: earlier)
    (steady : ∀ call ∈ later, call.steady client) (live : (s.peers server).isSome) :
    s.sent server ++ s.pending server = bytesRead client later ∧
      ∀ call ∈ later, call.echoes client = false := by
  obtain ⟨_, queued, silent⟩ := (reachable_view reachable).tunnels.since client server reply before
    later earlier split steady
  rw [← queued]
  exact ⟨sent_of_reachable reachable live, silent⟩

def connectRequest : List UInt8 := Http.ascii "CONNECT 1.2.3.4:443 HTTP/1.1\r\n\r\n"

/-- The client of a tunnel sends `abcdef`, of which the server's socket takes four bytes. -/
theorem tunnel_of_steady_sample : ∃ s, system.Reachable s ∧ s.pending 2 = Http.ascii "ef" ∧
    s.sent 2 = Http.ascii "abcd" ∧ s.sent 2 ++ s.pending 2 = bytesRead 1 (s.log.take 3) ∧
    ∀ call ∈ s.log.take 3, call.echoes 1 = false := by
  have runs : (replay (fun n => if n = 1 then { read := connectRequest } else
      if n = 7 then { read := Http.ascii "abcdef" } else { write := some 2 })
      [.accept [(5, 1, 2)] false, .socket 1 true false false, .socket 2 false true false,
        .infoDeal 2, .socket 1 true false false, .socket 2 false true false]).map
      (fun s => ((s.log[3]?, s.log[4]?), (s.pending 2, s.sent 2),
        (s.log.take 3).all (Call.steady 1), (s.peers 2).isSome)) =
        some ((some (.queued 1 HTTP_METHOD_CONNECT_ESTABLISHED none),
          some (.paired 2 1 none none)), (Http.ascii "ef", Http.ascii "abcd"), true, true) := by
    decide +kernel
  obtain ⟨s, ran, facts⟩ := Option.map_eq_some_iff.mp runs
  obtain ⟨entries, facts⟩ := Prod.mk.inj facts
  obtain ⟨answer, opened⟩ := Prod.mk.inj entries
  obtain ⟨bytes, facts⟩ := Prod.mk.inj facts
  obtain ⟨waits, took⟩ := Prod.mk.inj bytes
  obtain ⟨steady, live⟩ := Prod.mk.inj facts
  obtain ⟨inside, here⟩ := List.getElem?_eq_some_iff.mp opened
  have below : s.log.drop 4 = .paired 2 1 none none :: s.log.drop 5 := by
    rw [List.drop_eq_getElem_cons inside, here]
  have split := split_at answer
  rw [below] at split
  have reachable := replay_reachable ran
  exact ⟨s, reachable, waits, took,
    tunnel_of_steady reachable split (List.all_eq_true.mp steady) live⟩

end Poplar.Proxy
