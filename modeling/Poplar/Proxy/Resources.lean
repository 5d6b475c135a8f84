import Poplar.Proxy.Holdings
import Poplar.Proxy.Relay

/-!
# Sockets, events and timers of server peers in runs

Events of the state machine may reach a server peer in any order, between any other events of
the daemon. Two answers of the operating system break what the statuses promise, and one row
of the table.
-/
namespace Poplar.Proxy

open Effects Poplar.Domain

/-- Holdings that are right stay so, if the answers taken are as `C` says. -/
structure Keeps (C : Answer → Prop) (s s' : Popd) : Prop where
  calls : s.calls ≤ s'.calls
  answers : s'.answers = s.answers
  right : (∀ n, s.calls ≤ n → n < s'.calls → C (s.answers n)) →
    s.held.Right (fun _ => False) → s'.held.Right fun _ => False

theorem Keeps.of_held {C : Answer → Prop} {s s' : Popd}
    (taken : s.calls ≤ s'.calls ∧ s'.answers = s.answers) (same : s'.held = s.held) :
    Keeps C s s' where
  calls := taken.1
  answers := taken.2
  right _ right := same.symm ▸ right

theorem keepsCalm (C : Answer → Prop) : Calm (Keeps C) where
  refl s := Keeps.of_held (callsFrame.refl s) rfl
  trans := by
    intro s m s' first second
    constructor
    · exact first.calls.trans second.calls
    · exact second.answers.trans first.answers
    · intro plain right
      apply second.right
      · intro n after before
        rw [first.answers]
        exact plain n (first.calls.trans after) before
      · apply first.right _ right
        intro n after before
        exact plain n after (before.trans_le second.calls)
  put := by
    intro s p peer peer' found same
    apply Keeps.of_held
    · exact callsFrame.calm.put found same
    · exact heldCalm.put found same
  aside := by
    intro s s' peers next list cache answers calls
    apply Keeps.of_held
    · exact callsFrame.aside peers next cache answers calls
    · exact heldCalm.aside peers next list cache answers calls

theorem eventSet_keeps (C : Answer → Prop) (p : Nat) (func : EventFunc) (write : Bool) :
    Within (Keeps C) (eventSet p func write) := by
  intro s u s' runs
  obtain ⟨calls, answers⟩ := callsFrame.eventSet _ _ _ _ _ _ runs
  refine ⟨calls, answers, fun _ right => ?_⟩
  obtain ⟨allowed, held, _⟩ := eventSet_held runs
  rw [held]
  apply right.turn
  · intro h
    exact Holding.register_proxied
  · intro h _ nonzero sound
    rw [sound.register]
    exact ⟨nonzero, sound⟩

theorem keepsRoutine (C : Answer → Prop) : Routine (Keeps C) where
  toCalm := keepsCalm C
  eventSet := eventSet_keeps C
  success := by
    intro p s u s' runs
    obtain ⟨calls, answers⟩ := callsFrame.popTcpClientEvent _ _ _ _ _ runs
    exact ⟨calls, answers, fun _ right => event_right runs nofun nofun right⟩
  closePeer := by
    intro p s u s' runs
    obtain ⟨calls, answers⟩ := callsFrame.popTcpClosePeer _ _ _ _ runs
    refine ⟨calls, answers, fun _ right => ?_⟩
    exact closePeer_right runs (right.mono fun _ none => none.elim)

theorem popPeerDelete_keeps (C : Answer → Prop) (p : Nat) : Within (Keeps C) (popPeerDelete p) := by
  intro s u s' runs
  have frees (q : Nat) : Within (fun s s' => s.calls ≤ s'.calls ∧ s'.answers = s.answers)
      (free q) := by
    intro s u s' runs
    obtain ⟨peer, found, rfl⟩ := free_finds runs
    exact ⟨le_rfl, rfl⟩
  obtain ⟨calls, answers⟩ := callsFrame.popPeerDelete frees p _ _ _ runs
  refine ⟨calls, answers, fun _ right => ?_⟩
  obtain ⟨_, m₁, noted, rest⟩ := runs_bind runs
  obtain ⟨_, m₂, disarmed, rest⟩ := runs_bind rest
  obtain ⟨_, m₃, cancelled, rest⟩ := runs_bind rest
  obtain ⟨_, m₄, unlisted, rest⟩ := runs_bind rest
  obtain ⟨_, m₅, dropped, rest⟩ := runs_bind rest
  have before : m₁.held.Right fun _ => False := heldCalm.note _ _ _ _ noted ▸ right
  have half : m₃.held.Right fun q => q = p := by
    rw [heldCalm.popTcpCanclePaired _ _ _ _ cancelled, store_held (g := fun h =>
      { h with tHoldtime := false, watched := none, tConnectingTimer := false })
        (fun _ => rfl) disarmed]
    apply Held.Right.change
    · exact before.mono fun _ none => none.elim
    · intro h here proxied
      exact ⟨(before p h here proxied).1, fun busy => absurd rfl busy⟩
  have unlists : m₄.held = m₃.held.relist (m₃.held.list.erase p) := by
    rw [runs_modify unlisted]
    rfl
  have out : m₅.held.Right fun q => q = p := by
    rw [heldCalm.dnsWaitAckQueueDel _ _ _ _ dropped, unlists]
    apply half.relist
    intro q different there
    exact (List.mem_erase_of_ne different).mpr there
  obtain ⟨peer, found, rfl⟩ := free_finds rest
  rw [held_put]
  apply Held.Right.set
  · exact out.mono fun _ here => Or.inr here
  · intro h there
    cases there

theorem popTcpClientConnectExpired_keeps (C : Answer → Prop) (p : Nat) :
    Within (Keeps C) (popTcpClientConnectExpired p) := by
  intro s u s' runs
  obtain ⟨_, m, stopped, closed⟩ := runs_bind runs
  obtain ⟨calls, answers⟩ := callsFrame.routine.popTcpClosePairedPeer _ _ _ _ closed
  have held := store_held (g := fun h => { h with tConnectingTimer := false }) (fun _ => rfl) stopped
  obtain ⟨peer, found, rfl⟩ := store_finds stopped
  refine ⟨calls, answers, fun _ right => closePairedPeer_right closed ?_⟩
  rw [held]
  apply Held.Right.change
  · exact right.mono fun _ none => none.elim
  · intro h here proxied
    exact ⟨(right p h here proxied).1, fun busy => absurd rfl busy⟩

/-! ## New peers -/

theorem popPeerNew_held {s s' : Popd} {p : Nat} (runs : popPeerNew s = .ok (p, s')) :
    s'.held = s.held.set p (some (Peer.holding {})) ∧ s'.calls = s.calls ∧
      s'.answers = s.answers := by
  cases runs
  refine ⟨?_, rfl, rfl⟩
  unfold Held.set
  rw [Popd.held, Held.mk.injEq]
  refine ⟨?_, rfl⟩
  funext q
  change (Function.update s.peers s.next (some {}) q).map Peer.holding = _
  by_cases here : q = s.next
  · subst here
    rw [Function.update_self, Function.update_self, Option.map_some]
  · rw [Function.update_of_ne here, Function.update_of_ne here, held_of]

theorem popRemoteServerPeerMake_keeps (C : Answer → Prop) (host : Http.HostPort) :
    Within (Keeps C) (popRemoteServerPeerMake host) := by
  intro s p s' runs
  obtain ⟨q, m, made, rest⟩ := runs_bind runs
  obtain ⟨_, m', set, rest⟩ := runs_bind rest
  obtain ⟨rfl, rfl⟩ := runs_pure rest
  obtain ⟨held, calls, answers⟩ := popPeerNew_held made
  obtain ⟨peer, found, rfl⟩ := store_finds set
  have blank : peer.holding = Peer.holding {} := by
    have here := held_found found
    rw [held, Held.set_self] at here
    exact (Option.some.inj here).symm
  refine ⟨calls.ge, answers, fun _ right => ?_⟩
  rw [held_put, held]
  apply Held.Right.set
  · apply Held.Right.set
    · exact right.mono fun _ none => none.elim
    · intro h there proxied
      cases there
      cases proxied.1
  · intro h there _
    cases there
    have closed : peer.sockfd = -1 := congrArg Holding.sockfd blank
    refine ⟨fun zero => (by cases closed.symm.trans zero), fun _ => ⟨closed, ?_, ?_, ?_⟩⟩
    · exact congrArg Holding.watched blank
    · exact congrArg Holding.tConnectingTimer blank
    · exact congrArg Holding.tHoldtime blank

section Made

variable (C : Answer → Prop)

theorem popPeerNew_keeps : Within (Keeps C) popPeerNew := by
  intro s p s' runs
  obtain ⟨held, calls, answers⟩ := popPeerNew_held runs
  refine ⟨calls.ge, answers, fun _ right => ?_⟩
  rw [held]
  apply Held.Right.set
  · exact right.mono fun _ none => none.elim
  · intro h there proxied
    cases there
    cases proxied.1

/-- A store that changes nothing a status promises, or makes no server peer. -/
theorem store_keeps (p : Nat) {f : Peer → Peer} {g : Holding → Holding}
    (acts : ∀ peer, (f peer).holding = g peer.holding)
    (here : ∀ h, (g h).Proxied → h.Proxied ∧ (g h).sockfd = h.sockfd ∧
      ∀ listed, h.Sound listed → (g h).Sound listed) : Within (Keeps C) (store p f) := by
  intro s u s' runs
  have held := store_held acts runs
  obtain ⟨peer, found, rfl⟩ := store_finds runs
  refine ⟨le_rfl, rfl, fun _ right => ?_⟩
  rw [held]
  apply Held.Right.change
  · exact right.mono fun _ none => none.elim
  · intro h there proxied
    obtain ⟨before, same, kept⟩ := here h proxied
    obtain ⟨nonzero, sound⟩ := right p h there before
    exact ⟨same ▸ nonzero, fun free => kept _ (sound free)⟩

theorem popHttpProxyServerPeerConnect_keeps (sock addr : Nat) (port : Int) :
    Within (Keeps C) (popHttpProxyServerPeerConnect sock addr port) := by
  have calm := keepsCalm C
  apply calm.bind (popPeerNew_keeps C)
  intro p
  apply calm.bind
  · apply store_keeps C p (g := fun h =>
      { h with
        sockfd := sock
        identity := { h.identity with
          remoteHostip := addr
          remotePort := some port
          remoteAddr := addr
          serviceType := .httpProxy
          tcpPeerType := .client } })
    · intro peer
      rfl
    · intro h proxied
      cases proxied.2
  · intro _
    apply calm.bind (eventSet_keeps C _ _ _)
    intro _
    apply calm.bind
    · intro s u s' runs
      have held : s'.held = s.held.relist (s.held.list ++ [p]) := by
        rw [runs_modify runs]
        rfl
      rw [runs_modify runs] at held ⊢
      refine ⟨le_rfl, rfl, fun _ right => ?_⟩
      rw [held]
      exact right.relist fun q _ there => List.mem_append_left [p] there
    · intro _
      exact calm.popTcpServerEventAdd p _

theorem cache_keeps {f : Popd → Popd} (held : ∀ s, (f s).held = s.held)
    (calls : ∀ s, (f s).calls = s.calls) (answers : ∀ s, (f s).answers = s.answers) :
    Within (Keeps C) (modify f : Daemon PUnit) := by
  intro s u s' runs
  rw [runs_modify runs]
  exact Keeps.of_held ⟨(calls s).ge, answers s⟩ (held s)

end Made

section Started

variable {C : Answer → Prop} (plain : ∀ answer, C answer → answer.Plain)

include plain

theorem start_keeps (p : Nat) : Within (Keeps C) (popTcpClientEvent p .start) := by
  intro s u s' runs
  obtain ⟨calls, answers⟩ := callsFrame.popTcpClientEvent _ _ _ _ _ runs
  refine ⟨calls, answers, fun met right => event_right runs (fun _ => ?_) nofun right⟩
  rintro ⟨n, later, earlier, refused⟩
  exact refused (plain _ (met n later earlier))

theorem domainParseHost_keeps (p : Nat) (dropExpired : Bool) :
    Within (Keeps C) (domainParseHost p dropExpired) := by
  have routine := keepsRoutine C
  have starts : Within (Keeps C) (do
      popTcpClientEvent p .start
      return (0 : Int)) := routine.bind (start_keeps plain p) fun _ => routine.pure _
  have looksUp := routine.popGetHostByNameUnblock p
  apply routine.bind (routine.load p)
  intro peer
  split
  · exact starts
  · apply routine.bind routine.ask
    intro answer
    apply routine.bind routine.get
    intro state
    cases dnsCacheLookupByHostname state.dnsCache peer.remoteHostname with
    | none => exact looksUp
    | some result =>
        dsimp only
        split
        · apply routine.bind
          · apply store_keeps C p (g := fun h =>
              { h with identity := { h.identity with
                  remoteHostip := result.address, remoteAddr := result.address } })
            · intro peer
              rfl
            · intro h proxied
              exact ⟨proxied, rfl, fun _ sound => sound⟩
          · intro _
            exact routine.bind (cache_keeps C (fun _ => rfl) (fun _ => rfl) fun _ => rfl)
              fun _ => starts
        · split
          · exact routine.bind (cache_keeps C (fun _ => rfl) (fun _ => rfl) fun _ => rfl)
              fun _ => looksUp
          · exact looksUp

theorem popUdpRecvDnsQueryAck_keeps (payload : List UInt8) (fromAddr : Nat) (fromPort : Int) :
    Within (Keeps C) (popUdpRecvDnsQueryAck payload fromAddr fromPort) := by
  have routine := keepsRoutine C
  apply routine.bind routine.get
  intro state
  apply routine.bind (routine.load _)
  intro client
  split
  · exact routine.pure _
  · apply routine.bind routine.ask
    intro answer
    apply routine.bind (routine.call _)
    intro parsed
    cases parsed with
    | none => exact routine.pure _
    | some result =>
        apply routine.bind routine.get
        intro state
        cases dnsWaitAckQueueLookupByID state.dnsAckWaitQueue result.transactionID with
        | none => exact routine.pure _
        | some server =>
            refine routine.bind (routine.note _) fun _ =>
              routine.bind (routine.dnsWaitAckQueueDel _) fun _ =>
                routine.bind (routine.store _ fun _ => rfl) fun _ => ?_
            split
            · exact routine.pure _
            · apply routine.bind
              · apply store_keeps C server (g := fun h =>
                  { h with identity := { h.identity with
                      remoteAddr := result.address, remoteHostip := result.address } })
                · intro peer
                  rfl
                · intro h proxied
                  exact ⟨proxied, rfl, fun _ sound => sound⟩
              · intro _
                apply routine.bind (start_keeps plain server)
                intro _
                apply routine.bind routine.get
                intro state
                dsimp only
                split
                · exact cache_keeps C (fun _ => rfl) (fun _ => rfl) fun _ => rfl
                · exact cache_keeps C (fun _ => rfl) (fun _ => rfl) fun _ => rfl

theorem keepsCourse : Course (Keeps C) where
  toRoutine := keepsRoutine C
  lookup := domainParseHost_keeps plain
  make := popRemoteServerPeerMake_keeps C
  connect := popHttpProxyServerPeerConnect_keeps C
  delete := popPeerDelete_keeps C
  expire := popTcpClientConnectExpired_keeps C
  answer := popUdpRecvDnsQueryAck_keeps plain
  check := (keepsCalm C).bind (keepsCalm C).ask fun _ =>
    cache_keeps C (fun _ => rfl) (fun _ => rfl) fun _ => rfl

end Started

/-! ## Runs -/

/-- The daemon handles an event, or `pop_tcp_client_event` delivers one to a server peer. -/
inductive FsmOp where
  | dispatched (event : Dispatch)
  | delivered (p : Nat) (event : TcpClientEvent)
  deriving DecidableEq, Repr

def FsmOp.run : FsmOp → Daemon Unit
  | .dispatched event => dispatch event
  | .delivered p event => popTcpClientEvent p event

/-- An http-proxy peer on the side of the server. -/
def Popd.proxied (s : Popd) (p : Nat) : Bool :=
  ((s.peers p).map fun peer =>
    peer.serviceType == .httpProxy && peer.tcpPeerType == .server).getD false

def Popd.admits (s : Popd) : FsmOp → Bool
  | .dispatched event => s.enabled event
  | .delivered p _ => s.proxied p

/-- The daemon under any order of events, those of the state machine between them. -/
def fsmSystem : Runs.System Popd FsmOp Fault where
  start := system.start
  guard s op := s.admits op = true
  exec op s := (op.run s).map Prod.snd

theorem fsm_runs {op : FsmOp} {s s' : Popd} (executes : fsmSystem.exec op s = .ok s') :
    ∃ u, op.run s = .ok (u, s') := by
  cases ran : op.run s with
  | error fault => simp [fsmSystem, ran, Except.map] at executes
  | ok result =>
      simp only [fsmSystem, ran, Except.map, Except.ok.injEq] at executes
      exact ⟨result.1, executes ▸ rfl⟩

/-- What may start a connection: a request read from a client, an answer of the name server, or
the event itself. -/
def FsmOp.mayStart : FsmOp → Bool
  | .dispatched (.socket _ _ _ _) => true
  | .dispatched (.datagram _ _ _) => true
  | .delivered _ .start => true
  | _ => false

/-- Where something may start, the operating system hands out no descriptor 0 and refuses no
registration; and hold-timer expired is not delivered in Connect. -/
structure Careful (s : Popd) (op : FsmOp) : Prop where
  plain : op.mayStart = true → ∀ s', fsmSystem.exec op s = .ok s' → ¬ Disturbed s s'
  heeded : ∀ p, op = .delivered p .holdtimerExpired → ∀ peer, s.peers p = some peer →
    peer.tcpClientStatus ≠ .connect

/-- What does not start keeps the promises under any answers. -/
theorem dispatched_keeps (event : Dispatch) (idle : (FsmOp.dispatched event).mayStart = false) :
    Within (Keeps fun _ => True) (dispatch event) := by
  have routine := keepsRoutine fun _ => True
  cases event with
  | accept clients broken =>
      exact routine.popHttpProxyTcpServerAccept (popHttpProxyServerPeerConnect_keeps _) clients broken
  | socket => cases idle
  | connectExpired p => exact popTcpClientConnectExpired_keeps _ p
  | dnsWaitAckTimeout p => exact routine.dnsWaitAckTimeoutCall p
  | infoDeal p => exact routine.infoDeal (popPeerDelete_keeps _) p
  | datagram => cases idle
  | cacheCheck =>
      exact routine.bind routine.ask fun _ =>
        cache_keeps _ (fun _ => rfl) (fun _ => rfl) fun _ => rfl

theorem careful_right {s s' : Popd} {op : FsmOp} (careful : Careful s op)
    (executes : fsmSystem.exec op s = .ok s') (right : s.held.Right fun _ => False) :
    s'.held.Right fun _ => False := by
  obtain ⟨u, runs⟩ := fsm_runs executes
  cases op with
  | dispatched event =>
      cases starts : (FsmOp.dispatched event).mayStart with
      | true =>
          have undisturbed := careful.plain starts s' executes
          apply ((keepsCourse fun _ => id).dispatch event s u s' runs).right _ right
          intro n later earlier
          by_contra refused
          exact undisturbed ⟨n, later, earlier, refused⟩
      | false =>
          exact (dispatched_keeps event starts s u s' runs).right (fun _ _ _ => trivial) right
  | delivered p event =>
      apply event_right runs _ _ right
      · rintro rfl
        exact careful.plain rfl s' executes
      · rintro rfl
        exact careful.heeded p rfl

theorem start_held_right {s : Popd} (starts : fsmSystem.start s) :
    s.held.Right fun _ => False := by
  obtain ⟨sockfd, answers, rfl⟩ := starts
  intro p h found proxied
  rw [held_of] at found
  obtain ⟨peer, here, rfl⟩ := Option.map_eq_some_iff.mp found
  change Function.update (fun _ => none) 0 (some (dnsClient sockfd)) p = some peer at here
  by_cases first : p = 0
  · subst first
    rw [Function.update_self] at here
    cases here
    cases proxied.1
  · rw [Function.update_of_ne first] at here
    cases here

theorem sound_of_right {s : Popd} (right : s.held.Right fun _ => False) : s.Sound := by
  intro p h found proxied
  exact (right p h found proxied).2 id

/-- In a run whose commands are careful, every server peer holds what its status promises in every
state the run goes through. -/
theorem resources_of_careful {s : Popd} (starts : fsmSystem.start s) {ops : List FsmOp}
    (careful : fsmSystem.Each Careful ops s) : fsmSystem.Every Popd.Sound ops s := by
  have keeps : ∀ m op m', m.held.Right (fun _ => False) → fsmSystem.guard m op → Careful m op →
      fsmSystem.exec op m = .ok m' → m'.held.Right fun _ => False := by
    intro m op m' right _ careful executes
    exact careful_right careful executes right
  exact Runs.System.every_of_each (fun _ right => sound_of_right right) keeps
    (start_held_right starts) careful

/-- An operating system that always gives plain answers makes every run careful in which nobody
delivers hold-timer expired. -/
theorem careful_of_plain {s : Popd} (plain : ∀ n, (s.answers n).Plain) {ops : List FsmOp}
    (heeded : ∀ p, FsmOp.delivered p .holdtimerExpired ∉ ops) : fsmSystem.Each Careful ops s := by
  induction ops generalizing s with
  | nil => trivial
  | cons op ops ih =>
      intro s' _ executes
      obtain ⟨u, runs⟩ := fsm_runs executes
      have same : s'.answers = s.answers := by
        cases op with
        | dispatched event => exact ((keepsCourse fun _ => id).dispatch event s u s' runs).answers
        | delivered p event => exact (callsFrame.popTcpClientEvent p event s u s' runs).2
      refine ⟨⟨fun _ m' _ => ?_, fun p delivers => ?_⟩, ih (fun n => same ▸ plain n) fun p there => ?_⟩
      · rintro ⟨n, _, _, refused⟩
        exact refused (plain n)
      · exact absurd (delivers ▸ List.mem_cons_self) (heeded p)
      · exact heeded p (List.mem_cons_of_mem _ there)

/-- A client is accepted and its request read, which starts a connection to the server. -/
def startedRun : List FsmOp :=
  [.dispatched (.accept [(5, 1, 2)] false), .dispatched (.socket 1 true false false)]

def requestAnswers (n : Nat) : Answer := if n = 1 then { read := addressRequest } else {}

theorem requestAnswers_plain (n : Nat) : (requestAnswers n).Plain := by
  unfold requestAnswers
  split <;> exact ⟨by decide, rfl⟩

/-- What peer 2 holds after a run, and whether the list has it. -/
def heldAfter (ops : List FsmOp) : Option (Option Holding × Bool) :=
  (fsmSystem.replay Popd.admits id ops (popInit 3 requestAnswers)).map fun s =>
    (s.held.of 2, s.pairedPeerTcpList.contains 2)

/-- A connection to 1.2.3.4 at the default port. -/
def serverHolding (status : TcpClientStatus) (timer : Bool) : Holding where
  identity := ⟨.httpProxy, .server, 0x01020304, some 80, Http.ascii "1.2.3.4", 0x01020304⟩
  tcpClientStatus := status
  sockfd := 9
  watched := some 9
  tConnectingTimer := timer
  tHoldtime := false

theorem heldAfter_reaches {ops : List FsmOp} {h : Holding} {listed : Bool}
    (ran : heldAfter ops = some (some h, listed)) :
    ∃ s, fsmSystem.replay Popd.admits id ops (popInit 3 requestAnswers) = some s ∧
      s.held.of 2 = some h := by
  obtain ⟨s, replayed, facts⟩ := Option.map_eq_some_iff.mp ran
  exact ⟨s, replayed, (Prod.mk.inj facts).1⟩

theorem sound_reached {ops : List FsmOp} {s s' : Popd} (every : fsmSystem.Every Popd.Sound ops s)
    (replayed : fsmSystem.replay Popd.admits id ops s = some s') : s'.Sound := by
  apply Runs.System.Every.replay (fun _ _ admitted => admitted) _ replayed
  rw [List.map_id]
  exact every

/-- The connection succeeds. -/
def establishedRun : List FsmOp := startedRun ++ [.dispatched (.socket 2 false true false)]

theorem resources_established : ∃ s,
    fsmSystem.replay Popd.admits id establishedRun (popInit 3 requestAnswers) = some s ∧
      s.held.of 2 = some (serverHolding .establish false) ∧ s.Sound := by
  have ran : heldAfter establishedRun = some (some (serverHolding .establish false), true) := by
    decide +kernel
  obtain ⟨s, replayed, here⟩ := heldAfter_reaches ran
  have starts : fsmSystem.start (popInit 3 requestAnswers) := ⟨3, requestAnswers, rfl⟩
  have careful : fsmSystem.Each Careful establishedRun (popInit 3 requestAnswers) := by
    apply careful_of_plain requestAnswers_plain
    intro p
    simp [establishedRun, startedRun]
  exact ⟨s, replayed, here, sound_reached (resources_of_careful starts careful) replayed⟩

/-- Hold-timer expired makes a connecting peer idle, with its socket, its event and its timer. -/
def expiredRun : List FsmOp := startedRun ++ [.delivered 2 .holdtimerExpired]

theorem expired_leaves_connection :
    ¬ ∀ s, fsmSystem.start s → ∀ ops, fsmSystem.Every Popd.Sound ops s := by
  intro all
  have ran : heldAfter expiredRun = some (some (serverHolding .idle true), false) := by
    decide +kernel
  obtain ⟨s, replayed, here⟩ := heldAfter_reaches ran
  have starts : fsmSystem.start (popInit 3 requestAnswers) := ⟨3, requestAnswers, rfl⟩
  have sound := sound_reached (all _ starts expiredRun) replayed
  have idle : (serverHolding .idle true).sockfd = -1 := (sound 2 _ here ⟨rfl, rfl⟩).1
  cases idle

end Poplar.Proxy
