import Poplar.Proxy.Waiting

/-!
# Idle server-side peers are waited for

A server-side peer that is idle and paired is in the queue with its timer set, unless one
of four things happened to it: an answer without an address, a connection that failed at
once, an identifier that another peer had too when it was queued, or when it was released.
-/
namespace Poplar.Proxy

/-- The call leaves the paired peer `p` to nobody. -/
def Call.strands (p : Nat) : Call → Bool
  | .answered q address (some _) => q = p && address = 0
  | .connectFailed q (some _) => q = p
  | .waitAdded q (some _) => q = p
  | .waitDropped q (some (r, some _)) => q ≠ p && r = p
  | _ => false

namespace View

variable {v m v' : View} {p q : Nat}

/-- A server-side peer that is idle and paired is queued or was left to nobody. -/
def Attended (v : View) (p : Nat) : Prop :=
  v.typeOf p = some .server → v.statusOf p = some .idle → (v.pairedOf p).isSome →
    v.queue.Stores p ∨ ∃ call ∈ v.log, call.strands p

/-! ## Statuses -/

theorem statusOf_modify {f : Actor → Actor}
    (same : ∀ actor, (f actor).tcpClientStatus = actor.tcpClientStatus) :
    (v.modify p f).statusOf q = v.statusOf q :=
  map_modify v p q same

theorem statusOf_other {f : Actor → Actor} (other : q ≠ p) :
    (v.modify p f).statusOf q = v.statusOf q := by
  rw [statusOf, modify_actors, Function.update_of_ne other, statusOf]

theorem statusOf_cancel : (v.cancel p).statusOf q = v.statusOf q := by
  unfold cancel
  cases v.pairedOf p <;> simp [unpair, statusOf_modify]

theorem statusOf_closePeer (other : q ≠ p) : (v.closePeer p).statusOf q = v.statusOf q := by
  have left (w : View) (f : Actor → Actor) : (w.modify p f).statusOf q = w.statusOf q :=
    statusOf_other other
  have noted (w : View) (call : Call) : (w.note call).statusOf q = w.statusOf q := rfl
  unfold closePeer
  split
  · simp only [stop, setStatus, teardown, clientInfo, forgetInfo, left, noted, statusOf_cancel]
  · simp only [close, teardown, serverInfo, forgetInfo, left, noted, statusOf_cancel]

theorem statusOf_start (connects : Bool) (other : q ≠ p) :
    (v.start p connects).statusOf q = v.statusOf q := by
  have left (w : View) (f : Actor → Actor) : (w.modify p f).statusOf q = w.statusOf q :=
    statusOf_other other
  have noted (w : View) (call : Call) : (w.note call).statusOf q = w.statusOf q := rfl
  cases connects
  · simp [start, teardown, clientInfo, left, noted]
  · simp [start, setStatus, left]

/-! ## The operations -/

/-- The peer was idle and paired before, and stays queued if it was. -/
theorem Attended.keep (attended : v.Attended p)
    (type : v'.typeOf p = some .server → v.typeOf p = some .server)
    (status : v'.statusOf p = v.statusOf p)
    (paired : (v'.pairedOf p).isSome → (v.pairedOf p).isSome)
    (queue : (v'.pairedOf p).isSome → v.queue.Stores p →
      v'.queue.Stores p ∨ ∃ call ∈ v'.log, call.strands p)
    (log : ∃ calls, v'.log = calls ++ v.log) : v'.Attended p := by
  intro server idle partner
  rcases attended (type server) (status ▸ idle) (paired partner) with stored | ⟨call, member, strands⟩
  · exact queue partner stored
  · obtain ⟨calls, same⟩ := log
    exact .inr ⟨call, same ▸ List.mem_append_right _ member, strands⟩

/-- Whatever is closed has no partner then. -/
theorem Attended.closePeer (attended : p ≠ q → v.Attended p) : (v.closePeer q).Attended p := by
  by_cases here : p = q
  · intro _ _ paired
    rw [here, pairedOf_closePeer, Pairings.cancel_self] at paired
    cases paired
  · refine (attended here).keep ?_ (statusOf_closePeer here) ?_ ?_ ⟨[_], log_closePeer v q⟩
    · rw [typeOf_congr (congrFun identity_closePeer p)]
      exact id
    · intro paired
      obtain ⟨partner, there⟩ := Option.isSome_iff_exists.mp paired
      rw [pairedOf_closePeer] at there
      rw [(Pairings.cancel_some.mp there).2.2]
      rfl
    · intro _ stored
      rw [queue_closePeer]
      exact .inl stored

/-- A peer that starts to connect is not idle, or it failed. -/
theorem Attended.started (attended : p ≠ q → v.Attended p) (started : Started q v v') :
    v'.Attended p := by
  have others (connects : Bool) (other : p ≠ q) : (v.start q connects).Attended p := by
    refine (attended other).keep ?_ (statusOf_start connects other) ?_ ?_ ?_
    · rw [typeOf_congr (congrFun (identity_start connects) p)]
      exact id
    · rw [pairedOf_start]
      exact id
    · intro _ stored
      rw [queue_start]
      exact .inl stored
    · cases connects with
      | true => exact ⟨[], rfl⟩
      | false => exact ⟨[_, _], log_fails v q⟩
  by_cases here : p = q
  · subst here
    cases started with
    | connects =>
        intro _ idle _
        rw [statusOf, start, if_pos rfl, setStatus, modify_actors, Function.update_self,
          Option.map_map] at idle
        obtain ⟨actor, _, status⟩ := Option.map_eq_some_iff.mp idle
        cases status
    | fails =>
        intro _ _ paired
        rw [pairedOf_start] at paired
        obtain ⟨partner, there⟩ := Option.isSome_iff_exists.mp paired
        refine .inr ⟨.connectFailed p (v.pairedOf p), ?_, ?_⟩
        · rw [log_fails]
          exact List.mem_cons_of_mem _ List.mem_cons_self
        · rw [there]
          exact decide_eq_true rfl
    | ignored busy => exact fun _ idle _ => absurd idle busy
  · cases started with
    | connects => exact others true here
    | fails => exact others false here
    | ignored => exact attended here

/-- A release of another peer's identifier may strand `p`. -/
theorem Queued.spared (queued : v.Queued) (other : p ≠ q) (stored : v.queue.Stores p)
    (paired : (v.pairedOf p).isSome) :
    (v.drop q).queue.Stores p ∨ ∃ call ∈ (v.drop q).log, call.strands p := by
  by_cases equal : v.waitFuncs.deref p = v.waitFuncs.deref q
  · obtain ⟨partner, there⟩ := Option.isSome_iff_exists.mp paired
    refine .inr ⟨.waitDropped q (some (p, some partner)), ?_, ?_⟩
    · rw [View.drop, queued.victim stored equal, Option.map_some, there]
      exact List.mem_cons_self
    · simp [Call.strands, Ne.symm other]
  · exact .inl (((queued.drop q).2 p).mpr ⟨stored, equal⟩)

theorem Attended.drop (attended : v.Attended p) (queued : v.Queued) (other : p ≠ q) :
    (v.drop q).Attended p :=
  attended.keep id rfl id (fun paired stored => queued.spared other stored paired) ⟨[_], rfl⟩

theorem Attended.elsewhere (attended : v.Attended p) (actors : v'.actors p = v.actors p)
    (queue : v.queue.Stores p → v'.queue.Stores p) (log : ∃ calls, v'.log = calls ++ v.log) :
    v'.Attended p := by
  refine attended.keep ?_ ?_ ?_ (fun _ stored => .inl (queue stored)) log
  · rw [typeOf, actors]
    exact id
  · rw [statusOf, actors, statusOf]
  · rw [pairedOf, actors]
    exact id

theorem Attended.touch (attended : v.Attended p) {f : Actor → Actor}
    (type : ∀ actor, (f actor).tcpPeerType = actor.tcpPeerType)
    (status : ∀ actor, (f actor).tcpClientStatus = actor.tcpClientStatus)
    (paired : ∀ actor, (f actor).pairedPeer = actor.pairedPeer) : (v.modify q f).Attended p := by
  refine attended.keep ?_ (statusOf_modify status) ?_ (fun _ stored => .inl stored) ⟨[], rfl⟩
  · have same : (v.modify q f).typeOf p = v.typeOf p := map_modify v q p type
    rw [same]
    exact id
  · rw [pairedOf_modify _ _ paired]
    exact id

theorem Attended.closed (attended : p ≠ q → v.Attended p) (closed : Closed q v v') :
    v'.Attended p := by
  rw [closed.result]
  obtain ⟨same, _⟩ | ⟨r, _, same⟩ := closePaired_cases v q
  · rw [same]
    exact Attended.closePeer attended
  · rw [same]
    exact Attended.closePeer fun other => Attended.closePeer fun _ => attended other

theorem Attended.delete (attended : v.Attended p) (queued : v.Queued) : (v.delete q).Attended p := by
  by_cases here : p = q
  · intro server _ _
    rw [here, typeOf, delete_eq, remove_actors, Function.update_self, Option.map_none] at server
    cases server
  · have retired : (v.retire q).Attended p := by
      have stopped : ((v.note (.deleted q)).modify q fun actor =>
          { actor with tInfoDeal := none, tDnsWaitAck := false }).Attended p := by
        have noted : (v.note (.deleted q)).Attended p :=
          attended.elsewhere rfl id ⟨[_], rfl⟩
        exact noted.touch (fun _ => rfl) (fun _ => rfl) fun _ => rfl
      refine stopped.keep ?_ statusOf_cancel ?_ ?_ ⟨[], ?_⟩
      · have same : (v.retire q).typeOf p = _ := typeOf_congr (congrFun identity_cancel p)
        rw [same]
        exact id
      · intro paired
        obtain ⟨partner, there⟩ := Option.isSome_iff_exists.mp paired
        rw [retire, pairedOf_unlist, pairedOf_cancel] at there
        rw [(Pairings.cancel_some.mp there).2.2]
        rfl
      · intro _ stored
        rw [queue_retire]
        exact .inl stored
      · exact log_cancel _ _
    have again : (v.retire q).Queued :=
      queued.same queue_retire identity_retire
    refine (retired.drop again here).elsewhere ?_ id ⟨[], rfl⟩
    rw [delete_eq, remove_actors, Function.update_of_ne here]

theorem Attended.answer (attended : v.Attended p) (queued : v.Queued) (address : Nat)
    (other : p ≠ q) : (v.answer q address).Attended p := by
  have noted : (v.note (.answered q address (v.pairedOf q))).Attended p :=
    attended.elsewhere rfl id ⟨[_], rfl⟩
  have again : (v.note (.answered q address (v.pairedOf q))).Queued :=
    queued.same rfl (identity_note _)
  exact (noted.drop again other).touch (fun _ => rfl) (fun _ => rfl) fun _ => rfl

/-- An answer without an address leaves a paired peer to nobody. -/
theorem attended_noAddress : (v.answer p 0).Attended p := by
  intro _ _ paired
  rw [pairedOf_answer] at paired
  obtain ⟨partner, there⟩ := Option.isSome_iff_exists.mp paired
  refine .inr ⟨.answered p 0 (some partner), ?_, by simp [Call.strands]⟩
  rw [← there]
  exact List.mem_cons_of_mem _ List.mem_cons_self

theorem Attended.opened {c : Nat} (attended : v.Attended p) (client : v.typeOf c = some .client)
    (opened : Opened c v m) (other : p ≠ v.next) : m.Attended p := by
  obtain ⟨actors, queue, _, _⟩ := opened.same
  by_cases here : p = c
  · intro server _ _
    rw [typeOf_congr (v := v), here, client] at server
    · cases server
    · rw [opened.identity, Function.update_of_ne other]
  · obtain ⟨calls, log, _⟩ := opened.log
    refine attended.elsewhere ?_ (fun stored => queue ▸ stored) ⟨calls, log⟩
    rw [actors, openServer_actors here other]

/-- The server-side peer of a request connects, waits or is closed. -/
theorem Attended.resolved {c : Nat} (attended : v.Attended p) (wait : v.Waits)
    (client : v.typeOf c = some .client) (opened : Opened c v m)
    (resolved : Resolved v.next c m v') : v'.Attended p := by
  have others (other : p ≠ v.next) : m.Attended p := attended.opened client opened other
  cases resolved with
  | starts started => exact Attended.started others started
  | waits id =>
      obtain ⟨_, more, _, holds⟩ :=
        (wait.opened opened).toQueued.wait opened.server (opened.absent wait.toQueued) id
      obtain ⟨holder, log⟩ := log_wait m v.next id
      by_cases here : p = v.next
      · intro _ _ _
        cases holder with
        | none => exact .inl (here ▸ holds (by rw [log]; rfl))
        | some q =>
            refine .inr ⟨.waitAdded v.next (some q), ?_, by simp [Call.strands, here]⟩
            rw [log]
            exact List.mem_cons_self
      · refine (others here).elsewhere ?_ (more p) ⟨[_], log⟩
        simp [View.wait, setWait, View.enqueue, note, modify_actors, here]
  | unsent closed =>
      have partner : m.pairedOf c = some v.next := by
        have joined : m.pairedOf c = (v.openServer c).pairedOf c := by
          rw [pairedOf, opened.same.1]
          rfl
        rw [joined, pairedOf_openServer (live_of_type client)]
        exact Pairings.join_some.mpr (.inl ⟨rfl, rfl⟩)
      rw [closed.result, closePaired, partner]
      exact Attended.closePeer fun _ => Attended.closePeer others

theorem Attended.infoRun (attended : v.Attended p) : (v.infoRun q).Attended p := by
  have noted : (v.note (.infoRun q (v.typeOf q) (decide (q ∈ v.listed)))).Attended p :=
    attended.elsewhere rfl id ⟨[_], rfl⟩
  exact noted.touch (fun _ => rfl) (fun _ => rfl) fun _ => rfl

/-! ## Every view -/

/-- Every server-side peer is attended. -/
structure Cared (v : View) : Prop extends Waits v where
  attended : ∀ p, v.Attended p

/-- What an info handler remembers of a peer does not matter here. -/
theorem Cared.touch {f : Actor → Actor} (cared : v.Cared)
    (known : ∀ actor, ((f actor).serviceType, (f actor).tcpPeerType, (f actor).dnsTransactionID) =
      (actor.serviceType, actor.tcpPeerType, actor.dnsTransactionID))
    (same : ∀ actor, ((f actor).tDnsWaitAck, (f actor).tcpClientStatus, (f actor).pairedPeer) =
      (actor.tDnsWaitAck, actor.tcpClientStatus, actor.pairedPeer)) : (v.modify q f).Cared := by
  simp only [Prod.mk.injEq] at known same
  refine ⟨cared.toWaits.touch (fun actor => (known actor).1) (fun actor => (known actor).2.1)
    (fun actor => (known actor).2.2) fun actor => (same actor).1, fun p => ?_⟩
  exact (cared.attended p).touch (fun actor => (known actor).2.1) (fun actor => (same actor).2.1)
    fun actor => (same actor).2.2

theorem Cared.infoRun (cared : v.Cared) : (v.infoRun q).Cared :=
  ⟨cared.toWaits.infoRun, fun p => (cared.attended p).infoRun⟩

theorem Cared.delete (cared : v.Cared) (live : (v.actors q).isSome) : (v.delete q).Cared :=
  ⟨cared.toWaits.delete live, fun p => (cared.attended p).delete cared.toQueued⟩

theorem kept_cared : Kept Cared where
  accept {v} cared := by
    refine ⟨kept_waits.accept cared.toWaits, fun p => ?_⟩
    by_cases here : p = v.next
    · intro server _ _
      rw [here, typeOf, accept_actors, Function.update_self] at server
      cases server
    · refine (cared.attended p).elsewhere ?_ id ⟨[], rfl⟩
      rw [accept_actors, Function.update_of_ne here]
  note bytes cared := ⟨kept_waits.note bytes cared.toWaits, fun p =>
    (cared.attended p).elsewhere rfl id ⟨[_], rfl⟩⟩
  closePeer live cared := ⟨cared.toWaits.closePeer live, fun p =>
    Attended.closePeer fun _ => cared.attended p⟩
  request client opened resolved cared :=
    ⟨kept_waits.request client opened resolved cared.toWaits, fun p =>
      (cared.attended p).resolved cared.toWaits client opened resolved⟩
  establish {v q} connecting cared := by
    refine ⟨kept_waits.establish connecting cared.toWaits, fun p => ?_⟩
    by_cases here : p = q
    · intro _ idle _
      rw [here, statusOf, View.establish, setStatus, modify_actors, Function.update_self,
        Option.map_map] at idle
      obtain ⟨actor, _, status⟩ := Option.map_eq_some_iff.mp idle
      cases status
    · refine (cared.attended p).elsewhere ?_ id ⟨[], rfl⟩
      simp [View.establish, setStatus, clientInfo, enlist, modify_actors, here]
  clientInfos _ turns cared :=
    turns.keeps (fun _ _ cared => cared.touch (fun _ => rfl) fun _ => rfl)
      (fun _ _ cared => cared.touch (fun _ => rfl) fun _ => rfl)
      (fun live cared => cared.delete live) cared.infoRun
  serverInfos _ turns cared :=
    turns.keeps (fun _ _ cared => cared.touch (fun _ => rfl) fun _ => rfl)
      (fun _ _ cared => cared.touch (fun _ => rfl) fun _ => rfl)
      (fun live cared => cared.delete live) cared.infoRun
  timeout {v v' q} closed cared := by
    refine ⟨kept_waits.timeout closed cared.toWaits, fun p =>
      Attended.closed (fun other => ?_) closed⟩
    have off : (v.setWait q false).Attended p :=
      (cared.attended p).touch (fun _ => rfl) (fun _ => rfl) fun _ => rfl
    exact off.drop (cared.toQueued.same rfl (identity_setWait false)) other
  noAddress {v q} stored cared := by
    refine ⟨cared.toWaits.answer stored 0, fun p => ?_⟩
    by_cases here : p = q
    · exact here ▸ attended_noAddress
    · exact (cared.attended p).answer cared.toQueued 0 here
  answered stored address started cared :=
    ⟨kept_waits.answered stored address started cared.toWaits, fun p =>
      Attended.started (fun other => (cared.attended p).answer cared.toQueued _ other) started⟩

theorem Reached.cared (reached : Reached v) : v.Cared := by
  refine kept_cared.reached ⟨waits_init, fun p => ?_⟩ reached
  intro _ _ paired
  by_cases first : p = 0
  · simp [pairedOf, init, first] at paired
  · simp [pairedOf, init, first] at paired

end View

/-- Where no call leaves the peer to nobody, it waits as long as it is idle and paired. -/
theorem idle_attended {s : Popd} (reachable : system.Reachable s) {p c : Nat} {peer : Peer}
    (free : ∀ call ∈ s.log, call.strands p = false)
    (found : s.peers p = some peer) (server : peer.tcpPeerType = .server)
    (idle : peer.tcpClientStatus = .idle) (paired : peer.pairedPeer = some c) :
    s.dnsAckWaitQueue.Stores p ∧ peer.tDnsWaitAck = true := by
  have reached := reachable_view reachable
  have there := actors_view found
  have stored : s.view.queue.Stores p := by
    have typed : s.view.typeOf p = some .server := by
      rw [View.typeOf, there, Option.map_some, server]
    have status : s.view.statusOf p = some .idle := by
      rw [View.statusOf, there, Option.map_some, idle]
    have partner : (s.view.pairedOf p).isSome := by simp [View.pairedOf_found there, paired]
    rcases reached.cared.attended p typed status partner with stored | ⟨call, member, strands⟩
    · exact stored
    · rw [free call member] at strands
      cases strands
  refine ⟨stored, ?_⟩
  have armed := reached.waits.queued p stored
  simpa [View.armed, there] using armed

theorem idle_attended_sample : ∃ s peer, system.Reachable s ∧ s.peers 2 = some peer ∧
    peer.pairedPeer = some 1 ∧ s.dnsAckWaitQueue.Stores 2 ∧ peer.tDnsWaitAck = true := by
  have runs : (replay (lookupRun 0) [.accept [(5, 1, 2)] false, .socket 1 true false false]).map
      (fun s => (s.log.all fun call => !call.strands 2, (s.peers 2).map Peer.toActor)) =
      some (true, some { View.serverActor with pairedPeer := some 1, tDnsWaitAck := true }) := by
    decide +kernel
  obtain ⟨s, ran, facts⟩ := Option.map_eq_some_iff.mp runs
  obtain ⟨free, server⟩ := Prod.mk.inj facts
  obtain ⟨peer, found, actor⟩ := Option.map_eq_some_iff.mp server
  have kept : ∀ call ∈ s.log, call.strands 2 = false := by simpa using free
  have reachable := replay_reachable ran
  have paired := congrArg Actor.pairedPeer actor
  exact ⟨s, peer, reachable, found, paired,
    idle_attended reachable kept found (congrArg Actor.tcpPeerType actor)
      (congrArg Actor.tcpClientStatus actor) paired⟩

/-- The answer to query 0 that there is no host `a.b`. -/
def noHostReply : List UInt8 :=
  [0, 0, 0x81, 0x83, 0, 1, 0, 0, 0, 0, 0, 0, 1, 97, 1, 98, 0, 0, 1, 0, 1]

/-- The server-side peer keeps its client, and nothing will ever happen to it. -/
theorem no_host_strands : ∃ s peer, system.Reachable s ∧ s.peers 2 = some peer ∧
    peer.serviceType = .httpProxy ∧ peer.tcpPeerType = .server ∧ peer.tcpClientStatus = .idle ∧
    peer.pairedPeer = some 1 ∧ ¬ s.dnsAckWaitQueue.Stores 2 ∧ peer.tDnsWaitAck = false := by
  have runs : (replay (lookupRun 0) [.accept [(5, 1, 2)] false, .socket 1 true false false,
      .datagram noHostReply DNS_SERVER_ADDRESS 53]).map
      (fun s => (s.dnsAckWaitQueue.datas, (s.peers 2).map Peer.toActor)) =
      some ([], some { View.serverActor with pairedPeer := some 1 }) := by decide +kernel
  obtain ⟨s, ran, facts⟩ := Option.map_eq_some_iff.mp runs
  obtain ⟨empty, server⟩ := Prod.mk.inj facts
  obtain ⟨peer, found, actor⟩ := Option.map_eq_some_iff.mp server
  have reachable := replay_reachable ran
  refine ⟨s, peer, reachable, found, congrArg Actor.serviceType actor,
    congrArg Actor.tcpPeerType actor, congrArg Actor.tcpClientStatus actor,
    congrArg Actor.pairedPeer actor, fun stored => ?_, congrArg Actor.tDnsWaitAck actor⟩
  have member : 2 ∈ s.dnsAckWaitQueue.datas := (reachable_view reachable).queued.datas.mp stored
  rw [empty] at member
  cases member

end Poplar.Proxy
