import Poplar.Proxy.Teardown

/-!
# How far a peer may have come

A server-side peer waits for its address, if it has none, connects once, and enters the list
of connected peers once. Until its info handler runs few messages gather.
-/
namespace Poplar.Proxy

/-- What a peer may have come to, being queued or listed. -/
structure Inbox.Staged (queued listed : Prop) (b : Inbox) : Prop where
  waits : queued → b.status = .idle
  early : queued ∨ b.status = .connect → ¬ listed ∧ b.clientInfos.length ≤ 1
  clientInfos : b.clientInfos.length ≤ 2
  serverInfos : b.serverInfos.length ≤ 1

namespace Inbox

variable {queued queued' listed listed' : Prop} {b : Inbox}

theorem Staged.mono (staged : b.Staged queued listed) (dequeued : queued' → queued)
    (same : listed' → listed) : b.Staged queued' listed' where
  waits there := staged.waits (dequeued there)
  early begins := by
    obtain ⟨unlisted, few⟩ := staged.early (begins.imp_left dequeued)
    exact ⟨unlisted ∘ same, few⟩
  clientInfos := staged.clientInfos
  serverInfos := staged.serverInfos

theorem Staged.stopped (staged : b.Staged queued listed) : b.stopped.Staged queued listed where
  waits _ := rfl
  early begins := by
    rcases begins with there | connects
    · exact ⟨(staged.early (.inl there)).1, Nat.le_refl 1⟩
    · cases connects
  clientInfos := Nat.le_succ 1
  serverInfos := Nat.zero_le 1

theorem Staged.closed (staged : b.Staged queued listed) : b.closed.Staged queued listed where
  waits := staged.waits
  early begins := ⟨(staged.early begins).1, Nat.zero_le 1⟩
  clientInfos := Nat.zero_le 2
  serverInfos := Nat.le_refl 1

/-- A peer that is not queued any more starts to connect. -/
theorem Staged.connecting (staged : b.Staged queued listed) (absent : ¬ queued)
    (fits : ¬ listed ∧ b.clientInfos.length ≤ 1) :
    { b with status := .connect : Inbox }.Staged queued listed where
  waits there := absurd there absent
  early _ := fits
  clientInfos := staged.clientInfos
  serverInfos := staged.serverInfos

theorem Staged.failed (staged : b.Staged queued listed) (absent : ¬ queued)
    (idle : b.status = .idle) (few : b.clientInfos.length ≤ 1) :
    (b.told .connectionError).Staged queued listed where
  waits _ := idle
  early begins := by
    rcases begins with there | connects
    · exact absurd there absent
    · cases idle.symm.trans connects
  clientInfos := by
    simp only [told, List.length_append, List.length_singleton]
    omega
  serverInfos := staged.serverInfos

theorem Staged.established (staged : b.Staged queued listed) (connects : b.status = .connect) :
    { b.told .connectionSuccess with status := .establish : Inbox }.Staged queued True where
  waits there := by cases (staged.waits there).symm.trans connects
  early begins := by
    rcases begins with there | again
    · cases (staged.waits there).symm.trans connects
    · cases again
  clientInfos := by
    have few := (staged.early (.inr connects)).2
    simp only [told, List.length_append, List.length_singleton]
    omega
  serverInfos := staged.serverInfos

/-- Messages were taken, or the handler was armed or disarmed. -/
theorem Staged.took (staged : b.Staged queued listed) {clientInfos : List TcpClientInfo}
    {serverInfos : List TcpServerInfo} (deal : Option InfoDeal)
    (client : clientInfos.length ≤ b.clientInfos.length)
    (server : serverInfos.length ≤ b.serverInfos.length) :
    { b with clientInfos, serverInfos, deal : Inbox }.Staged queued listed where
  waits := staged.waits
  early begins := by
    obtain ⟨unlisted, few⟩ := staged.early begins
    exact ⟨unlisted, Nat.le_trans client few⟩
  clientInfos := Nat.le_trans client staged.clientInfos
  serverInfos := Nat.le_trans server staged.serverInfos

end Inbox

namespace View

/-- Listed peers are live and listed once, and no peer is further than it may be. -/
structure Staged (v : View) : Prop extends Queued v where
  nodup_listed : v.listed.Nodup
  listed_live : ∀ p ∈ v.listed, (v.inbox p).isSome
  stage : ∀ p b, v.inbox p = some b → b.Staged (v.queue.Stores p) (p ∈ v.listed)

variable {v m v' : View} {p : Nat}

theorem inbox_inside {b : Inbox} (found : v.inbox p = some b) : p < v.next := by
  apply inside_of_live
  obtain ⟨actor, there, _⟩ := Option.map_eq_some_iff.mp found
  exact Option.isSome_of_eq_some there

/-- The messages or the status of one peer change, and nobody is queued. -/
theorem Staged.change (staged : v.Staged) {f : Inbox → Inbox} (queued : v'.Queued)
    (inbox : v'.inbox = Function.update v.inbox p ((v.inbox p).map f))
    (listed : v'.listed = v.listed) (queue : ∀ q, v'.queue.Stores q → v.queue.Stores q)
    (own : ∀ b, v.inbox p = some b → b.Staged (v.queue.Stores p) (p ∈ v.listed) →
      (f b).Staged (v'.queue.Stores p) (p ∈ v.listed)) : v'.Staged := by
  refine ⟨queued, ?_, ?_, ?_⟩
  · rw [listed]
    exact staged.nodup_listed
  · intro q member
    rw [listed] at member
    have there := staged.listed_live q member
    rw [inbox]
    by_cases here : q = p
    · subst here
      rwa [Function.update_self, Option.isSome_map]
    · rwa [Function.update_of_ne here]
  · intro q b found
    rw [listed]
    by_cases here : q = p
    · subst here
      rw [inbox, Function.update_self] at found
      obtain ⟨before, there, rfl⟩ := Option.map_eq_some_iff.mp found
      exact own before there (staged.stage q before there)
    · rw [inbox, Function.update_of_ne here] at found
      exact (staged.stage q b found).mono (queue q) id

theorem Staged.same (staged : v.Staged) (queued : v'.Queued) (inbox : v'.inbox = v.inbox)
    (listed : v'.listed = v.listed) (queue : ∀ q, v'.queue.Stores q → v.queue.Stores q) :
    v'.Staged := by
  refine ⟨queued, listed ▸ staged.nodup_listed, ?_, ?_⟩
  · rw [listed, inbox]
    exact staged.listed_live
  · intro q b found
    rw [inbox] at found
    rw [listed]
    exact (staged.stage q b found).mono (queue q) id

theorem Staged.closePeer (staged : v.Staged) : (v.closePeer p).Staged := by
  have queued := staged.toQueued.closePeer (p := p)
  have queue (q : Nat) : (v.closePeer p).queue.Stores q → v.queue.Stores q := by
    rw [queue_closePeer]
    exact id
  have listed : (v.closePeer p).listed = v.listed := by
    unfold View.closePeer
    split
    · exact listed_cancel
    · exact listed_cancel
  unfold View.closePeer at queued queue listed ⊢
  split
  next server =>
    rw [if_pos server] at queued queue listed
    exact staged.change queued inbox_stop listed queue fun _ _ before =>
      before.stopped.mono (queue p) id
  next client =>
    rw [if_neg client] at queued queue listed
    exact staged.change queued inbox_close listed queue fun _ _ before =>
      before.closed.mono (queue p) id

theorem Staged.closed (staged : v.Staged) (closed : Closed p v v') : v'.Staged :=
  closed.keeps (fun _ staged => staged.closePeer) staged

/-- A peer starts that is not queued, not listed and has at most one message. -/
theorem Staged.started (staged : v.Staged) (absent : ¬ v.queue.Stores p)
    (fits : ∀ b, v.inbox p = some b → p ∉ v.listed ∧ b.clientInfos.length ≤ 1)
    (started : Started p v v') : v'.Staged := by
  have queued := staged.toQueued.started started
  cases started with
  | connects idle =>
      exact staged.change queued (inbox_setStatus .connect) rfl (fun _ there => there)
        fun b found before => before.connecting absent (fits b found)
  | fails idle =>
      refine staged.change queued inbox_fails rfl (fun _ there => there) fun b found before => ?_
      rw [statusOf_inbox found] at idle
      exact before.failed absent (Option.some.inj idle) (fits b found).2
  | ignored => exact staged

/-- A new peer has few messages and is not queued. -/
theorem Staged.alloc (staged : v.Staged) {b : Inbox} (queued : v'.Queued)
    (inbox : v'.inbox = Function.update v.inbox v.next (some b))
    (queue : v'.queue = v.queue) (listed : v'.listed = v.listed ∨ v'.listed = v.listed ++ [v.next])
    (idle : b.status = .idle) (client : b.clientInfos = []) (server : b.serverInfos.length ≤ 1) :
    v'.Staged := by
  have unlisted : v.next ∉ v.listed := by
    intro member
    obtain ⟨other, found⟩ := Option.isSome_iff_exists.mp (staged.listed_live _ member)
    exact absurd (inbox_inside found) (Nat.lt_irrefl _)
  have absent : ¬ v'.queue.Stores v.next := by
    rw [queue]
    exact fun there => absurd (staged.inside there) (Nat.lt_irrefl _)
  refine ⟨queued, ?_, ?_, ?_⟩
  · rcases listed with same | enlisted
    · exact same ▸ staged.nodup_listed
    · rw [enlisted]
      exact List.nodup_append.mpr ⟨staged.nodup_listed, List.nodup_singleton _,
        fun q before r new same => unlisted (List.mem_singleton.mp new ▸ same ▸ before)⟩
  · intro q member
    rw [inbox]
    by_cases here : q = v.next
    · rw [here, Function.update_self]
      rfl
    · rw [Function.update_of_ne here]
      apply staged.listed_live q
      rcases listed with same | enlisted
      · exact same ▸ member
      · rw [enlisted, List.mem_append, List.mem_singleton] at member
        exact member.resolve_right here
  · intro q other found
    by_cases here : q = v.next
    · subst here
      rw [inbox, Function.update_self, Option.some.injEq] at found
      subst found
      refine ⟨fun _ => idle, ?_, ?_, server⟩
      · rintro (there | connects)
        · exact absurd there absent
        · cases idle.symm.trans connects
      · rw [client]
        exact Nat.zero_le 2
    · rw [inbox, Function.update_of_ne here] at found
      refine (staged.stage q other found).mono (fun there => queue ▸ there) fun member => ?_
      rcases listed with same | enlisted
      · exact same ▸ member
      · rw [enlisted, List.mem_append, List.mem_singleton] at member
        exact member.resolve_right here

theorem Staged.drop (staged : v.Staged) (p : Nat) : (v.drop p).Staged := by
  obtain ⟨queued, stores⟩ := staged.toQueued.drop p
  exact staged.same queued rfl rfl fun q there => ((stores q).mp there).1

theorem drop_absent (queued : v.Queued) : ¬ (v.drop p).queue.Stores p :=
  fun there => (((queued.drop p).2 p).mp there).2 rfl

theorem Staged.unseen (staged : v.Staged) {f : Actor → Actor}
    (service : ∀ actor, (f actor).serviceType = actor.serviceType)
    (type : ∀ actor, (f actor).tcpPeerType = actor.tcpPeerType)
    (id : ∀ actor, (f actor).dnsTransactionID = actor.dnsTransactionID)
    (same : ∀ actor, (f actor).inbox = actor.inbox) : (v.modify p f).Staged :=
  staged.same (staged.toQueued.touch service type id) (inbox_unseen same) rfl fun _ there => there

theorem Staged.answer (staged : v.Staged) (address : Nat) : (v.answer p address).Staged := by
  have noted : (v.note (.answered p address (v.pairedOf p))).Staged :=
    staged.same (staged.toQueued.same rfl (identity_note _)) rfl rfl fun _ there => there
  exact (noted.drop p).unseen (fun _ => rfl) (fun _ => rfl) (fun _ => rfl) fun _ => rfl

theorem Staged.infoRun (staged : v.Staged) : (v.infoRun p).Staged :=
  staged.change (staged.toQueued.same rfl identity_infoRun) inbox_infoRun rfl
    (fun _ there => there) fun _ _ before => before.took none (Nat.le_refl _) (Nat.le_refl _)

theorem Staged.delete (staged : v.Staged) (live : (v.actors p).isSome) : (v.delete p).Staged := by
  obtain ⟨queued, stores⟩ := staged.toQueued.delete live
  have listed : (v.delete p).listed = v.listed.erase p :=
    congrArg (fun l => l.erase p) listed_cancel
  refine ⟨queued, ?_, ?_, ?_⟩
  · rw [listed]
    exact staged.nodup_listed.erase p
  · intro q member
    rw [listed] at member
    obtain ⟨other, before⟩ := (List.Nodup.mem_erase_iff staged.nodup_listed).mp member
    rw [inbox_delete, Function.update_of_ne other]
    exact staged.listed_live q before
  · intro q b found
    by_cases here : q = p
    · rw [inbox_delete, here, Function.update_self] at found
      cases found
    · rw [inbox_delete, Function.update_of_ne here] at found
      rw [listed]
      exact (staged.stage q b found).mono (fun there => ((stores q).mp there).1)
        List.mem_of_mem_erase

theorem Staged.opened {c : Nat} (staged : v.Staged) (opened : Opened c v m) :
    m.Staged ∧ m.inbox v.next = some serverActor.inbox ∧ v.next ∉ m.listed := by
  obtain ⟨actors, queue, _, listed⟩ := opened.same
  have inbox : m.inbox = Function.update v.inbox v.next (some serverActor.inbox) := by
    rw [← inbox_openServer (p := c)]
    funext q
    rw [View.inbox, actors]
    rfl
  refine ⟨?_, ?_, ?_⟩
  · exact staged.alloc (opened.queued staged.toQueued) inbox queue (.inl listed) rfl rfl
      (Nat.zero_le 1)
  · rw [inbox, Function.update_self]
  · intro member
    rw [listed] at member
    obtain ⟨other, found⟩ := Option.isSome_iff_exists.mp (staged.listed_live _ member)
    exact absurd (inbox_inside found) (Nat.lt_irrefl _)

/-- A peer that begins to wait has no messages yet. -/
theorem Staged.wait (staged : v.Staged) (server : ∃ actor, v.actors p = some actor ∧
    actor.tcpPeerType = .server) (absent : ¬ v.queue.Stores p)
    (fits : v.inbox p = some serverActor.inbox) (unlisted : p ∉ v.listed) (id : Nat) :
    (v.wait p id).Staged := by
  obtain ⟨queued, _, only, _⟩ := staged.toQueued.wait server absent id
  have inbox : (v.wait p id).inbox = v.inbox := by
    have named : ((v.modify p fun actor =>
        { actor with dnsTransactionID := id }).enqueue p).inbox = v.inbox :=
      inbox_unseen (v := v) fun _ => rfl
    have armed (w : View) : (w.setWait p true).inbox = w.inbox := inbox_unseen fun _ => rfl
    exact (armed _).trans named
  refine ⟨queued, staged.nodup_listed, ?_, ?_⟩
  · rw [inbox]
    exact staged.listed_live
  · intro q b found
    rw [inbox] at found
    by_cases here : q = p
    · subst here
      cases fits.symm.trans found
      exact ⟨fun _ => rfl, fun _ => ⟨unlisted, Nat.zero_le 1⟩, Nat.zero_le 2, Nat.zero_le 1⟩
    · exact (staged.stage q b found).mono (fun there => (only q there).resolve_right here)
        fun member => member

theorem Staged.establish (staged : v.Staged) (connects : v.statusOf p = some .connect) :
    (v.establish p).Staged := by
  obtain ⟨actor, found, status⟩ := Option.map_eq_some_iff.mp connects
  have there : v.inbox p = some actor.inbox := by rw [inbox, found, Option.map_some]
  have unlisted : p ∉ v.listed := ((staged.stage p _ there).early (.inr status)).1
  have listed : (v.establish p).listed = v.listed ++ [p] := rfl
  refine ⟨staged.toQueued.same rfl identity_establish, ?_, ?_, ?_⟩
  · rw [listed]
    exact List.nodup_append.mpr ⟨staged.nodup_listed, List.nodup_singleton _,
      fun q before r new same => unlisted (List.mem_singleton.mp new ▸ same ▸ before)⟩
  · intro q member
    rw [inbox_establish]
    by_cases here : q = p
    · rw [here, Function.update_self, there]
      rfl
    · rw [Function.update_of_ne here]
      rw [listed, List.mem_append, List.mem_singleton] at member
      exact staged.listed_live q (member.resolve_right here)
  · intro q b known
    rw [inbox_establish] at known
    rw [listed]
    by_cases here : q = p
    · subst here
      rw [Function.update_self, there, Option.map_some, Option.some.injEq] at known
      rw [← known]
      exact ((staged.stage q _ there).established status).mono id fun _ => trivial
    · rw [Function.update_of_ne here] at known
      refine (staged.stage q b known).mono id fun member => ?_
      rw [List.mem_append, List.mem_singleton] at member
      exact member.resolve_right here

theorem kept_staged : Kept Staged where
  accept {v} staged := by
    have enlisted : v.accept.inbox = (v.alloc clientActor).inbox := rfl
    exact staged.alloc (kept_queued.accept staged.toQueued) (enlisted.trans (inbox_alloc _)) rfl
      (.inr rfl) rfl rfl (Nat.le_refl 1)
  note bytes staged :=
    staged.same (kept_queued.note bytes staged.toQueued) rfl rfl fun _ there => there
  closePeer _ staged := staged.closePeer
  request _ opened resolved staged := by
    obtain ⟨begun, fits, unlisted⟩ := staged.opened opened
    have absent := opened.absent staged.toQueued
    cases resolved with
    | starts started =>
        refine begun.started absent (fun b found => ⟨unlisted, ?_⟩) started
        cases fits.symm.trans found
        exact Nat.zero_le 1
    | waits id => exact begun.wait opened.server absent fits unlisted id
    | unsent closed => exact begun.closed closed
  establish connects staged := staged.establish connects
  clientInfos _ turns staged := by
    refine turns.keeps ?_ ?_ (fun live staged => staged.delete live) staged.infoRun
    · intro v actor info others found head staged
      refine staged.change (f := fun b => { b with clientInfos := others })
        (staged.toQueued.touch (fun _ => rfl) (fun _ => rfl) fun _ => rfl)
        (inbox_modify fun _ => rfl) rfl (fun _ there => there) fun b there before => ?_
      rw [inbox, found] at there
      cases there
      refine before.took _ ?_ (Nat.le_refl _)
      have longer : others.length ≤ actor.tcpClientInfoList.length := by
        rw [head]
        exact Nat.le_succ _
      exact longer
    · intro v actor found more staged
      exact staged.change (f := fun b => { b with deal := b.deal.or (some .tcpClientEvent) })
        (staged.toQueued.touch (fun _ => rfl) (fun _ => rfl) fun _ => rfl)
        (inbox_modify fun _ => rfl) rfl (fun _ there => there) fun b there before =>
          before.took _ (Nat.le_refl _) (Nat.le_refl _)
  serverInfos _ turns staged := by
    refine turns.keeps ?_ ?_ (fun live staged => staged.delete live) staged.infoRun
    · intro v actor info others found head staged
      refine staged.change (f := fun b => { b with serverInfos := others })
        (staged.toQueued.touch (fun _ => rfl) (fun _ => rfl) fun _ => rfl)
        (inbox_modify fun _ => rfl) rfl (fun _ there => there) fun b there before => ?_
      rw [inbox, found] at there
      cases there
      refine before.took _ (Nat.le_refl _) ?_
      have longer : others.length ≤ actor.tcpServerInfoList.length := by
        rw [head]
        exact Nat.le_succ _
      exact longer
    · intro v actor found more staged
      exact staged.change (f := fun b => { b with deal := b.deal.or (some .tcpServerEvent) })
        (staged.toQueued.touch (fun _ => rfl) (fun _ => rfl) fun _ => rfl)
        (inbox_modify fun _ => rfl) rfl (fun _ there => there) fun b there before =>
          before.took _ (Nat.le_refl _) (Nat.le_refl _)
  timeout {v v' p} closed staged := by
    have off : (v.setWait p false).Staged :=
      staged.unseen (fun _ => rfl) (fun _ => rfl) (fun _ => rfl) fun _ => rfl
    exact (off.drop p).closed closed
  noAddress _ staged := staged.answer 0
  answered {v v' p address} stored _ started staged := by
    have absent : ¬ (v.answer p address).queue.Stores p :=
      drop_absent (staged.toQueued.same rfl (identity_note (.answered p address (v.pairedOf p))))
    have inbox : (v.answer p address).inbox = v.inbox := inbox_unseen fun _ => rfl
    refine (staged.answer address).started absent (fun b found => ?_) started
    exact (staged.stage p b (inbox ▸ found)).early (.inl stored)

theorem staged_init : init.Staged := by
  refine ⟨queued_init, List.nodup_nil, by simp [init], fun p b found => ?_⟩
  have idle : b = ⟨.server, .idle, [], [], none⟩ := by
    by_cases first : p = 0
    · subst first
      cases found
      rfl
    · simp [inbox, init, first] at found
  rw [idle]
  exact ⟨fun _ => rfl, fun _ => ⟨List.not_mem_nil, Nat.zero_le 1⟩, Nat.zero_le 2, Nat.zero_le 1⟩

theorem Reached.staged (reached : Reached v) : v.Staged := kept_staged.reached staged_init reached

end View

/-- In every run listed peers are live and listed once; a peer that waits for its address or
connects is not listed; and no peer has more than two messages. -/
theorem peers_staged {s : Popd} (reachable : system.Reachable s) :
    s.pairedPeerTcpList.Nodup ∧ (∀ p ∈ s.pairedPeerTcpList, (s.peers p).isSome) ∧
      ∀ p peer, s.peers p = some peer →
        peer.inbox.Staged (s.dnsAckWaitQueue.Stores p) (p ∈ s.pairedPeerTcpList) := by
  have staged := (reachable_view reachable).staged
  refine ⟨staged.nodup_listed, fun p member => ?_, fun p peer found => ?_⟩
  · apply live_view
    rw [← Option.isSome_map]
    exact staged.listed_live p member
  · apply staged.stage p
    rw [View.inbox, actors_view found]
    rfl

/-- The server-side peer of a request waits for the address of its host. -/
theorem peers_staged_sample : ∃ s peer, system.Reachable s ∧ s.peers 2 = some peer ∧
    peer.tDnsWaitAck = true ∧ s.pairedPeerTcpList.Nodup ∧
      peer.inbox.Staged (s.dnsAckWaitQueue.Stores 2) (2 ∈ s.pairedPeerTcpList) := by
  have runs : (replay (fun n => if n = 1 then { read := getRequest } else {})
      [.accept [(5, 1, 2)] false, .socket 1 true false false]).map
      (fun s => (s.peers 2).map fun peer => peer.tDnsWaitAck) = some (some true) := by
    decide +kernel
  obtain ⟨s, ran, facts⟩ := Option.map_eq_some_iff.mp runs
  obtain ⟨peer, found, waits⟩ := Option.map_eq_some_iff.mp facts
  have reachable := replay_reachable ran
  obtain ⟨once, _, staged⟩ := peers_staged reachable
  exact ⟨s, peer, reachable, found, waits, once, staged 2 peer found⟩

end Poplar.Proxy
