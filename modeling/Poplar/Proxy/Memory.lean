import Poplar.Proxy.Lifecycle
import Poplar.Proxy.Rules

/-!
# No access to a peer that was freed

A function follows the partner of a peer it is given, the queue and the list of connected
peers. As long as no request takes a client that has a partner, nothing of this leads to a
peer that was freed, and no peer is freed twice.
-/
namespace Poplar.Proxy

open Effects Poplar.Domain Poplar.Http

/-! ## What the functions need -/

/-- The peers of `A`, the partners of all peers and the DNS client are there. -/
structure Popd.Intact (A : Set Nat) (s : Popd) : Prop where
  live : ∀ p ∈ A, (s.peers p).isSome
  partners : ∀ p q, s.pairedOf p = some q → (s.peers q).isSome
  client : s.serviceOf s.dnsClientPeer = some .dnsClient

/-- A program that is given the peers of `A` reads no peer that was freed. -/
abbrev Safe {α : Type} (A : Set Nat) (x : Daemon α) : Prop :=
  Spares .useAfterFree (Popd.Intact A) x fun _ => Popd.Intact A

variable {A B : Set Nat} {s s' : Popd} {p q : Nat} {α β : Type}

theorem Popd.Intact.mono (intact : s.Intact A) (fewer : B ⊆ A) : s.Intact B where
  live p member := intact.live p (fewer member)
  partners := intact.partners
  client := intact.client

theorem Popd.Intact.partner {peer : Peer} (intact : s.Intact A) (found : s.peers p = some peer) :
    s.Intact (A ∪ {q | peer.pairedPeer = some q}) where
  live q member := by
    rcases member with before | paired
    · exact intact.live q before
    · apply intact.partners p q
      rw [Popd.pairedOf, found]
      exact paired
  partners := intact.partners
  client := intact.client

theorem put_isSome {peer' : Peer} (inside : p < s.next) (live : (s.peers q).isSome) :
    ((s.put p (some peer') inside).peers q).isSome := by
  by_cases here : q = p
  · rw [here, put_self]
    rfl
  · rwa [put_of_ne inside here]

theorem Popd.Intact.put {peer peer' : Peer} (intact : s.Intact A) (found : s.peers p = some peer)
    (pairs : ∀ q, peer'.pairedPeer = some q → (s.peers q).isSome)
    (service : peer'.serviceType = peer.serviceType) :
    (s.put p (some peer') (s.inside found)).Intact A where
  live q member := put_isSome _ (intact.live q member)
  partners r q paired := by
    apply put_isSome
    unfold Popd.pairedOf at paired
    by_cases here : r = p
    · rw [here, put_self] at paired
      exact pairs q paired
    · rw [put_of_ne _ here] at paired
      exact intact.partners r q paired
  client := by
    have client := intact.client
    change ((s.put p (some peer') _).peers s.dnsClientPeer).map _ = _
    by_cases here : s.dnsClientPeer = p
    · rw [here, put_self]
      rw [Popd.serviceOf, here, found] at client
      rw [Option.map_some, service]
      exact client
    · rw [put_of_ne _ here]
      exact client

namespace Safe

theorem pure (a : α) : Safe A (Pure.pure a : Daemon α) := Spares.pure fun _ intact => intact

theorem load {f : Peer → Daemon β} (member : p ∈ A)
    (next : ∀ peer, Safe (A ∪ {q | peer.pairedPeer = some q}) (f peer)) :
    Safe A (load p >>= f) := by
  intro s intact
  obtain ⟨peer, found⟩ := Option.isSome_iff_exists.mp (intact.live p member)
  rw [bind_runs (load_found found)]
  obtain ⟨avoids, leaves⟩ := next peer s (intact.partner found)
  exact ⟨avoids, fun b s' runs => (leaves b s' runs).mono Set.subset_union_left⟩

/-- The partner of a peer that is written stays, or becomes one that is there. -/
theorem pairs {f : Peer → Peer} (member : p ∈ A)
    (pairs : ∀ peer, (f peer).pairedPeer = peer.pairedPeer ∨
      ∀ q, (f peer).pairedPeer = some q → q ∈ A)
    (service : ∀ peer, (f peer).serviceType = peer.serviceType) : Safe A (store p f) := by
  intro s intact
  obtain ⟨peer, found⟩ := Option.isSome_iff_exists.mp (intact.live p member)
  rw [store_found found]
  refine ⟨Avoids.ok _, fun u s' runs => ?_⟩
  cases runs
  refine intact.put found (fun q paired => ?_) (service peer)
  rcases pairs peer with same | inside
  · apply intact.partners p q
    rw [Popd.pairedOf, found]
    exact same.symm.trans paired
  · exact intact.live q (inside q paired)

theorem store {f : Peer → Peer} (member : p ∈ A)
    (same : ∀ peer, (f peer).pairedPeer = peer.pairedPeer)
    (service : ∀ peer, (f peer).serviceType = peer.serviceType) : Safe A (store p f) :=
  pairs member (fun peer => .inl (same peer)) service

theorem modify {f : Popd → Popd} (peers : ∀ s, (f s).peers = s.peers)
    (client : ∀ s, (f s).dnsClientPeer = s.dnsClientPeer) : Safe A (modify f : Daemon PUnit) := by
  intro s intact
  refine ⟨Avoids.ok _, fun u s' runs => ?_⟩
  rw [runs_modify runs]
  constructor
  · rw [peers]
    exact intact.live
  · intro p q
    rw [Popd.pairedOf, peers]
    exact intact.partners p q
  · rw [client, Popd.serviceOf, peers]
    exact intact.client

theorem note (call : Popd → Call) : Safe A (note call) := modify (fun _ => rfl) fun _ => rfl

theorem ask : Safe A ask := by
  intro s intact
  refine ⟨Avoids.ok _, fun answer s' runs => ?_⟩
  cases runs
  exact ⟨intact.live, intact.partners, intact.client⟩

theorem get : Safe A (get : Daemon Popd) := by
  intro s intact
  refine ⟨Avoids.ok _, fun t s' runs => ?_⟩
  rw [(runs_get runs).2]
  exact intact

theorem call {result : Except Fault α} (avoids : Avoids .useAfterFree result) :
    Safe A (call result) := by
  intro s intact
  cases result with
  | ok a =>
      refine ⟨Avoids.ok _, fun b s' runs => ?_⟩
      cases runs
      exact intact
  | error fault =>
      refine ⟨Avoids.error fun same => avoids (congrArg Except.error same), fun b s' runs => ?_⟩
      cases runs

/-- A peer that was just made is written first, and then known. -/
theorem made {f : Peer → Peer} {g : Nat → Daemon β} {Q : β → Popd → Prop}
    (alone : (f {}).pairedPeer = none)
    (next : ∀ p, Spares .useAfterFree (Popd.Intact (insert p A)) (g p) Q) :
    Spares .useAfterFree (Popd.Intact A)
      (do let p ← popPeerNew; Proxy.store p f; g p) Q := by
  intro s intact
  have apart : s.dnsClientPeer ≠ s.next := by
    intro same
    have client := intact.client
    rw [same, Popd.serviceOf, s.fresh _ (Nat.le_refl _)] at client
    cases client
  obtain ⟨m, made⟩ : ∃ m, popPeerNew s = .ok (s.next, m) := ⟨_, rfl⟩
  have peers : m.peers = Function.update s.peers s.next (some {}) := by
    cases made
    rfl
  have client : m.dnsClientPeer = s.dnsClientPeer := by
    cases made
    rfl
  have found : m.peers s.next = some {} := by rw [peers, Function.update_self]
  rw [bind_runs made, bind_runs (store_found found f)]
  apply next
  have old (q : Nat) (other : q ≠ s.next) :
      (m.put s.next (some (f {})) (m.inside found)).peers q = s.peers q := by
    rw [put_of_ne _ other, peers, Function.update_of_ne other]
  constructor
  · rintro q (rfl | before)
    · rw [put_self]
      rfl
    · have live := intact.live q before
      have other : q ≠ s.next := by
        rintro rfl
        rw [s.fresh _ (Nat.le_refl _)] at live
        cases live
      rwa [old q other]
  · intro r q paired
    by_cases here : r = s.next
    · rw [Popd.pairedOf, here, put_self] at paired
      cases alone.symm.trans paired
    · rw [Popd.pairedOf, old r here] at paired
      have live := intact.partners r q paired
      by_cases fresh : q = s.next
      · rw [fresh, put_self]
        rfl
      · rwa [old q fresh]
  · change ((m.put s.next (some (f {})) (m.inside found)).peers m.dnsClientPeer).map _ = _
    rw [client, old _ apart]
    exact intact.client

end Safe

/-! ## All functions -/

theorem safeRules : Rules @Safe where
  pure := Safe.pure
  bind first second := Spares.bind first second
  load := Safe.load
  store member same :=
    Safe.store member (fun peer => congrArg Prod.fst (same peer)) fun peer =>
      congrArg (fun core => core.2.1) (same peer)
  pair member partner := Safe.pairs member (fun _ => .inr partner) fun _ => rfl
  push _ member :=
    Spares.bind (Safe.store member (fun _ => rfl) fun _ => rfl) fun _ => Safe.note _
  made alone _ _ next := Safe.made alone fun p =>
    (next p).mono (fun _ intact => intact) fun _ _ intact => intact.mono (Set.subset_insert p _)
  modify same := Safe.modify (fun s => congrArg Prod.fst (same s)) fun s =>
    congrArg (fun kept => kept.2.2.1) (same s)
  note _ := Safe.note _
  ask := Safe.ask
  get := Safe.get
  call := Safe.call
  abort := by
    intro A fault other s _
    refine ⟨Avoids.error other, fun u s' runs => ?_⟩
    cases runs

theorem safeWalk : Walk @Safe where
  toRules := safeRules
  writeLoop n member :=
    safeRules.writes (fun _ _ here => Safe.store here (fun _ => rfl) fun _ => rfl) member n

/-- Only a queued peer is found, and those are there. -/
theorem popUdpRecvDnsQueryAck_safe (payload : List UInt8) (fromAddr : Nat) (fromPort : Int) :
    Spares .useAfterFree (fun s => s.Intact ∅ ∧ s.view.Queued)
      (popUdpRecvDnsQueryAck payload fromAddr fromPort) fun _ => Popd.Intact ∅ := by
  rintro s ⟨intact, queued⟩
  obtain ⟨client, found, _⟩ := Option.map_eq_some_iff.mp intact.client
  have got : (get : Daemon Popd) s = .ok (s, s) := rfl
  unfold popUdpRecvDnsQueryAck
  rw [bind_runs got, bind_runs (load_found found)]
  split
  · exact Safe.pure _ s intact
  obtain ⟨answer, m, asked⟩ : ∃ answer m, ask s = .ok (answer, m) := ⟨_, _, rfl⟩
  rw [bind_runs asked]
  have after : m.Intact ∅ := (Safe.ask s intact).2 _ _ asked
  rw [← ask_still _ _ _ asked] at queued
  generalize isParsed : domainNameIpv4Addr _ _ = parsed
  have avoids : Avoids .useAfterFree parsed := isParsed ▸ domainNameIpv4Addr_avoids _ _
  have reads : Spares .useAfterFree (fun s => s.Intact ∅ ∧ s.view.Queued) (call parsed)
      fun _ s => s.Intact ∅ ∧ s.view.Queued := by
    rintro t ⟨intact, queued⟩
    obtain ⟨spared, kept⟩ := Safe.call avoids t intact
    refine ⟨spared, fun result t' ran => ⟨kept result t' ran, ?_⟩⟩
    rwa [call_runs ran]
  apply Spares.bind reads
  · intro result
    cases result with
    | none => exact Spares.mono (Safe.pure _) (fun _ before => before.1) fun _ _ intact => intact
    | some result =>
        rintro t ⟨intact, queued⟩
        have got : (get : Daemon Popd) t = .ok (t, t) := rfl
        dsimp only
        rw [bind_runs got]
        cases waiting : dnsWaitAckQueueLookupByID t.dnsAckWaitQueue result.transactionID with
        | none => exact Safe.pure _ t intact
        | some server =>
          obtain ⟨actor, there, _⟩ := queued.live server (dnsWaitAckQueueLookupByID_stores waiting)
          have live := live_view (Option.isSome_of_eq_some there)
          have known : t.Intact {server} :=
            ⟨fun p member => (Set.mem_singleton_iff.mp member) ▸ live, intact.partners,
              intact.client⟩
          have here : server ∈ ({server} : Set Nat) := rfl
          have shrink {x : Daemon Unit} (safe : Safe {server} x) :
              Avoids .useAfterFree (x t) ∧ ∀ a s', x t = .ok (a, s') → s'.Intact ∅ := by
            obtain ⟨spared, kept⟩ := safe t known
            exact ⟨spared, fun a s' ran => (kept a s' ran).mono (Set.empty_subset _)⟩
          apply shrink
          refine Spares.bind (Safe.note _) fun _ => Spares.bind (safeRules.dnsWaitAckQueueDel here)
            fun _ => Spares.bind (Safe.store here (fun _ => rfl) fun _ => rfl) fun _ => ?_
          split
          · exact Safe.pure _
          · refine Spares.bind (Safe.store here (fun _ => rfl) fun _ => rfl) fun _ =>
              Spares.bind (safeRules.popTcpClientEvent here _) fun _ =>
                Spares.bind Safe.get fun _ => ?_
            split
            · exact Safe.modify (fun _ => rfl) fun _ => rfl
            · exact Safe.modify (fun _ => rfl) fun _ => rfl
  · exact ⟨after, queued⟩

/-! ## Deletions -/

/-- The DNS client is no peer that a message may end. -/
def Popd.HasClient (s : Popd) : Prop := s.serviceOf s.dnsClientPeer = some .dnsClient

theorem unlisted_of_delete (once : s.pairedPeerTcpList.Nodup) (same : s'.view = s.view.delete p) :
    p ∉ s'.pairedPeerTcpList := by
  intro member
  have listed : s'.pairedPeerTcpList = s.pairedPeerTcpList.erase p :=
    (congrArg View.listed same).trans (congrArg (fun l => l.erase p) View.listed_cancel)
  rw [listed] at member
  exact ((List.Nodup.mem_erase_iff once).mp member).1 rfl

theorem gone_of_delete (same : s'.view = s.view.delete p) : s'.peers p = none := by
  have removed : s'.view.actors p = none := by
    rw [same]
    exact Function.update_self ..
  exact Option.map_eq_none_iff.mp removed

/-- A deleted peer is not listed any more. -/
theorem popPeerDelete_spares :
    Spares .useAfterFree (fun s => s.Intact {p} ∧ s.serviceOf p = some .httpProxy ∧
        s.pairedPeerTcpList.Nodup) (popPeerDelete p)
      fun _ s => s.HasClient ∧ p ∉ s.pairedPeerTcpList := by
  have here : p ∈ ({p} : Set Nat) := rfl
  have known {α : Type} {x : Daemon α} (safe : Safe {p} x)
      (same : Within (fun s s' => s'.identityOf = s.identityOf) x) :
      Spares .useAfterFree (fun s => s.Intact {p} ∧ s.serviceOf p = some .httpProxy) x
        fun _ s => s.Intact {p} ∧ s.serviceOf p = some .httpProxy := by
    refine Spares.and (safe.mono (fun _ before => before.1) fun _ _ intact => intact) same ?_
    rintro s a s' ⟨_, service⟩ intact identity
    refine ⟨intact, ?_⟩
    have services (t : Popd) : t.serviceOf p = (t.identityOf p).map Identity.serviceType := by
      rw [Popd.serviceOf, Popd.identityOf, Option.map_map]
      rfl
    rw [services, identity, ← services]
    exact service
  have frees : Spares .useAfterFree (fun s => s.Intact {p} ∧ s.serviceOf p = some .httpProxy)
      (free p) fun _ => Popd.HasClient := by
    rintro s ⟨intact, service⟩
    obtain ⟨peer, found⟩ := Option.isSome_iff_exists.mp (intact.live p here)
    have apart : s.dnsClientPeer ≠ p := by
      intro same
      have client := intact.client
      rw [same, service] at client
      cases client
    have freed : free p s = .ok ((), s.put p none (s.inside found)) := by
      unfold free
      split
      next => rfl
      next gone => cases found.symm.trans gone
    rw [freed]
    refine ⟨Avoids.ok _, fun u s' runs => ?_⟩
    cases runs
    change ((s.put p none _).peers s.dnsClientPeer).map _ = _
    rw [put_of_ne _ apart]
    exact intact.client
  have deletes : Spares .useAfterFree (fun s => s.Intact {p} ∧ s.serviceOf p = some .httpProxy)
      (popPeerDelete p) fun _ => Popd.HasClient :=
    Spares.bind (known (Safe.note _) (identityFrame.calm.note _)) fun _ =>
      Spares.bind (known (Safe.store here (fun _ => rfl) fun _ => rfl)
        (identityFrame.store p fun _ => rfl)) fun _ =>
        Spares.bind (known (safeRules.popTcpCanclePaired here)
          (identityFrame.calm.popTcpCanclePaired p)) fun _ =>
          Spares.bind (known (Safe.modify (fun _ => rfl) fun _ => rfl)
            (identityFrame.modify (fun _ => rfl) (fun _ => rfl) (fun _ => rfl) (fun _ => rfl)
              fun _ => rfl)) fun _ =>
            Spares.bind (known (safeRules.dnsWaitAckQueueDel here)
              (identityFrame.calm.dnsWaitAckQueueDel p)) fun _ => frees
  refine Spares.and (deletes.mono (fun _ before => ⟨before.1, before.2.1⟩) fun _ _ client => client)
    (popPeerDelete_effect p) ?_
  rintro s a s' ⟨_, _, once⟩ client same
  exact ⟨client, unlisted_of_delete once same⟩

/-! ## Info handlers -/

section Handlers

variable {ι : Type} {infos : Actor → List ι} {n : Nat}

/-- A handler with turns left finds fewer messages, or a peer that is not listed any more. -/
structure Dealing (infos : Actor → List ι) (p n : Nat) (s : Popd) : Prop where
  turns : 0 < n
  client : s.HasClient
  stands : p ∈ s.pairedPeerTcpList → s.Intact {p} ∧ s.pairedPeerTcpList.Nodup ∧
    ∀ peer, s.peers p = some peer → (infos peer.toActor).length < n

/-- The handler is left by one of the turns: it never comes to the end of its count, where it
would look at the peer without asking whether that is listed. -/
theorem infoLoop_spares {setInfos : List ι → Peer → Peer} {call : ι → Daemon Unit} {deal : InfoDeal}
    (takes : ∀ rest peer, (setInfos rest peer).pairedPeer = peer.pairedPeer ∧
      (setInfos rest peer).serviceType = peer.serviceType ∧
        infos (setInfos rest peer).toActor = rest)
    (calls : ∀ info n, Spares .useAfterFree
      (fun s => Dealing infos p n s ∧ p ∈ s.pairedPeerTcpList) (call info)
        fun _ => Dealing infos p n) :
    Spares .useAfterFree (Dealing infos p n)
      (infoLoop p (fun peer => infos peer.toActor) setInfos call deal n)
        fun _ => Popd.HasClient := by
  induction n with
  | zero =>
      intro s dealing
      exact absurd dealing.turns (Nat.lt_irrefl 0)
  | succ n ih =>
      intro s dealing
      have asks : listed p s = .ok (decide (p ∈ s.pairedPeerTcpList), s) := rfl
      unfold infoLoop
      rw [bind_runs asks]
      by_cases member : p ∈ s.pairedPeerTcpList
      · obtain ⟨intact, once, few⟩ := dealing.stands member
        obtain ⟨peer, found⟩ := Option.isSome_iff_exists.mp (intact.live p rfl)
        have length := few peer found
        rw [if_pos (decide_eq_true member), bind_runs (load_found found)]
        cases messages : infos peer.toActor with
        | nil => exact Spares.pure (fun _ client => client) s dealing.client
        | cons info rest =>
            rw [messages, List.length_cons] at length
            obtain ⟨paired, service, taken⟩ := takes rest peer
            dsimp only
            rw [bind_runs (store_found found _)]
            refine Spares.bind (calls info n) (fun _ => ih) _ ⟨⟨by omega, ?_, fun _ => ?_⟩, member⟩
            · refine (intact.put found (fun q same => ?_) service).client
              apply intact.partners p q
              rw [Popd.pairedOf, found]
              exact paired.symm.trans same
            · refine ⟨intact.put found (fun q same => ?_) service, once, ?_⟩
              · apply intact.partners p q
                rw [Popd.pairedOf, found]
                exact paired.symm.trans same
              · intro again there
                rw [put_self, Option.some.injEq] at there
                rw [← there, taken]
                omega
      · rw [if_neg (by simpa using member)]
        exact Spares.pure (fun _ client => client) s dealing.client

/-- A message that leaves what can be seen of the peers alone, or deletes the peer. -/
theorem eventCall_spares {x : Daemon Unit} {ends : Prop} [Decidable ends]
    (safe : ¬ ends → Safe {p} x)
    (effect : Effect Popd.view x fun v _ v' => v' = if ends then v.delete p else v)
    (deletes : ends → x = popPeerDelete p) :
    Spares .useAfterFree (fun s => Dealing infos p n s ∧ p ∈ s.pairedPeerTcpList) (eventCall p x)
      fun _ => Dealing infos p n := by
  rintro s ⟨dealing, member⟩
  obtain ⟨intact, once, few⟩ := dealing.stands member
  obtain ⟨peer, found⟩ := Option.isSome_iff_exists.mp (intact.live p rfl)
  unfold eventCall
  rw [bind_runs (load_found found)]
  split
  next http =>
    by_cases ending : ends
    · have service : s.serviceOf p = some .httpProxy := by
        rw [Popd.serviceOf, found, Option.map_some, http]
      obtain ⟨spared, leaves⟩ := popPeerDelete_spares s ⟨intact, service, once⟩
      rw [deletes ending]
      refine ⟨spared, fun u s' ran => ?_⟩
      obtain ⟨client, unlisted⟩ := leaves u s' ran
      exact ⟨dealing.turns, client, fun there => absurd there unlisted⟩
    · obtain ⟨spared, leaves⟩ := safe ending s intact
      refine ⟨spared, fun u s' ran => ?_⟩
      have after := leaves u s' ran
      have same : s'.view = if ends then s.view.delete p else s.view := effect s u s' ran
      rw [if_neg ending] at same
      have listed : s'.pairedPeerTcpList = s.pairedPeerTcpList := congrArg View.listed same
      refine ⟨dealing.turns, after.client, fun _ => ⟨after, listed ▸ once, fun peer' found' => ?_⟩⟩
      have actors := actors_view found'
      rw [same, actors_view found, Option.some.injEq] at actors
      rw [← actors]
      exact few peer found
  next => exact Spares.pure (fun _ before => before) s dealing

theorem popTcpClientEventHttpProxyCall_success (member : p ∈ A) :
    Safe A (popTcpClientEventHttpProxyCall p .connectionSuccess) := by
  apply Safe.load member
  intro peer
  split
  · cases partner : peer.pairedPeer with
    | some q =>
        apply Safe.load (.inr rfl)
        intro paired
        split
        · exact safeRules.eventSet (.inl (.inr rfl)) _ _
        · exact Safe.pure _
    | none => exact Safe.pure _
  · split
    · exact safeRules.eventSet (.inl member) _ _
    · exact Safe.pure _

/-- The handler starts with its five turns and at most two messages. -/
theorem eventDeal_spares (infos : Actor → List ι) {setInfos : List ι → Peer → Peer}
    {call : ι → Daemon Unit} (deal : InfoDeal)
    (few : ∀ actor : Actor, actor.inbox.clientInfos.length ≤ 2 →
      actor.inbox.serverInfos.length ≤ 1 → (infos { actor with tInfoDeal := none }).length ≤ 2)
    (takes : ∀ rest peer, (setInfos rest peer).pairedPeer = peer.pairedPeer ∧
      (setInfos rest peer).serviceType = peer.serviceType ∧
        infos (setInfos rest peer).toActor = rest)
    (calls : ∀ info n, Spares .useAfterFree
      (fun s => Dealing infos p n s ∧ p ∈ s.pairedPeerTcpList) (call info)
        fun _ => Dealing infos p n) :
    Spares .useAfterFree (fun s => s.Intact {p} ∧ s.view.Staged)
      (eventDeal p (fun peer => infos peer.toActor) setInfos call deal)
        fun _ => Popd.HasClient := by
  rintro s ⟨intact, staged⟩
  obtain ⟨peer, found⟩ := Option.isSome_iff_exists.mp (intact.live p rfl)
  have stage := staged.stage p peer.inbox (by rw [View.inbox, actors_view found]; rfl)
  unfold eventDeal
  refine Spares.bind (P := fun t => t.Intact {p} ∧ t.peers p = some peer ∧
      t.pairedPeerTcpList.Nodup) (Q := fun _ t => t.Intact {p} ∧ t.peers p = some peer ∧
      t.pairedPeerTcpList.Nodup) ?_ (fun _ => ?_) s ⟨intact, found, staged.nodup_listed⟩
  · rintro t ⟨intact, found, once⟩
    obtain ⟨spared, kept⟩ := Safe.note (fun s => Call.infoRun p (s.typeOf p)
      (decide (p ∈ s.pairedPeerTcpList))) t intact
    refine ⟨spared, fun u t' ran => ⟨kept u t' ran, ?_⟩⟩
    rw [runs_modify ran]
    exact ⟨found, once⟩
  · rintro t ⟨intact, found, once⟩
    rw [bind_runs (store_found found _)]
    have after := (Safe.store (f := fun peer => { peer with tInfoDeal := none })
      (Set.mem_singleton p) (fun _ => rfl) (fun _ => rfl) t intact).2 _ _ (store_found found _)
    refine infoLoop_spares takes calls _ ⟨by decide, after.client, fun _ => ⟨after, once, ?_⟩⟩
    intro again there
    rw [put_self, Option.some.injEq] at there
    rw [← there]
    exact Nat.lt_of_le_of_lt (few peer.toActor stage.clientInfos stage.serverInfos) (by decide)

end Handlers

theorem clientDeal_spares : Spares .useAfterFree (fun s => s.Intact {p} ∧ s.view.Staged)
    (popTcpClientEventDeal p) fun _ => Popd.HasClient := by
  apply eventDeal_spares Actor.tcpClientInfoList .tcpClientEvent
  · intro actor few _
    exact few
  · intro rest peer
    exact ⟨rfl, rfl, rfl⟩
  · intro info n
    apply eventCall_spares _ (popTcpClientEventHttpProxyCall_effect p info)
    · cases info with
      | connectionSuccess => exact absurd rfl
      | connectionError => exact fun _ => rfl
      | connectionBreak => exact fun _ => rfl
    · cases info with
      | connectionSuccess => exact fun _ => popTcpClientEventHttpProxyCall_success rfl
      | connectionError => exact fun keeps => absurd (by decide) keeps
      | connectionBreak => exact fun keeps => absurd (by decide) keeps

theorem serverDeal_spares : Spares .useAfterFree (fun s => s.Intact {p} ∧ s.view.Staged)
    (popTcpServerEventDeal p) fun _ => Popd.HasClient := by
  apply eventDeal_spares Actor.tcpServerInfoList .tcpServerEvent
  · intro actor _ few
    exact Nat.le_succ_of_le few
  · intro rest peer
    exact ⟨rfl, rfl, rfl⟩
  · intro info n
    apply eventCall_spares _ (popTcpServerEventHttpProxyCall_effect p info)
    · cases info with
      | accept => exact absurd rfl
      | break' => exact fun _ => rfl
      | error => exact fun _ => rfl
    · cases info with
      | accept => exact fun _ => Safe.pure _
      | break' => exact fun keeps => absurd (by decide) keeps
      | error => exact fun keeps => absurd (by decide) keeps

theorem infoDeal_spares : Spares .useAfterFree (fun s => s.Intact {p} ∧ s.view.Staged)
    (dispatch (.infoDeal p)) fun _ => Popd.HasClient := by
  rintro s ⟨intact, staged⟩
  obtain ⟨peer, found⟩ := Option.isSome_iff_exists.mp (intact.live p rfl)
  unfold dispatch
  dsimp only
  rw [bind_runs (load_found found)]
  cases peer.tInfoDeal with
  | none => exact Spares.pure (fun _ client => client) s intact.client
  | some deal =>
      cases deal with
      | tcpClientEvent => exact clientDeal_spares s ⟨intact, staged⟩
      | tcpServerEvent => exact serverDeal_spares s ⟨intact, staged⟩

/-! ## The end of a handler -/

section Left

variable {ι : Type} (p : Nat) (infos : Peer → List ι) (setInfos : List ι → Peer → Peer)
  (call : ι → Daemon Unit) (deal : InfoDeal)

/-- `infoLoop`, left by the call that deletes the peer. -/
def leftLoop : Nat → Daemon Unit
  | 0 => infoLoop p infos setInfos call deal 0
  | n + 1 => do
    if ← listed p then
      match infos (← load p) with
      | [] => return
      | info :: rest =>
        store p (setInfos rest)
        call info
        if ((← get).peers p).isSome then leftLoop n

def leftDeal : Daemon Unit := do
  note fun s => .infoRun p (s.typeOf p) (decide (p ∈ s.pairedPeerTcpList))
  store p fun peer => { peer with tInfoDeal := none }
  leftLoop p infos setInfos call deal POP_TRANSINFO_EXECUTE_COUNT

end Left

/-- The info handlers of a peer, left by the call that deletes it. -/
def leftInfoDeal (p : Nat) : Daemon Unit := do
  match (← load p).tInfoDeal with
  | some .tcpClientEvent =>
    leftDeal p (fun peer => peer.tcpClientInfoList)
      (fun rest peer => { peer with tcpClientInfoList := rest }) (popTcpClientEventCall p)
      .tcpClientEvent
  | some .tcpServerEvent =>
    leftDeal p (fun peer => peer.tcpServerInfoList)
      (fun rest peer => { peer with tcpServerInfoList := rest }) (popTcpServerEventCall p)
      .tcpServerEvent
  | none => return

section Left

variable {ι : Type} {infos : Actor → List ι} {setInfos : List ι → Peer → Peer}
  {call : ι → Daemon Unit} {deal : InfoDeal} {ends : ι → Prop}

theorem infoLoop_unlisted {f : Peer → List ι} {n : Nat} {s : Popd} (turns : 0 < n)
    (absent : p ∉ s.pairedPeerTcpList) : infoLoop p f setInfos call deal n s = .ok ((), s) := by
  cases n with
  | zero => omega
  | succ n =>
      have asks : listed p s = .ok (false, s) := by
        rw [← decide_eq_false absent]
        rfl
      rw [infoLoop, bind_runs asks, if_neg Bool.false_ne_true]
      rfl

/-- A peer that was deleted is listed no more, so that the loop ends in its next turn. -/
theorem infoLoop_left [DecidablePred ends] {n : Nat} {s : Popd}
    (takes : ∀ rest peer, infos (setInfos rest peer).toActor = rest)
    (calls : ∀ info, Effect Popd.view (call info) fun v _ v' => ∃ actor, v.actors p = some actor ∧
      v' = if ends info ∧ actor.serviceType = .httpProxy then v.delete p else v)
    (once : s.pairedPeerTcpList.Nodup)
    (few : ∀ peer, s.peers p = some peer → (infos peer.toActor).length < n) :
    infoLoop p (fun peer => infos peer.toActor) setInfos call deal n s =
      leftLoop p (fun peer => infos peer.toActor) setInfos call deal n s := by
  induction n generalizing s with
  | zero => rfl
  | succ n ih =>
      have asks : listed p s = .ok (decide (p ∈ s.pairedPeerTcpList), s) := rfl
      rw [infoLoop, leftLoop, bind_runs asks, bind_runs asks]
      by_cases member : p ∈ s.pairedPeerTcpList
      · rw [if_pos (decide_eq_true member), if_pos (decide_eq_true member)]
        cases found : s.peers p with
        | none => rw [bind_fails (load_gone found), bind_fails (load_gone found)]
        | some peer =>
            have length := few peer found
            rw [bind_runs (load_found found), bind_runs (load_found found)]
            cases messages : infos peer.toActor with
            | nil => rfl
            | cons info rest =>
                rw [messages, List.length_cons] at length
                dsimp only
                rw [bind_runs (store_found found _), bind_runs (store_found found _)]
                set stored := s.put p (some (setInfos rest peer)) (s.inside found)
                cases called : call info stored with
                | error fault => rw [bind_fails called, bind_fails called]
                | ok result =>
                    obtain ⟨u, s'⟩ := result
                    obtain ⟨actor, _, same⟩ := calls info _ _ _ called
                    have got : (get : Daemon Popd) s' = .ok (s', s') := rfl
                    rw [bind_runs called, bind_runs called, bind_runs got]
                    split at same
                    next =>
                      have absent := unlisted_of_delete (s := stored) once same
                      rw [if_neg (by rw [gone_of_delete same]; exact Bool.false_ne_true)]
                      exact infoLoop_unlisted (by omega) absent
                    next =>
                      have listed : s'.pairedPeerTcpList = s.pairedPeerTcpList :=
                        congrArg View.listed same
                      have actors : s'.view.actors p = some (setInfos rest peer).toActor := by
                        rw [same, actors_view (put_self _ _)]
                      have live : (s'.peers p).isSome :=
                        live_view (Option.isSome_of_eq_some actors)
                      rw [if_pos live]
                      refine ih (listed ▸ once) fun peer' found' => ?_
                      rw [actors_view found', Option.some.injEq] at actors
                      rw [actors, takes]
                      omega
      · rw [if_neg (by simpa using member), if_neg (by simpa using member)]

variable (infos) in
theorem eventDeal_left [DecidablePred ends] {s : Popd} (staged : s.view.Staged)
    (few : ∀ actor : Actor, actor.inbox.clientInfos.length ≤ 2 →
      actor.inbox.serverInfos.length ≤ 1 → (infos { actor with tInfoDeal := none }).length ≤ 2)
    (takes : ∀ rest peer, infos (setInfos rest peer).toActor = rest)
    (calls : ∀ info, Effect Popd.view (call info) fun v _ v' => ∃ actor, v.actors p = some actor ∧
      v' = if ends info ∧ actor.serviceType = .httpProxy then v.delete p else v) :
    eventDeal p (fun peer => infos peer.toActor) setInfos call deal s =
      leftDeal p (fun peer => infos peer.toActor) setInfos call deal s := by
  obtain ⟨t, noted, peers, listed⟩ : ∃ t : Popd, note (fun s => .infoRun p (s.typeOf p)
      (decide (p ∈ s.pairedPeerTcpList))) s = .ok ((), t) ∧ t.peers = s.peers ∧
        t.pairedPeerTcpList = s.pairedPeerTcpList :=
    ⟨_, rfl, rfl, rfl⟩
  unfold eventDeal leftDeal
  rw [bind_runs noted, bind_runs noted]
  cases found : t.peers p with
  | none =>
      rw [bind_fails (store_gone found _), bind_fails (store_gone found _)]
  | some peer =>
      have stage := staged.stage p peer.inbox (by rw [View.inbox, actors_view (peers ▸ found)]; rfl)
      rw [bind_runs (store_found found _), bind_runs (store_found found _)]
      refine infoLoop_left takes calls (listed ▸ staged.nodup_listed) fun again there => ?_
      rw [put_self, Option.some.injEq] at there
      rw [← there]
      exact Nat.lt_of_le_of_lt (few peer.toActor stage.clientInfos stage.serverInfos) (by decide)

end Left

/-- In no reachable state does an info handler come back to a peer one of its messages deleted. -/
theorem infoDeal_left (reachable : system.Reachable s) :
    dispatch (.infoDeal p) s = leftInfoDeal p s := by
  have staged := (reachable_view reachable).staged
  cases found : s.peers p with
  | none => exact (bind_fails (load_gone found)).trans (bind_fails (load_gone found)).symm
  | some peer =>
      refine (bind_runs (load_found found)).trans ((?_ : _ = _).trans
        (bind_runs (load_found found)).symm)
      cases peer.tInfoDeal with
      | none => rfl
      | some func =>
          cases func with
          | tcpClientEvent =>
              exact eventDeal_left Actor.tcpClientInfoList staged (fun _ few _ => few)
                (fun _ _ => rfl) fun info =>
                  eventCall_effect p (popTcpClientEventHttpProxyCall_effect p info)
          | tcpServerEvent =>
              exact eventDeal_left Actor.tcpServerInfoList staged
                (fun _ _ few => Nat.le_succ_of_le few) (fun _ _ => rfl) fun info =>
                  eventCall_effect p (popTcpServerEventHttpProxyCall_effect p info)

/-! ## Runs -/

theorem Popd.Intact.with (intact : s.Intact ∅) (live : (s.peers p).isSome) : s.Intact {p} :=
  ⟨fun _ member => (Set.mem_singleton_iff.mp member) ▸ live, intact.partners, intact.client⟩

/-- An event of a peer is of one that is there. -/
theorem live_of_enabled {event : Dispatch} (enabled : s.enabled event = true)
    (of : s.peers p = none → s.enabled event = false) : (s.peers p).isSome := by
  cases found : s.peers p with
  | none => cases enabled.symm.trans (of found)
  | some peer => rfl

theorem dispatch_spares (event : Dispatch) :
    Spares .useAfterFree (fun s => s.Intact ∅ ∧ s.view.Staged ∧ s.enabled event = true)
      (dispatch event) fun _ => Popd.HasClient := by
  rintro s ⟨intact, staged, enabled⟩
  have given {p : Nat} {x : Daemon Unit} (live : (s.peers p).isSome) (safe : Safe {p} x) :
      Avoids .useAfterFree (x s) ∧ ∀ u s', x s = .ok (u, s') → s'.HasClient := by
    obtain ⟨spared, kept⟩ := safe s (intact.with live)
    exact ⟨spared, fun u s' ran => (kept u s' ran).client⟩
  cases event with
  | accept clients broken =>
      exact (safeRules.popHttpProxyTcpServerAccept clients broken).mono (fun _ before => before)
        (fun _ _ after => after.client) s intact
  | socket p read write error =>
      have live : (s.peers p).isSome :=
        live_of_enabled enabled fun gone => by simp [Popd.enabled, gone]
      exact given live (safeWalk.socketEvent (Set.mem_singleton p) read write error)
  | connectExpired p =>
      have live : (s.peers p).isSome :=
        live_of_enabled enabled fun gone => by simp [Popd.enabled, gone]
      exact given live (safeRules.popTcpClientConnectExpired (Set.mem_singleton p))
  | dnsWaitAckTimeout p =>
      have live : (s.peers p).isSome :=
        live_of_enabled enabled fun gone => by simp [Popd.enabled, gone]
      exact given live (safeRules.dnsWaitAckTimeoutCall (Set.mem_singleton p))
  | infoDeal p =>
      have live : (s.peers p).isSome :=
        live_of_enabled enabled fun gone => by simp [Popd.enabled, gone]
      exact infoDeal_spares s ⟨intact.with live, staged⟩
  | datagram payload fromAddr fromPort =>
      exact (popUdpRecvDnsQueryAck_safe payload fromAddr fromPort).mono (fun _ before => before)
        (fun _ _ after => after.client) s ⟨intact, staged.toQueued⟩
  | cacheCheck =>
      have checks : Safe ∅ (dispatch .cacheCheck) :=
        Spares.bind Safe.ask fun _ => Safe.modify (fun _ => rfl) fun _ => rfl
      exact checks.mono (fun _ before => before) (fun _ _ after => after.client) s intact

theorem intact_of_free (reachable : system.Reachable s) (free : ∀ call ∈ s.log, call.takesFree)
    (client : s.HasClient) : s.Intact ∅ := by
  refine ⟨fun _ member => absurd member (Set.notMem_empty _), fun p q paired => ?_, client⟩
  have back := (reachable_view reachable).mutual free p q
  rw [pairedOf_view, pairedOf_view] at back
  obtain ⟨partner, live, _⟩ := Option.bind_eq_some_iff.mp (back paired)
  exact Option.isSome_of_eq_some live

theorem client_of_free (reachable : system.Reachable s)
    (free : ∀ call ∈ s.log, call.takesFree) : s.HasClient := by
  induction reachable with
  | start starts =>
      obtain ⟨sockfd, answers, rfl⟩ := starts
      rfl
  | @step t s' event before enabled executes ih =>
      obtain ⟨u, ran⟩ := exec_runs executes
      obtain ⟨calls, log, _⟩ := dispatch_consistent ran
      have earlier : ∀ call ∈ t.log, call.takesFree := by
        intro call member
        apply free call
        rw [log]
        exact List.mem_append_right calls member
      have intact := intact_of_free before earlier (ih earlier)
      exact (dispatch_spares event t ⟨intact, (reachable_view before).staged, enabled⟩).2 u s' ran

/-- As long as no request took a client that had a partner, the queue holds live peers only, and
no event makes the daemon read or free a peer that was freed. -/
theorem no_freed_peer_read (reachable : system.Reachable s)
    (free : ∀ call ∈ s.log, call.takesFree) :
    (∀ p, s.dnsAckWaitQueue.Stores p → (s.peers p).isSome) ∧
      ∀ event, s.enabled event = true → dispatch event s ≠ .error .useAfterFree := by
  have staged := (reachable_view reachable).staged
  constructor
  · intro p stored
    obtain ⟨actor, there, _⟩ := staged.live p stored
    exact live_view (Option.isSome_of_eq_some there)
  · intro event enabled
    exact (dispatch_spares event s ⟨intact_of_free reachable free (client_of_free reachable free),
      staged, enabled⟩).1

/-- The client of a request goes away. -/
def leavingEvents : List Dispatch :=
  [.accept [(5, 1, 2)] false, .socket 1 true false false, .socket 1 true false false]

theorem no_freed_peer_read_sample : ∃ s, system.Reachable s ∧ s.enabled (.infoDeal 1) = true ∧
    dispatch (.infoDeal 1) s ≠ .error .useAfterFree := by
  have runs : (replay (fun n => if n = 1 then { read := getRequest } else { retry := n < 5 })
      leavingEvents).map (fun s => (s.enabled (.infoDeal 1), s.log.all Call.takesFree)) =
        some (true, true) := by decide +kernel
  obtain ⟨s, ran, facts⟩ := Option.map_eq_some_iff.mp runs
  obtain ⟨enabled, free⟩ := Prod.mk.inj facts
  have reachable := replay_reachable ran
  exact ⟨s, reachable, enabled,
    (no_freed_peer_read reachable (List.all_eq_true.mp free)).2 (.infoDeal 1) enabled⟩

/-- A peer whose partner is gone reads it when its query times out. -/
theorem timeout_reads_freed {peer : Peer} (found : s.peers p = some peer)
    (partner : peer.pairedPeer = some q) (gone : s.peers q = none) :
    dispatch (.dnsWaitAckTimeout p) s = .error .useAfterFree := by
  have apart : q ≠ p := by
    rintro rfl
    cases found.symm.trans gone
  have stored := store_found found fun peer => { peer with tDnsWaitAck := false }
  generalize isM : s.put p (some { peer with tDnsWaitAck := false }) (s.inside found) = m at stored
  have there : m.peers p = some { peer with tDnsWaitAck := false } := by rw [← isM, put_self]
  have lost : m.peers q = none := by rw [← isM, put_of_ne _ apart, gone]
  obtain ⟨m', dropped, same⟩ :
      ∃ m', dnsWaitAckQueueDel p m = .ok ((), m') ∧ m'.peers = m.peers := by
    unfold dnsWaitAckQueueDel
    rw [bind_runs (load_found there)]
    exact ⟨_, rfl, rfl⟩
  have reads : popTcpClosePeer q m' = .error .useAfterFree :=
    bind_fails (load_gone (by rw [same, lost]))
  change dnsWaitAckTimeoutCall p s = _
  unfold dnsWaitAckTimeoutCall
  rw [bind_runs stored, bind_runs dropped]
  unfold popTcpClosePairedPeer
  rw [bind_runs (load_found (same ▸ there))]
  simp only [partner]
  exact bind_fails reads

/-- The server-side peer of the first of two requests keeps the client as its partner. -/
theorem second_request_reads_freed : ∃ s, system.Reachable s ∧
    s.enabled (.dnsWaitAckTimeout 2) = true ∧
      dispatch (.dnsWaitAckTimeout 2) s = .error .useAfterFree := by
  have runs : (replay
      (fun n => if n = 1 ∨ n = 4 then { read := getRequest } else { retry := n < 8 })
      (leavingEvents ++ [.infoDeal 1])).map (fun s => (s.enabled (.dnsWaitAckTimeout 2),
        s.pairedOf 2, (s.peers 1).isNone)) = some (true, some 1, true) := by
    decide +kernel
  obtain ⟨s, ran, facts⟩ := Option.map_eq_some_iff.mp runs
  obtain ⟨enabled, rest⟩ := Prod.mk.inj facts
  obtain ⟨paired, gone⟩ := Prod.mk.inj rest
  obtain ⟨peer, found, partner⟩ := Option.bind_eq_some_iff.mp paired
  exact ⟨s, replay_reachable ran, enabled,
    timeout_reads_freed found partner (Option.isNone_iff_eq_none.mp gone)⟩

end Poplar.Proxy
