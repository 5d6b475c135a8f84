import Poplar.Proxy.Network
import Poplar.Proxy.Refine

/-!
# A dispatch of the daemon is a sequence of steps of its view

The bytes a peer read stay in its `recv_buffer` until they are pushed somewhere, which is
why what is pushed is what was read.
-/
namespace Poplar.Proxy

open Effects Poplar.Domain

def Popd.bufferOf (s : Popd) (p : Nat) : Option (List UInt8) :=
  (s.peers p).map fun peer => peer.recvBuffer

section Buffers

variable {p : Nat} {s s' : Popd} {u : Unit}

theorem call_runs {α : Type} {result : Except Fault α} {a : α}
    (runs : call result s = .ok (a, s')) : s' = s := by
  unfold call at runs
  cases result with
  | error fault => cases runs
  | ok value =>
      cases runs
      rfl

theorem call_result {α : Type} {outcome : Except Fault α} {a : α}
    (runs : call outcome s = .ok (a, s')) : outcome = .ok a := by
  cases outcome with
  | error fault => cases runs
  | ok value =>
      cases runs
      rfl

theorem store_buffer {f : Peer → Peer} (runs : store p f s = .ok (u, s'))
    (same : ∀ peer, (f peer).recvBuffer = peer.recvBuffer) : s'.bufferOf = s.bufferOf := by
  unfold store at runs
  split at runs
  next peer found =>
    cases runs
    funext q
    by_cases here : q = p
    · subst here
      simp [Popd.bufferOf, Popd.put, found, same]
    · simp [Popd.bufferOf, Popd.put, here]
  next => cases runs

theorem note_buffer {call : Popd → Call} (runs : note call s = .ok (u, s')) :
    s'.bufferOf = s.bufferOf := by
  rw [runs_modify runs]
  rfl

theorem popPeersPaired_buffer {p1 p2 : Nat} (runs : popPeersPaired p1 p2 s = .ok (u, s')) :
    s'.bufferOf = s.bufferOf := by
  obtain ⟨_, s₁, noted, runs⟩ := runs_bind runs
  obtain ⟨_, s₂, first, second⟩ := runs_bind runs
  rw [store_buffer second fun _ => rfl, store_buffer first fun _ => rfl, note_buffer noted]

theorem streamFifoPush_runs {bytes : List UInt8} {origin : Option Nat}
    (runs : streamFifoPush p bytes origin s = .ok (u, s')) :
    s'.view = s.view.note (.queued p bytes origin) ∧ s'.bufferOf = s.bufferOf := by
  obtain ⟨_, s₁, stored, noted⟩ := runs_bind runs
  rw [note_runs noted, store_unseen stored fun _ => rfl, note_buffer noted,
    store_buffer stored fun _ => rfl]
  exact ⟨rfl, rfl⟩

theorem streamFifoPushDup_runs {origin : Nat} {bytes : List UInt8}
    (holds : s.bufferOf origin = some bytes) (runs : streamFifoPushDup p origin s = .ok (u, s')) :
    s'.view = s.view.note (.queued p bytes (some origin)) ∧ s'.bufferOf = s.bufferOf := by
  obtain ⟨peer, s₁, loaded, rest⟩ := runs_bind runs
  obtain ⟨found, same⟩ := load_runs loaded
  have read : peer.recvBuffer = bytes := by
    rw [Popd.bufferOf, found] at holds
    exact Option.some.inj holds
  rw [same, read] at rest
  exact streamFifoPush_runs rest

theorem View.alloc_modify (v : View) (actor : Actor) (f : Actor → Actor) :
    (v.alloc actor).modify v.next f = v.alloc (f actor) := by
  refine View.same ?_ rfl rfl rfl rfl
  simp [View.modify_actors, View.alloc]

/-- A new peer takes the place of no other. -/
theorem popRemoteServerPeerMake_runs {host : Http.HostPort} {server : Nat}
    (runs : popRemoteServerPeerMake host s = .ok (server, s')) :
    server = s.view.next ∧ s'.view = s.view.alloc View.serverActor ∧
      ∀ q, (s.bufferOf q).isSome → s'.bufferOf q = s.bufferOf q := by
  unfold popRemoteServerPeerMake at runs
  obtain ⟨fresh, s₁, made, rest⟩ := runs_bind runs
  dsimp only at rest
  obtain ⟨_, s₂, stored, rest⟩ := runs_bind rest
  obtain ⟨rfl, rfl⟩ := runs_pure rest
  obtain ⟨first, alloc⟩ := popPeerNew_effect _ _ _ made
  refine ⟨first, ?_, fun q live => ?_⟩
  · rw [store_runs (fun actor => { actor with
      serviceType := .httpProxy, tcpPeerType := .server, tcpClientStatus := .idle }) stored
      fun _ => rfl, alloc, first, View.alloc_modify]
    rfl
  · have other : q ≠ s.next := by
      rintro rfl
      simp [Popd.bufferOf, s.fresh _ (Nat.le_refl _)] at live
    rw [store_buffer stored fun _ => rfl]
    cases made
    simp [Popd.bufferOf, other]

end Buffers

/-! ## Requests -/

theorem popGetHostByNameUnblock_effect (p : Nat) :
    Effect Popd.view (popGetHostByNameUnblock p) fun v ret v' =>
      (0 ≤ ret ∧ ∃ id, v' = v.wait p id) ∨ (ret < 0 ∧ v' = v) := by
  intro s ret s' runs
  unfold popGetHostByNameUnblock at runs
  obtain ⟨peer, s₁, loaded, rest⟩ := runs_bind runs
  dsimp only at rest
  obtain ⟨state, s₂, got, rest⟩ := runs_bind rest
  obtain ⟨answer, s₃, asked, rest⟩ := runs_bind rest
  obtain ⟨⟨code, next, sent⟩, s₄, queried, rest⟩ := runs_bind rest
  dsimp only at rest
  obtain ⟨_, s₅, advanced, rest⟩ := runs_bind rest
  have same : s₅.view = s.view := by
    rw [modify_unseen advanced fun _ => rfl, call_runs queried, ask_still _ _ _ asked,
      (runs_get got).2, load_still p _ _ _ loaded]
  split at rest
  next => exact .inr ⟨by rw [(runs_pure rest).1]; decide, by rw [(runs_pure rest).2, same]⟩
  next =>
    obtain ⟨_, s₆, stored, rest⟩ := runs_bind rest
    obtain ⟨_, s₇, added, rest⟩ := runs_bind rest
    obtain ⟨_, s₈, armed, rest⟩ := runs_bind rest
    refine .inl ⟨(runs_pure rest).1 ▸ Int.le_refl 0, (next + 2 ^ 16 - 1) % 2 ^ 16, ?_⟩
    rw [(runs_pure rest).2, store_runs (fun actor => { actor with tDnsWaitAck := true }) armed
      fun _ => rfl, dnsWaitAckQueueAdd_effect p _ _ _ added,
      store_runs (fun actor => { actor with dnsTransactionID := (next + 2 ^ 16 - 1) % 2 ^ 16 })
        stored fun _ => rfl, same]
    rfl

/-- The host is known and the connection starts, or the peer waits, or nothing was sent. -/
theorem domainParseHost_effect (p : Nat) (dropExpired : Bool) :
    Effect Popd.view (domainParseHost p dropExpired) fun v ret v' =>
      (0 ≤ ret ∧ (View.Started p v v' ∨ ∃ id, v' = v.wait p id)) ∨ (ret < 0 ∧ v' = v) := by
  have looksUp : Effect Popd.view (popGetHostByNameUnblock p) fun v ret v' =>
      (0 ≤ ret ∧ (View.Started p v v' ∨ ∃ id, v' = v.wait p id)) ∨ (ret < 0 ∧ v' = v) := by
    intro s ret s' runs
    exact (popGetHostByNameUnblock_effect p s ret s' runs).imp_left fun waits =>
      ⟨waits.1, .inr waits.2⟩
  refine Still.bind (load_still p) fun peer => ?_
  split
  · intro s ret s' runs
    obtain ⟨_, s₁, started, rest⟩ := runs_bind runs
    obtain ⟨rfl, rfl⟩ := runs_pure rest
    exact .inl ⟨Int.le_refl 0, .inl (popTcpClientEvent_start p _ _ _ started)⟩
  · refine Still.bind ask_still fun answer => ?_
    intro s ret s' runs
    dsimp only at runs
    obtain ⟨state, s₁, got, rest⟩ := runs_bind runs
    rw [(runs_get got).2] at rest
    cases found : dnsCacheLookupByHostname state.dnsCache peer.remoteHostname with
    | none =>
      simp only [found] at rest
      exact looksUp _ _ _ rest
    | some result =>
      simp only [found] at rest
      split at rest
      next valid =>
        obtain ⟨_, s₂, stored, rest⟩ := runs_bind rest
        obtain ⟨_, s₃, updated, rest⟩ := runs_bind rest
        obtain ⟨_, s₄, started, rest⟩ := runs_bind rest
        obtain ⟨rfl, rfl⟩ := runs_pure rest
        have same : s₃.view = s.view := by
          rw [modify_unseen updated fun _ => rfl, store_unseen stored fun _ => rfl]
        exact .inl ⟨Int.le_refl 0, .inl (same ▸ popTcpClientEvent_start p _ _ _ started)⟩
      next expired =>
        split at rest
        next =>
          obtain ⟨_, s₂, dropped, rest⟩ := runs_bind rest
          rw [← modify_unseen dropped fun _ => rfl]
          exact looksUp _ _ _ rest
        next => exact looksUp _ _ _ rest

theorem requestHost_runs {p : Nat} {host : Option Http.HostPort} {s s' : Popd}
    (runs : requestHost p s = .ok (host, s')) : s' = s := by
  unfold requestHost at runs
  obtain ⟨peer, s₁, loaded, rest⟩ := runs_bind runs
  dsimp only at rest
  obtain ⟨sline, s₂, parsed, rest⟩ := runs_bind rest
  rw [call_runs parsed, (load_runs loaded).2] at rest
  split at rest
  · exact (runs_pure rest).2
  · exact call_runs rest

theorem requestError_effect (client : Nat) :
    Effect Popd.view (requestError client) fun v _ v' => View.Closed client v v' := by
  intro s ret s' runs
  obtain ⟨_, s₁, closed, rest⟩ := runs_bind runs
  rw [(runs_pure rest).2]
  exact popTcpClosePairedPeer_effect client _ _ _ closed

/-- What follows the lookup of the host of the server-side peer. -/
theorem resolved_effect (server client : Nat) (dropExpired : Bool) :
    Effect Popd.view (do
      if (← domainParseHost server dropExpired) < 0 then requestError client else return 0 :
        Daemon Int) fun v _ v' => View.Resolved server client v v' := by
  intro s ret s' runs
  obtain ⟨code, s₁, parsed, rest⟩ := runs_bind runs
  have resolved := domainParseHost_effect server dropExpired _ _ _ parsed
  split at rest
  next failed =>
    obtain ⟨passed, _⟩ | ⟨_, same⟩ := resolved
    · omega
    · exact .unsent (same ▸ requestError_effect client _ _ _ rest)
  next passed =>
    rw [(runs_pure rest).2]
    obtain ⟨_, started | ⟨id, waits⟩⟩ | ⟨failed, _⟩ := resolved
    · exact .starts started
    · exact waits ▸ .waits id
    · exact absurd failed passed

section Handling

variable {p : Nat} {s s' : Popd} {bytes : List UInt8}

/-- What a request leads to is settled by the host its first line names. -/
theorem popHttpProxyRequestGet_runs {ret : Int} (holds : s.bufferOf p = some bytes)
    (runs : popHttpProxyRequestGet p s = .ok (ret, s')) :
    ∃ host, requestHost p s = .ok (host, s) ∧
      (host = none ∧ View.Closed p s.view s'.view ∨ host.isSome = true ∧
        View.Resolved s.view.next p (((s.view.openServer p).note
          (.queued s.view.next bytes (some p))).note (.requested p s.view.next bytes)) s'.view) := by
  obtain ⟨host, s₁, parsed, rest⟩ := runs_bind runs
  have same := requestHost_runs parsed
  subst same
  refine ⟨host, parsed, ?_⟩
  cases host with
  | none => exact .inl ⟨rfl, requestError_effect p _ _ _ rest⟩
  | some host =>
      obtain ⟨server, s₂, made, rest⟩ := runs_bind rest
      obtain ⟨_, s₃, paired, rest⟩ := runs_bind rest
      obtain ⟨_, s₄, pushed, rest⟩ := runs_bind rest
      obtain ⟨peer, s₅, loaded, rest⟩ := runs_bind rest
      obtain ⟨_, s₆, noted, rest⟩ := runs_bind rest
      obtain ⟨fresh, alloc, kept⟩ := popRemoteServerPeerMake_runs made
      have holds₂ : s₂.bufferOf p = some bytes := by rw [kept p (by rw [holds]; rfl), holds]
      have holds₃ : s₃.bufferOf p = some bytes := by rw [popPeersPaired_buffer paired, holds₂]
      obtain ⟨queued, same⟩ := streamFifoPushDup_runs holds₃ pushed
      have read : peer.recvBuffer = bytes := by
        rw [← same, Popd.bufferOf, (load_runs loaded).1] at holds₃
        exact Option.some.inj holds₃
      have resolved := resolved_effect server p true _ _ _ rest
      rw [note_runs noted, (load_runs loaded).2, queued, popPeersPaired_effect _ _ _ _ _ paired,
        alloc, fresh, read] at resolved
      exact .inr ⟨rfl, resolved⟩

theorem popHttpProxyRequestConnect_runs {ret : Int}
    (runs : popHttpProxyRequestConnect p s = .ok (ret, s')) :
    View.Closed p s.view s'.view ∨
      View.Resolved s.view.next p ((s.view.openServer p).note
        (.queued p HTTP_METHOD_CONNECT_ESTABLISHED none)) s'.view := by
  obtain ⟨host, s₁, parsed, rest⟩ := runs_bind runs
  rw [requestHost_runs parsed] at rest
  cases host with
  | none => exact .inl (requestError_effect p _ _ _ rest)
  | some host =>
      obtain ⟨server, s₂, made, rest⟩ := runs_bind rest
      obtain ⟨_, s₃, paired, rest⟩ := runs_bind rest
      obtain ⟨_, s₄, pushed, rest⟩ := runs_bind rest
      obtain ⟨_, s₅, stored, rest⟩ := runs_bind rest
      obtain ⟨fresh, alloc, _⟩ := popRemoteServerPeerMake_runs made
      have resolved := resolved_effect server p false _ _ _ rest
      rw [store_unseen stored fun _ => rfl, (streamFifoPush_runs pushed).1,
        popPeersPaired_effect _ _ _ _ _ paired, alloc, fresh] at resolved
      exact .inr resolved

theorem partnerBusy_runs {busy : Bool} (runs : partnerBusy p s = .ok (busy, s')) : s' = s := by
  obtain ⟨peer, s₁, loaded, rest⟩ := runs_bind runs
  rw [(load_runs loaded).2] at rest
  cases partner : peer.pairedPeer with
  | none =>
      simp only [partner] at rest
      exact (runs_pure rest).2
  | some q =>
      simp only [partner] at rest
      obtain ⟨paired, s₂, other, rest⟩ := runs_bind rest
      rw [(runs_pure rest).2, (load_runs other).2]

/-- A client-side peer whose bytes are not forwarded to an established partner. -/
theorem popHttpProxyRequestEvent_runs {ret : Int} (client : s.view.typeOf p = some .client)
    (waits : ¬ s.view.Forwards p) (holds : s.bufferOf p = some bytes)
    (runs : popHttpProxyRequestEvent p s = .ok (ret, s')) :
    View.Handled p bytes s.view s'.view := by
  have delays : ∀ {ret : Int} {s' : Popd}, (do streamFifoPushDup p p; return 0 : Daemon Int) s =
      .ok (ret, s') → View.Handled p bytes s.view s'.view := by
    intro ret s' runs
    obtain ⟨_, s₁, pushed, rest⟩ := runs_bind runs
    rw [(runs_pure rest).2, (streamFifoPushDup_runs holds pushed).1]
    exact .delay client waits
  obtain ⟨busy, s₁, looked, rest⟩ := runs_bind runs
  rw [partnerBusy_runs looked] at rest
  split at rest
  next => exact delays rest
  next =>
    obtain ⟨peer, s₂, loaded, rest⟩ := runs_bind rest
    rw [(load_runs loaded).2] at rest
    have gets : ∀ {ret : Int} {s' : Popd}, popHttpProxyRequestGet p s = .ok (ret, s') →
        View.Handled p bytes s.view s'.view := by
      intro ret s' runs
      obtain ⟨host, _, ⟨_, closed⟩ | ⟨_, resolved⟩⟩ := popHttpProxyRequestGet_runs holds runs
      · exact .refuse client waits closed
      · exact .request client waits resolved
    have prints : ∀ {ret : Int} {s' : Popd}, (return 0 : Daemon Int) s = .ok (ret, s') →
        View.Handled p bytes s.view s'.view := fun runs =>
      by
        rw [(runs_pure runs).2]
        exact .ignore fun _ _ => waits
    cases asks : Http.popHttpProxyMethodMatch peer.recvBuffer with
    | none =>
        simp only [asks] at rest
        exact delays rest
    | some method =>
        simp only [asks] at rest
        cases method with
        | get | head | put | post => exact gets rest
        | connect =>
            exact (popHttpProxyRequestConnect_runs rest).elim (.refuse client waits)
              (.tunnel client waits)
        | trace | options | delete | lock | mkcol | copy | move => exact prints rest

/-! ## Sockets -/

theorem writeLoop_effect (p n : Nat) :
    Effect Popd.view (writeLoop p n) fun v _ v' => View.Written p v v' := by
  induction n with
  | zero => exact fun s a s' runs => .inl (by rw [(runs_pure runs).2])
  | succ n ih =>
      intro s a s' runs
      unfold writeLoop at runs
      obtain ⟨peer, s₁, loaded, rest⟩ := runs_bind runs
      rw [(load_runs loaded).2] at rest
      cases fifo : peer.writeFifo with
      | nil =>
          simp only [fifo] at rest
          exact .inl (by rw [(runs_pure rest).2])
      | cons stream others =>
          simp only [fifo] at rest
          obtain ⟨answer, s₂, asked, rest⟩ := runs_bind rest
          have same := ask_still _ _ _ asked
          rw [← same]
          generalize (if peer.sockfd < 0 then none else answer.write) = written at rest
          cases written with
          | none =>
              dsimp only at rest
              split at rest
              · exact .inl (by rw [(runs_pure rest).2])
              · obtain ⟨_, s₃, closed, rest⟩ := runs_bind rest
                rw [(runs_pure rest).2]
                exact .inr (popTcpClosePairedPeer_effect p _ _ _ closed)
          | some num =>
              dsimp only at rest
              split at rest
              · obtain ⟨_, s₃, stored, rest⟩ := runs_bind rest
                exact .inl (by rw [(runs_pure rest).2, store_unseen stored fun _ => rfl])
              · obtain ⟨_, s₃, stored, rest⟩ := runs_bind rest
                exact store_unseen stored (fun _ => rfl) ▸ ih _ _ _ rest

theorem popHttpProxyTcpWrite_effect (p : Nat) :
    Effect Popd.view (popHttpProxyTcpWrite p) fun v _ v' => View.Written p v v' := by
  intro s u s' runs
  obtain ⟨peer, s₁, loaded, rest⟩ := runs_bind runs
  rw [(load_runs loaded).2] at rest
  obtain ⟨left, s₂, wrote, rest⟩ := runs_bind rest
  have written := writeLoop_effect p _ _ _ _ wrote
  split at rest
  · exact (runs_pure rest).2 ▸ written
  · obtain ⟨other, s₃, again, rest⟩ := runs_bind rest
    rw [eventSet_still _ _ _ _ _ _ rest, (load_runs again).2]
    exact written

theorem popTcpPacketTranspond_runs {q : Nat} {u : Unit} (holds : s.bufferOf p = some bytes)
    (runs : popTcpPacketTranspond q p s = .ok (u, s')) :
    View.Written q (s.view.note (.queued q bytes (some p))) s'.view := by
  obtain ⟨_, s₁, pushed, wrote⟩ := runs_bind runs
  exact (streamFifoPushDup_runs holds pushed).1 ▸ popHttpProxyTcpWrite_effect q _ _ _ wrote

/-- Messages are forwarded to a partner of the other side that is connected. -/
theorem popCheckWhetherMsgForward_runs {peer : Peer} {answer : Bool}
    (found : s.peers p = some peer) (runs : popCheckWhetherMsgForward p s = .ok (answer, s')) :
    s' = s ∧
      (answer = true → ∃ q type status, peer.pairedPeer = some q ∧
        s.view.partnerOf p = some (q, type, status) ∧
        (peer.tcpPeerType = .client ∧ type = .server ∧ status = .establish ∨
          peer.tcpPeerType = .server ∧ type = .client)) ∧
      (answer = false → peer.tcpPeerType = .client → ¬ s.view.Forwards p) := by
  obtain ⟨same, s₁, loaded, rest⟩ := runs_bind runs
  obtain ⟨again, unchanged⟩ := load_runs loaded
  rw [found] at again
  cases again
  rw [unchanged] at rest
  cases partner : peer.pairedPeer with
  | none =>
      simp only [partner] at rest
      obtain ⟨rfl, rfl⟩ := runs_pure rest
      refine ⟨rfl, by simp, fun _ _ => ?_⟩
      rintro ⟨q, forwards⟩
      simp [View.partnerOf, View.pairedOf_found (actors_view found), partner] at forwards
  | some q =>
      simp only [partner] at rest
      obtain ⟨other, s₂, second, rest⟩ := runs_bind rest
      obtain ⟨live, unchanged⟩ := load_runs second
      rw [unchanged] at rest
      have paired := View.partnerOf_found (actors_view found) partner (actors_view live)
      split at rest
      next establish =>
        obtain ⟨rfl, rfl⟩ := runs_pure rest
        exact ⟨rfl, fun _ => ⟨q, _, _, rfl, paired, .inl establish⟩, by simp⟩
      next waits =>
        split at rest
        next back =>
          obtain ⟨rfl, rfl⟩ := runs_pure rest
          exact ⟨rfl, fun _ => ⟨q, _, _, rfl, paired, .inr ⟨back.1, back.2.1⟩⟩, by simp⟩
        next =>
          obtain ⟨rfl, rfl⟩ := runs_pure rest
          refine ⟨rfl, by simp, fun _ client => ?_⟩
          rintro ⟨r, forwards⟩
          rw [paired] at forwards
          simp only [Option.some.injEq, Prod.mk.injEq] at forwards
          exact waits ⟨client, forwards.2⟩

theorem popHttpProxyMessageDeal_runs {u : Unit} (holds : s.bufferOf p = some bytes)
    (runs : popHttpProxyMessageDeal p s = .ok (u, s')) : View.Handled p bytes s.view s'.view := by
  obtain ⟨peer, s₁, loaded, rest⟩ := runs_bind runs
  obtain ⟨found, same⟩ := load_runs loaded
  rw [same] at rest
  have type : s.view.typeOf p = some peer.tcpPeerType := by
    rw [View.typeOf, actors_view found, Option.map_some]
  split at rest
  next =>
    cases side : peer.tcpPeerType with
    | client =>
        rw [side] at type
        simp only [side] at rest
        obtain ⟨answer, s₂, checked, rest⟩ := runs_bind rest
        obtain ⟨unchanged, forwards, waits⟩ := popCheckWhetherMsgForward_runs found checked
        rw [unchanged] at rest
        split at rest
        next yes =>
          obtain ⟨q, _, _, partner, paired, ⟨-, rfl, rfl⟩ | ⟨server, -⟩⟩ := forwards yes
          · simp only [partner] at rest
            exact .forward type paired (popTcpPacketTranspond_runs holds rest)
          · simp [side] at server
        next no =>
          obtain ⟨_, s₃, asked, rest⟩ := runs_bind rest
          rw [(runs_pure rest).2]
          exact popHttpProxyRequestEvent_runs type (waits (Bool.eq_false_iff.mpr no) side) holds asked
    | server =>
        rw [side] at type
        simp only [side] at rest
        obtain ⟨answer, s₂, checked, rest⟩ := runs_bind rest
        obtain ⟨unchanged, forwards, _⟩ := popCheckWhetherMsgForward_runs found checked
        rw [unchanged] at rest
        split at rest
        next yes =>
          obtain ⟨q, _, _, partner, paired, ⟨client, -⟩ | ⟨-, rfl⟩⟩ := forwards yes
          · simp [side] at client
          · simp only [partner] at rest
            exact .back type paired (popTcpPacketTranspond_runs holds rest)
        next =>
          rw [(runs_pure rest).2]
          exact .ignore (by simp [type])
    | unknown =>
        rw [side] at type
        simp only [side] at rest
        rw [(runs_pure rest).2]
        exact .ignore (by simp [type])
  next other =>
    have service : s.view.serviceOf p = some peer.serviceType := by
      rw [View.serviceOf, actors_view found, Option.map_some]
    rw [(runs_pure rest).2]
    exact .ignore fun proxy => absurd (Option.some.inj (service.symm.trans proxy)) other

theorem store_read {u : Unit} (runs : store p (fun peer => { peer with recvBuffer := bytes }) s =
    .ok (u, s')) : s'.view = s.view ∧ s'.bufferOf p = some bytes := by
  refine ⟨store_unseen runs fun _ => rfl, ?_⟩
  unfold store at runs
  split at runs
  next peer found =>
    cases runs
    simp [Popd.bufferOf, Popd.put]
  next => cases runs

/-- The induction follows the turns of the loop. -/
theorem readLoop_effect (p n : Nat) :
    Effect Popd.view (readLoop p n) fun v _ v' => View.Reads p v v' := by
  induction n with
  | zero =>
      intro s a s' runs
      rw [(runs_pure runs).2]
      exact .done _
  | succ n ih =>
      intro s a s' runs
      unfold readLoop at runs
      obtain ⟨answer, s₁, asked, rest⟩ := runs_bind runs
      obtain ⟨peer, s₂, loaded, rest⟩ := runs_bind rest
      rw [(load_runs loaded).2] at rest
      dsimp only at rest
      generalize (if peer.sockfd < 0 then [] else answer.read.take MAX_RECV_PACKET_SIZE) = bytes
        at rest
      obtain ⟨_, s₃, stored, rest⟩ := runs_bind rest
      obtain ⟨unseen, holds⟩ := store_read stored
      rw [← ask_still _ _ _ asked, ← unseen]
      split at rest
      next =>
        split at rest
        next =>
          rw [(runs_pure rest).2]
          exact .done _
        next =>
          obtain ⟨_, s₄, closed, rest⟩ := runs_bind rest
          rw [(runs_pure rest).2]
          exact .broken (popTcpClosePairedPeer_effect p _ _ _ closed)
      next =>
        obtain ⟨_, s₄, noted, rest⟩ := runs_bind rest
        obtain ⟨_, s₅, dealt, rest⟩ := runs_bind rest
        have handled := popHttpProxyMessageDeal_runs ((note_buffer noted).symm ▸ holds) dealt
        rw [note_runs noted, ← partnerOf_view] at handled
        exact .chunk handled (ih _ _ _ rest)

end Handling

/-! ## Dispatches -/

theorem steps_written {p : Nat} {v v' : View} (written : View.Written p v v') :
    Relation.ReflTransGen View.Step v v' := by
  obtain rfl | closed := written
  · exact .refl
  · exact .single (.closes p closed)

/-- A dispatch goes through steps. -/
abbrev Steps (x : Daemon Unit) : Prop :=
  Effect Popd.view x fun v _ v' => Relation.ReflTransGen View.Step v v'

theorem Still.steps {x : Daemon Unit} (still : Still Popd.view x) : Steps x := by
  intro s u s' runs
  rw [still s u s' runs]

theorem Steps.bind {α : Type} {x : Daemon α} {f : α → Daemon Unit}
    (first : Effect Popd.view x fun v _ v' => Relation.ReflTransGen View.Step v v')
    (second : ∀ a, Steps (f a)) : Steps (x >>= f) := by
  intro s u s' runs
  obtain ⟨a, m, ran, rest⟩ := runs_bind runs
  exact (first s a m ran).trans (second a m u s' rest)

theorem steps_return : Steps (return ()) := Still.steps (Still.pure _)

theorem popHttpProxyTcpRead_steps (p : Nat) (write : Bool) :
    Steps (popHttpProxyTcpRead p write) := by
  refine Steps.bind (fun s a s' runs => .single (.reads p (readLoop_effect p _ s a s' runs)))
    fun again => ?_
  split
  · exact Still.steps (eventSet_still _ _ _)
  · exact steps_return

theorem popHttpProxyTcpWrite_steps (p : Nat) : Steps (popHttpProxyTcpWrite p) :=
  fun s u s' runs => steps_written (popHttpProxyTcpWrite_effect p s u s' runs)

theorem popTcpClosePairedPeer_steps (p : Nat) : Steps (popTcpClosePairedPeer p) :=
  fun s u s' runs => .single (.closes p (popTcpClosePairedPeer_effect p s u s' runs))

theorem popHttpProxyTcpEpollEvent_steps (p : Nat) (listenWrite read write error : Bool) :
    Steps (popHttpProxyTcpEpollEvent p listenWrite read write error) := by
  have reads (b : Bool) : Steps (if b then popHttpProxyTcpRead p listenWrite else return ()) := by
    split
    · exact popHttpProxyTcpRead_steps _ _
    · exact steps_return
  have writes (b : Bool) : Steps (if b then popHttpProxyTcpWrite p else return ()) := by
    split
    · exact popHttpProxyTcpWrite_steps _
    · exact steps_return
  rw [popHttpProxyTcpEpollEvent_joined]
  exact Steps.bind (reads read) fun _ => Steps.bind (writes write) fun _ => reads error

theorem popTcpClientConnectCheck_steps (p : Nat) : Steps (popTcpClientConnectCheck p) := by
  refine Still.bind ask_still fun answer => ?_
  split
  · exact popTcpClosePairedPeer_steps p
  · intro s u s' runs
    obtain ⟨connecting, established⟩ | same := popTcpClientEvent_success p s u s' runs
    · exact .single (established ▸ .establishes p connecting)
    · rw [same]

theorem socketEvent_steps (p : Nat) (read write error : Bool) :
    Steps (socketEvent p read write error) := by
  refine Still.bind (load_still p) fun peer => ?_
  cases peer.tEvent with
  | none => exact steps_return
  | some watch =>
      refine Still.bind (store_still p fun _ => rfl) fun _ => ?_
      cases watch.func with
      | tcpClientConnectCheck => exact popTcpClientConnectCheck_steps p
      | httpProxyTcpEpollEvent => exact popHttpProxyTcpEpollEvent_steps _ _ _ _ _

theorem popHttpProxyServerPeerConnect_effect (sock addr : Nat) (port : Int) :
    Effect Popd.view (popHttpProxyServerPeerConnect sock addr port) fun v _ v' => v' = v.accept := by
  intro s u s' runs
  obtain ⟨p, s₁, made, rest⟩ := runs_bind runs
  obtain ⟨_, s₂, stored, rest⟩ := runs_bind rest
  obtain ⟨_, s₃, set, rest⟩ := runs_bind rest
  obtain ⟨_, s₄, listed, added⟩ := runs_bind rest
  obtain ⟨fresh, alloc⟩ := popPeerNew_effect _ _ _ made
  have enlisted : s₄.view = s₃.view.enlist p := by
    rw [runs_modify listed]
    rfl
  rw [popTcpServerEventAdd_effect _ _ _ _ _ added, enlisted, eventSet_still _ _ _ _ _ _ set,
    store_runs (fun actor => { actor with serviceType := .httpProxy, tcpPeerType := .client }) stored
      fun _ => rfl, alloc, fresh, View.alloc_modify]
  exact congrArg (fun v => v.enlist s.view.next) (View.alloc_modify _ _ _)

theorem popHttpProxyTcpServerAccept_steps (clients : List (Nat × Nat × Int)) (broken : Bool) :
    Steps (popHttpProxyTcpServerAccept clients broken) := by
  induction clients with
  | nil =>
      unfold popHttpProxyTcpServerAccept
      split
      · rintro s u s' ⟨⟩
      · exact steps_return
  | cons client clients ih =>
      refine Steps.bind (fun s u s' runs => ?_) fun _ => ih
      rw [popHttpProxyServerPeerConnect_effect _ _ _ _ _ _ runs]
      exact .single .accept

theorem popTcpClientConnectExpired_steps (p : Nat) : Steps (popTcpClientConnectExpired p) :=
  Still.bind (store_still p fun _ => rfl) fun _ => popTcpClosePairedPeer_steps p

theorem dnsWaitAckTimeoutCall_steps (p : Nat) : Steps (dnsWaitAckTimeoutCall p) := by
  intro s u s' runs
  obtain ⟨_, s₁, stored, rest⟩ := runs_bind runs
  obtain ⟨_, s₂, dropped, closed⟩ := runs_bind rest
  have closes := popTcpClosePairedPeer_effect p _ _ _ closed
  rw [(dnsWaitAckQueueDel_effect p _ _ _ dropped).1,
    store_runs (fun actor => { actor with tDnsWaitAck := false }) stored fun _ => rfl] at closes
  exact .single (.timeout p closes)

theorem infoDeal_runs {p : Nat} {s s' : Popd} {u : Unit}
    (runs : dispatch (.infoDeal p) s = .ok (u, s')) :
    ∃ actor, s.view.actors p = some actor ∧
      ((actor.tInfoDeal = none ∧ s'.view = s.view) ∨
        (actor.tInfoDeal = some .tcpClientEvent ∧
          View.ClientInfos p 5 (s.view.infoRun p) s'.view) ∨
        (actor.tInfoDeal = some .tcpServerEvent ∧
          View.ServerInfos p 5 (s.view.infoRun p) s'.view)) := by
  obtain ⟨peer, s₁, loaded, rest⟩ := runs_bind runs
  obtain ⟨same, found⟩ := load_effect p _ _ _ loaded
  rw [← same]
  rw [← same] at found
  refine ⟨peer.toActor, found, ?_⟩
  cases deal : peer.tInfoDeal with
  | none =>
      simp only [deal] at rest
      exact .inl ⟨rfl, by rw [(runs_pure rest).2]⟩
  | some func =>
      simp only [deal] at rest
      cases func with
      | tcpClientEvent => exact .inr (.inl ⟨rfl, popTcpClientEventDeal_effect p _ _ _ rest⟩)
      | tcpServerEvent => exact .inr (.inr ⟨rfl, popTcpServerEventDeal_effect p _ _ _ rest⟩)

theorem infoDeal_steps (p : Nat) : Steps (dispatch (.infoDeal p)) := by
  intro s u s' runs
  obtain ⟨actor, found, ⟨_, same⟩ | ⟨deal, turns⟩ | ⟨deal, turns⟩⟩ := infoDeal_runs runs
  · rw [same]
  · exact .single (.clientInfos p found deal turns)
  · exact .single (.serverInfos p found deal turns)

theorem dnsWaitAckQueueLookupByID_stores {queue : Hash Nat} {id p : Nat}
    (found : dnsWaitAckQueueLookupByID queue id = some p) : queue.Stores p := by
  obtain ⟨backet, search, data⟩ := Option.map_eq_some_iff.mp found
  exact ⟨_, backet, List.mem_of_find?_eq_some search, data⟩

/-- A datagram is ignored, or it is an answer some peer in the queue waits for. -/
theorem popUdpRecvDnsQueryAck_effect (payload : List UInt8) (fromAddr : Nat) (fromPort : Int) :
    Effect Popd.view (popUdpRecvDnsQueryAck payload fromAddr fromPort) fun v _ v' =>
      v' = v ∨ ∃ p, v.queue.Stores p ∧ (v' = v.answer p 0 ∨
        ∃ address, address ≠ 0 ∧ View.Started p (v.answer p address) v') := by
  intro s u s' runs
  unfold popUdpRecvDnsQueryAck at runs
  obtain ⟨state, s₁, got, rest⟩ := runs_bind runs
  rw [(runs_get got).2] at rest
  obtain ⟨client, s₂, loaded, rest⟩ := runs_bind rest
  rw [(load_runs loaded).2] at rest
  split at rest
  next => exact .inl (by rw [(runs_pure rest).2])
  next =>
    obtain ⟨answer, s₃, asked, rest⟩ := runs_bind rest
    obtain ⟨parsed, s₄, read, rest⟩ := runs_bind rest
    rw [call_runs read] at rest
    rw [← ask_still _ _ _ asked]
    cases parsed with
    | none => exact .inl (by rw [(runs_pure rest).2])
    | some result =>
        obtain ⟨state, s₅, got, rest⟩ := runs_bind rest
        rw [(runs_get got).2] at rest
        cases waiting : dnsWaitAckQueueLookupByID state.dnsAckWaitQueue result.transactionID with
        | none =>
            simp only [waiting] at rest
            exact .inl (by rw [(runs_pure rest).2])
        | some server =>
            simp only [waiting] at rest
            have queued : s₃.view.queue.Stores server := by
              rw [(runs_get got).1] at waiting
              exact dnsWaitAckQueueLookupByID_stores waiting
            obtain ⟨_, s₆, noted, rest⟩ := runs_bind rest
            obtain ⟨_, s₇, dropped, rest⟩ := runs_bind rest
            obtain ⟨_, s₈, stored, rest⟩ := runs_bind rest
            have answered : s₈.view = s₃.view.answer server result.address := by
              rw [store_runs (fun actor => { actor with tDnsWaitAck := false }) stored fun _ => rfl,
                (dnsWaitAckQueueDel_effect server _ _ _ dropped).1, note_runs noted, ← pairedOf_view]
              rfl
            refine .inr ⟨server, queued, ?_⟩
            split at rest
            next empty => exact .inl (by rw [(runs_pure rest).2, answered, empty])
            next address =>
              obtain ⟨_, s₉, placed, rest⟩ := runs_bind rest
              obtain ⟨_, s₁₀, started, rest⟩ := runs_bind rest
              have start := popTcpClientEvent_start server _ _ _ started
              rw [store_unseen placed fun _ => rfl, answered] at start
              obtain ⟨state, s₁₁, got, rest⟩ := runs_bind rest
              rw [(runs_get got).2] at rest
              have cached : s'.view = s₁₀.view := by
                split at rest
                · exact modify_unseen rest fun _ => rfl
                · exact modify_unseen rest fun _ => rfl
              exact .inr ⟨_, address, cached ▸ start⟩

theorem popUdpRecvDnsQueryAck_steps (payload : List UInt8) (fromAddr : Nat) (fromPort : Int) :
    Steps (popUdpRecvDnsQueryAck payload fromAddr fromPort) := by
  intro s u s' runs
  obtain same | ⟨p, queued, same | ⟨address, some_, started⟩⟩ :=
    popUdpRecvDnsQueryAck_effect payload fromAddr fromPort _ _ _ runs
  · rw [same]
  · rw [same]
    exact .single (.noAddress p queued)
  · exact .single (.answered p queued some_ started)

theorem cacheCheck_steps : Steps (dispatch .cacheCheck) := by
  refine Still.bind ask_still fun answer => Still.steps ?_
  exact fun s u s' runs => modify_unseen runs fun _ => rfl

theorem dispatch_steps (event : Dispatch) : Steps (dispatch event) := by
  cases event with
  | accept clients broken => exact popHttpProxyTcpServerAccept_steps clients broken
  | socket p read write error => exact socketEvent_steps p read write error
  | connectExpired p => exact popTcpClientConnectExpired_steps p
  | dnsWaitAckTimeout p => exact dnsWaitAckTimeoutCall_steps p
  | infoDeal p => exact infoDeal_steps p
  | datagram payload fromAddr fromPort => exact popUdpRecvDnsQueryAck_steps _ _ _
  | cacheCheck => exact cacheCheck_steps

/-- What a run of the daemon shows is a run of the view. -/
theorem reachable_view {s : Popd} (reachable : system.Reachable s) : View.Reached s.view := by
  refine Runs.System.Reachable.invariant (motive := fun s : Popd => View.Reached s.view) ?_ ?_
    reachable
  · rintro s ⟨sockfd, answers, rfl⟩
    have start : (popInit sockfd answers).view = View.init := by
      refine View.same ?_ rfl rfl rfl rfl
      funext p
      by_cases first : p = 0
      · simp [Popd.view, popInit, View.init, first, dnsClient]
      · simp [Popd.view, popInit, View.init, first]
    rw [start]
  · intro s event s' reached _ executes
    obtain ⟨u, ran⟩ := exec_runs executes
    exact reached.trans (dispatch_steps event _ _ _ ran)

end Poplar.Proxy
