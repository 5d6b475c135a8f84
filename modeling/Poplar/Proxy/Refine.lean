import Poplar.Lib.Effects
import Poplar.Proxy.Fsm
import Poplar.Proxy.View

/-!
# What the functions of the daemon do to its view

Sockets, buffers and timers that the view forgets change under it; each function that
changes what the view shows is related to the operation on views it performs.
-/
namespace Poplar.Proxy

open Effects

theorem View.same {v w : View} (actors : v.actors = w.actors) (next : v.next = w.next)
    (listed : v.listed = w.listed) (queue : v.queue = w.queue) (log : v.log = w.log) : v = w := by
  cases v
  cases w
  cases actors
  cases next
  cases listed
  cases queue
  cases log
  rfl

section Primitives

variable {p : Nat} {s s' : Popd}

theorem actors_view {peer : Peer} (found : s.peers p = some peer) :
    s.view.actors p = some peer.toActor := by
  simp only [Popd.view, found, Option.map_some]

theorem put_view (peer : Option Peer) (inside : p < s.next) :
    (s.put p peer inside).view.actors =
      Function.update s.view.actors p (peer.map Peer.toActor) := by
  funext q
  by_cases here : q = p
  · subst here
    simp [Popd.view, Popd.put]
  · simp [Popd.view, Popd.put, here]

theorem load_runs {peer : Peer} (runs : load p s = .ok (peer, s')) :
    s.peers p = some peer ∧ s' = s := by
  unfold load at runs
  split at runs
  next found =>
    cases runs
    exact ⟨found, rfl⟩
  next => cases runs

theorem load_effect (p : Nat) :
    Effect Popd.view (load p) fun v peer v' => v' = v ∧ v.actors p = some peer.toActor := by
  intro s peer s' runs
  obtain ⟨found, same⟩ := load_runs runs
  rw [same]
  exact ⟨rfl, actors_view found⟩

theorem load_still (p : Nat) : Still Popd.view (load p) :=
  fun s peer s' runs => (load_effect p s peer s' runs).1

theorem ask_still : Still Popd.view ask := by
  intro s answer s' runs
  cases runs
  rfl

theorem modify_unseen {f : Popd → Popd} {u : Unit}
    (runs : (modify f : Daemon Unit) s = .ok (u, s')) (same : ∀ s, (f s).view = s.view) :
    s'.view = s.view := by
  rw [runs_modify runs, same]

theorem note_runs {call : Popd → Call} {u : Unit} (runs : note call s = .ok (u, s')) :
    s'.view = s.view.note (call s) := by
  rw [runs_modify runs]
  rfl

/-- What a store does to the view is known from what it does to the fields kept there. -/
theorem store_effect (p : Nat) {f : Peer → Peer} (f' : Actor → Actor)
    (same : ∀ peer, (f peer).toActor = f' peer.toActor) :
    Effect Popd.view (store p f) fun v _ v' => v' = v.modify p f' ∧ (v.actors p).isSome := by
  intro s u s' runs
  unfold store at runs
  split at runs
  next peer found =>
    cases runs
    have there := actors_view found
    refine ⟨View.same ?_ rfl rfl rfl rfl, by rw [there]; rfl⟩
    rw [put_view, View.modify_actors, there, Option.map_some, Option.map_some, same]
  next => cases runs

theorem free_effect (p : Nat) :
    Effect Popd.view (free p) fun v _ v' => v' = v.remove p := by
  intro s u s' runs
  unfold free at runs
  split at runs
  next peer found =>
    cases runs
    refine View.same ?_ rfl rfl rfl rfl
    rw [put_view, View.remove, Option.map_none]
  next => cases runs

theorem View.modify_same (v : View) (p : Nat) {f : Actor → Actor}
    (same : ∀ actor, v.actors p = some actor → f actor = actor) : v.modify p f = v := by
  refine View.same ?_ rfl rfl rfl rfl
  have kept : (v.actors p).map f = v.actors p := by
    cases found : v.actors p with
    | none => rfl
    | some actor => rw [Option.map_some, same actor found]
  rw [View.modify_actors, kept, Function.update_eq_self]

theorem store_still (p : Nat) {f : Peer → Peer} (same : ∀ peer, (f peer).toActor = peer.toActor) :
    Still Popd.view (store p f) := by
  intro s u s' runs
  rw [(store_effect p (fun actor => actor) same s u s' runs).1]
  exact View.modify_same _ _ fun _ _ => rfl

theorem store_runs {f : Peer → Peer} {u : Unit} (f' : Actor → Actor)
    (runs : store p f s = .ok (u, s')) (same : ∀ peer, (f peer).toActor = f' peer.toActor) :
    s'.view = s.view.modify p f' :=
  (store_effect p f' same s u s' runs).1

theorem store_unseen {f : Peer → Peer} {u : Unit} (runs : store p f s = .ok (u, s'))
    (same : ∀ peer, (f peer).toActor = peer.toActor) : s'.view = s.view :=
  store_still p same s u s' runs

theorem popPeerNew_effect :
    Effect Popd.view popPeerNew fun v p v' => p = v.next ∧ v' = v.alloc {} := by
  intro s p s' runs
  cases runs
  refine ⟨rfl, View.same ?_ rfl rfl rfl rfl⟩
  funext q
  by_cases here : q = s.next
  · simp [Popd.view, View.alloc, here]
  · simp [Popd.view, View.alloc, here]

theorem eventSet_still (p : Nat) (func : EventFunc) (write : Bool) :
    Still Popd.view (eventSet p func write) := by
  refine Still.bind (load_still p) fun peer => ?_
  cases peer.tEvent with
  | some watch =>
      dsimp only
      split
      · exact store_still p fun _ => rfl
      · intro s u s' runs
        cases runs
  | none =>
      refine Still.bind ask_still fun answer => ?_
      split
      · exact store_still p fun _ => rfl
      · exact Still.pure _

theorem closeSockfd_still (p : Nat) : Still Popd.view (closeSockfd p) := by
  refine store_still p fun peer => ?_
  split <;> rfl

end Primitives

section Queries

theorem View.pairedOf_found {v : View} {p : Nat} {actor : Actor} (found : v.actors p = some actor) :
    v.pairedOf p = actor.pairedPeer := by
  rw [View.pairedOf, found, Option.bind_some]

theorem View.partnerOf_found {v : View} {p q : Nat} {actor paired : Actor}
    (found : v.actors p = some actor) (partner : actor.pairedPeer = some q)
    (live : v.actors q = some paired) :
    v.partnerOf p = some (q, paired.tcpPeerType, paired.tcpClientStatus) := by
  simp [View.partnerOf, View.pairedOf_found found, partner, live]

variable (s : Popd)

theorem pairedOf_view (p : Nat) : s.view.pairedOf p = s.pairedOf p := by
  unfold View.pairedOf Popd.pairedOf
  cases found : s.peers p <;> simp [Popd.view, found]

theorem typeOf_view (p : Nat) : s.view.typeOf p = s.typeOf p := by
  simp [View.typeOf, Popd.typeOf, Popd.view, Function.comp_def]

theorem serviceOf_view (p : Nat) : s.view.serviceOf p = s.serviceOf p := by
  simp [View.serviceOf, Popd.serviceOf, Popd.view, Function.comp_def]

theorem partnerOf_view (p : Nat) : s.view.partnerOf p = s.partnerOf p := by
  unfold View.partnerOf Popd.partnerOf
  rw [pairedOf_view, Popd.pairedOf]
  cases found : s.peers p with
  | none => rfl
  | some peer =>
      cases paired : peer.pairedPeer with
      | none => simp [paired]
      | some q => cases partner : s.peers q <;> simp [paired, partner, Popd.view]

theorem waitFuncs_view : s.view.waitFuncs = s.waitFuncs := by
  simp [View.waitFuncs, Popd.waitFuncs, Popd.view, Function.comp_def]

end Queries

/-! ## Pairs and messages -/

theorem popPeersPaired_effect (p1 p2 : Nat) :
    Effect Popd.view (popPeersPaired p1 p2) fun v _ v' => v' = v.pair p1 p2 := by
  intro s u s' runs
  obtain ⟨_, s₁, noted, runs⟩ := runs_bind runs
  obtain ⟨_, s₂, first, second⟩ := runs_bind runs
  rw [store_runs (fun actor => { actor with pairedPeer := some p1 }) second fun _ => rfl,
    store_runs (fun actor => { actor with pairedPeer := some p2 }) first fun _ => rfl,
    note_runs noted, View.pair, pairedOf_view, pairedOf_view]

theorem unpair_effect (p : Nat) :
    Effect Popd.view (store p fun peer => { peer with pairedPeer := none }) fun v _ v' =>
      v' = v.unpair p ∧ (v.actors p).isSome :=
  store_effect p (fun actor => { actor with pairedPeer := none }) fun _ => rfl

theorem popTcpCanclePaired_effect (p : Nat) :
    Effect Popd.view (popTcpCanclePaired p) fun v _ v' => v' = v.cancel p ∧ (v.actors p).isSome := by
  intro s u s' runs
  unfold popTcpCanclePaired at runs
  obtain ⟨peer, s₁, loaded, rest⟩ := runs_bind runs
  obtain ⟨same, found⟩ := load_effect p _ _ _ loaded
  rw [View.cancel, View.pairedOf_found found]
  refine ⟨?_, by rw [found]; rfl⟩
  cases paired : peer.pairedPeer with
  | none =>
      simp only [paired] at rest
      rw [(unpair_effect p _ _ _ rest).1, same]
  | some q =>
      simp only [paired] at rest
      obtain ⟨_, s₂, first, second⟩ := runs_bind rest
      rw [(unpair_effect p _ _ _ second).1, (unpair_effect q _ _ _ first).1, same]

theorem popTcpClientEventAdd_effect (p : Nat) (info : TcpClientInfo) :
    Effect Popd.view (popTcpClientEventAdd p info) fun v _ v' => v' = v.clientInfo p info :=
  fun s u s' runs => (store_effect p _ (fun _ => rfl) s u s' runs).1

theorem popTcpServerEventAdd_effect (p : Nat) (info : TcpServerInfo) :
    Effect Popd.view (popTcpServerEventAdd p info) fun v _ v' => v' = v.serverInfo p info :=
  fun s u s' runs => (store_effect p _ (fun _ => rfl) s u s' runs).1

theorem waitFuncs_found {s : Popd} {p : Nat} {peer : Peer} (found : s.peers p = some peer) :
    s.view.waitFuncs.deref p = peer.dnsTransactionID := by
  rw [waitFuncs_view]
  simp [Popd.waitFuncs, found]

theorem dnsWaitAckQueueAdd_effect (p : Nat) :
    Effect Popd.view (dnsWaitAckQueueAdd p) fun v _ v' => v' = v.enqueue p := by
  intro s u s' runs
  unfold dnsWaitAckQueueAdd at runs
  obtain ⟨peer, s₁, loaded, runs⟩ := runs_bind runs
  obtain ⟨found, same⟩ := load_runs loaded
  dsimp only at runs
  obtain ⟨_, s₂, noted, runs⟩ := runs_bind runs
  rw [View.enqueue, waitFuncs_found found, waitFuncs_view, runs_modify runs, runs_modify noted, same]
  rfl

theorem dnsWaitAckQueueDel_effect (p : Nat) :
    Effect Popd.view (dnsWaitAckQueueDel p) fun v _ v' => v' = v.drop p ∧ (v.actors p).isSome := by
  intro s u s' runs
  unfold dnsWaitAckQueueDel at runs
  obtain ⟨peer, s₁, loaded, runs⟩ := runs_bind runs
  obtain ⟨found, same⟩ := load_runs loaded
  dsimp only at runs
  obtain ⟨_, s₂, noted, runs⟩ := runs_bind runs
  refine ⟨?_, by rw [actors_view found]; rfl⟩
  rw [View.drop, waitFuncs_found found, waitFuncs_view, runs_modify runs, runs_modify noted, same]
  simp only [pairedOf_view]
  rfl

theorem popPeerDelete_effect (p : Nat) :
    Effect Popd.view (popPeerDelete p) fun v _ v' => v' = v.delete p := by
  intro s u s' runs
  obtain ⟨_, s₁, noted, runs⟩ := runs_bind runs
  obtain ⟨_, s₂, stored, runs⟩ := runs_bind runs
  obtain ⟨_, s₃, cancelled, runs⟩ := runs_bind runs
  obtain ⟨_, s₄, unlisted, runs⟩ := runs_bind runs
  obtain ⟨_, s₅, dropped, freed⟩ := runs_bind runs
  have erased : s₄.view = s₃.view.unlist p := by
    rw [runs_modify unlisted]
    rfl
  rw [free_effect p _ _ _ freed, (dnsWaitAckQueueDel_effect p _ _ _ dropped).1, erased,
    (popTcpCanclePaired_effect p _ _ _ cancelled).1,
    store_runs (fun actor => { actor with tInfoDeal := none, tDnsWaitAck := false }) stored
      fun _ => rfl, note_runs noted]
  rfl

/-- A message that does not end the peer leaves the view alone. -/
theorem popTcpClientEventHttpProxyCall_effect (p : Nat) (info : TcpClientInfo) :
    Effect Popd.view (popTcpClientEventHttpProxyCall p info) fun v _ v' =>
      v' = if info ≠ .connectionSuccess then v.delete p else v := by
  cases info with
  | connectionSuccess =>
      refine Still.bind (load_still p) fun peer => ?_
      split
      · split
        next q _ =>
          refine Still.bind (load_still q) fun paired => ?_
          split
          · exact eventSet_still _ _ _
          · exact Still.pure _
        next => exact Still.pure _
      · split
        · exact eventSet_still _ _ _
        · exact Still.pure _
  | connectionError => exact popPeerDelete_effect p
  | connectionBreak => exact popPeerDelete_effect p

theorem popTcpServerEventHttpProxyCall_effect (p : Nat) (info : TcpServerInfo) :
    Effect Popd.view (popTcpServerEventHttpProxyCall p info) fun v _ v' =>
      v' = if info ≠ .accept then v.delete p else v := by
  cases info with
  | accept => exact Still.pure _
  | break' => exact popPeerDelete_effect p
  | error => exact popPeerDelete_effect p

theorem eventCall_effect (p : Nat) {call : Daemon Unit} {ends : Prop} [Decidable ends]
    (http : Effect Popd.view call fun v _ v' => v' = if ends then v.delete p else v) :
    Effect Popd.view (eventCall p call) fun v _ v' => ∃ actor, v.actors p = some actor ∧
      v' = if ends ∧ actor.serviceType = .httpProxy then v.delete p else v := by
  intro s u s' runs
  obtain ⟨peer, s₁, loaded, rest⟩ := runs_bind runs
  obtain ⟨same, found⟩ := load_effect p _ _ _ loaded
  refine ⟨peer.toActor, found, ?_⟩
  split at rest
  next proxy => simp only [http _ _ _ rest, same, proxy, and_true]
  next other => rw [(runs_pure rest).2, same, if_neg (fun both => other both.2)]

theorem listed_runs {p : Nat} {s s' : Popd} {answer : Bool} (runs : listed p s = .ok (answer, s')) :
    s' = s ∧ answer = decide (p ∈ s.view.listed) := by
  obtain ⟨_, s₁, got, returned⟩ := runs_bind runs
  obtain ⟨rfl, rfl⟩ := runs_get got
  obtain ⟨rfl, rfl⟩ := runs_pure returned
  exact ⟨rfl, rfl⟩

section EventDeal

variable {ι : Type} {p : Nat} {infos : Actor → List ι} {setInfos : List ι → Peer → Peer}
  (setInfos' : List ι → Actor → Actor) {call : ι → Daemon Unit} {deal : InfoDeal} (ends : ι → Prop)

/-- The induction follows the turns of the loop. -/
theorem infoLoop_effect [DecidablePred ends]
    (sets : ∀ rest peer, (setInfos rest peer).toActor = setInfos' rest peer.toActor)
    (service : ∀ rest actor, (setInfos' rest actor).serviceType = actor.serviceType)
    (calls : ∀ info, Effect Popd.view (call info) fun v _ v' => ∃ actor, v.actors p = some actor ∧
      v' = if ends info ∧ actor.serviceType = .httpProxy then v.delete p else v) (n : Nat) :
    Effect Popd.view (infoLoop p (fun peer => infos peer.toActor) setInfos call deal n)
      fun v _ v' => View.Infos p infos setInfos' ends deal n v v' := by
  induction n with
  | zero =>
      intro s u s' runs
      unfold infoLoop at runs
      obtain ⟨peer, s₁, loaded, rest⟩ := runs_bind runs
      obtain ⟨same, found⟩ := load_effect p _ _ _ loaded
      split at rest
      next more =>
        rw [store_runs (fun actor => { actor with tInfoDeal := actor.tInfoDeal.or (some deal) }) rest
          fun _ => rfl, same]
        exact .later found more
      next none =>
        rw [(runs_pure rest).2, same]
        exact .empty found (not_not.mp none)
  | succ n ih =>
      intro s u s' runs
      unfold infoLoop at runs
      obtain ⟨answer, s₀, looked, rest⟩ := runs_bind runs
      obtain ⟨unchanged, answers⟩ := listed_runs looked
      rw [unchanged, answers] at rest
      by_cases there : p ∈ s.view.listed
      · simp only [there, decide_true, if_true] at rest
        obtain ⟨peer, s₁, loaded, rest⟩ := runs_bind rest
        obtain ⟨same, found⟩ := load_effect p _ _ _ loaded
        cases head : infos peer.toActor with
        | nil =>
            simp only [head] at rest
            rw [(runs_pure rest).2, same]
            exact .empty found head
        | cons info others =>
            simp only [head] at rest
            obtain ⟨_, s₂, stored, rest⟩ := runs_bind rest
            obtain ⟨_, s₃, called, rest⟩ := runs_bind rest
            have taken := store_runs (setInfos' others) stored (sets others)
            rw [same] at taken
            have later := ih _ _ _ rest
            obtain ⟨actor, live, dealt⟩ := calls info _ _ _ called
            rw [taken, View.modify_actors, Function.update_self, found] at live
            cases live
            rw [taken, service] at dealt
            split at dealt
            next ending =>
              rw [dealt] at later
              exact .delete there found head ending.1 ending.2 later
            next goes =>
              rw [dealt] at later
              exact .keep there found head (not_and_or.mp goes) later
      · simp only [there, decide_false, Bool.false_eq_true, if_false] at rest
        rw [(runs_pure rest).2]
        exact .out there

end EventDeal

theorem infoRun_runs {p : Nat} {s s₁ s₂ : Popd} {u w : Unit}
    (noted : note (fun s => .infoRun p (s.typeOf p) (decide (p ∈ s.pairedPeerTcpList))) s =
      .ok (u, s₁))
    (stored : store p (fun peer => { peer with tInfoDeal := none }) s₁ = .ok (w, s₂)) :
    s₂.view = s.view.infoRun p := by
  rw [store_runs (fun actor => { actor with tInfoDeal := none }) stored fun _ => rfl,
    note_runs noted, View.infoRun, typeOf_view]
  rfl

theorem popTcpClientEventDeal_effect (p : Nat) :
    Effect Popd.view (popTcpClientEventDeal p) fun v _ v' =>
      View.ClientInfos p POP_TRANSINFO_EXECUTE_COUNT (v.infoRun p) v' := by
  intro s u s' runs
  obtain ⟨_, s₁, noted, runs⟩ := runs_bind runs
  obtain ⟨_, s₂, stored, runs⟩ := runs_bind runs
  rw [← infoRun_runs noted stored]
  exact infoLoop_effect (fun rest actor => { actor with tcpClientInfoList := rest }) (· ≠ .connectionSuccess)
    (fun _ _ => rfl) (fun _ _ => rfl)
    (fun info => eventCall_effect p (popTcpClientEventHttpProxyCall_effect p info)) _ _ _ _ runs

theorem popTcpServerEventDeal_effect (p : Nat) :
    Effect Popd.view (popTcpServerEventDeal p) fun v _ v' =>
      View.ServerInfos p POP_TRANSINFO_EXECUTE_COUNT (v.infoRun p) v' := by
  intro s u s' runs
  obtain ⟨_, s₁, noted, runs⟩ := runs_bind runs
  obtain ⟨_, s₂, stored, runs⟩ := runs_bind runs
  rw [← infoRun_runs noted stored]
  exact infoLoop_effect (fun rest actor => { actor with tcpServerInfoList := rest }) (· ≠ .accept)
    (fun _ _ => rfl) (fun _ _ => rfl)
    (fun info => eventCall_effect p (popTcpServerEventHttpProxyCall_effect p info)) _ _ _ _ runs

/-! ## Connections -/

theorem popTcpClientConnect_still (p : Nat) : Still Popd.view (popTcpClientConnect p) := by
  refine Still.bind (closeSockfd_still p) fun _ => Still.bind ask_still fun answer => ?_
  split
  · exact Still.bind (store_still p fun _ => rfl) fun _ => Still.pure _
  · exact Still.bind (store_still p fun _ => rfl) fun _ => Still.bind ask_still fun _ => Still.pure _

/-- The start of a connection fails with a message and without a change of status. -/
theorem popTcpClientStart_effect (p : Nat) :
    Effect Popd.view (popTcpClientStart p) fun v ret v' => (ret = 0 ∧ v' = v) ∨
      (ret = -1 ∧ v' = v.start p false) := by
  intro s ret s' runs
  obtain ⟨result, s₁, connected, rest⟩ := runs_bind runs
  have same := popTcpClientConnect_still p _ _ _ connected
  split at rest
  next =>
    obtain ⟨_, s₂, closed, rest⟩ := runs_bind rest
    obtain ⟨_, s₃, noted, rest⟩ := runs_bind rest
    obtain ⟨_, s₄, added, rest⟩ := runs_bind rest
    obtain ⟨_, s₅, torn, rest⟩ := runs_bind rest
    refine .inr ⟨(runs_pure rest).1, ?_⟩
    rw [(runs_pure rest).2, note_runs torn, ← serviceOf_view, popTcpClientEventAdd_effect _ _ _ _ _ added,
      note_runs noted, ← pairedOf_view, closeSockfd_still p _ _ _ closed, same]
    rfl
  next =>
    obtain ⟨_, s₂, set, rest⟩ := runs_bind rest
    obtain ⟨_, s₃, stored, rest⟩ := runs_bind rest
    refine .inl ⟨(runs_pure rest).1, ?_⟩
    rw [(runs_pure rest).2, store_unseen stored fun _ => rfl,
      eventSet_still _ _ _ _ _ _ set, same]

theorem setStatus_effect (p : Nat) (status : TcpClientStatus) :
    Effect Popd.view (store p fun peer => { peer with tcpClientStatus := status }) fun v _ v' =>
      v' = v.setStatus p status :=
  fun s u s' runs => (store_effect p (fun actor => { actor with tcpClientStatus := status })
    (fun _ => rfl) s u s' runs).1

theorem popTcpClientEstablish_effect (p : Nat) :
    Effect Popd.view (popTcpClientEstablish p) fun v ret v' => ret = 0 ∧
      v' = (v.enlist p).clientInfo p .connectionSuccess := by
  intro s ret s' runs
  obtain ⟨_, s₁, stored, rest⟩ := runs_bind runs
  obtain ⟨_, s₂, listed, rest⟩ := runs_bind rest
  obtain ⟨_, s₃, added, rest⟩ := runs_bind rest
  obtain ⟨_, s₄, set, rest⟩ := runs_bind rest
  refine ⟨(runs_pure rest).1, ?_⟩
  have lists : s₂.view = s₁.view.enlist p := by
    rw [runs_modify listed]
    rfl
  rw [(runs_pure rest).2, eventSet_still _ _ _ _ _ _ set,
    popTcpClientEventAdd_effect _ _ _ _ _ added, lists, store_unseen stored fun _ => rfl]

theorem forgetInfo_effect {p : Nat} {f : Peer → Peer}
    (forgets : ∀ peer, (f peer).toActor =
      { peer.toActor with tcpClientInfoList := [], tcpServerInfoList := [] }) :
    Effect Popd.view (store p f) fun v _ v' => v' = v.forgetInfo p :=
  fun s u s' runs => (store_effect p (fun actor =>
    { actor with tcpClientInfoList := [], tcpServerInfoList := [] }) forgets s u s' runs).1

theorem popTcpClientLeave_effect (p : Nat) (info : TcpClientInfo) :
    Effect Popd.view (popTcpClientLeave p info) fun v ret v' => ret = 0 ∧
      v' = (((v.cancel p).forgetInfo p).clientInfo p info).teardown p := by
  intro s ret s' runs
  obtain ⟨_, s₁, stored, rest⟩ := runs_bind runs
  obtain ⟨_, s₂, cancelled, rest⟩ := runs_bind rest
  obtain ⟨_, s₃, forgot, rest⟩ := runs_bind rest
  obtain ⟨_, s₄, added, rest⟩ := runs_bind rest
  obtain ⟨_, s₅, torn, rest⟩ := runs_bind rest
  refine ⟨(runs_pure rest).1, ?_⟩
  rw [(runs_pure rest).2, note_runs torn, ← serviceOf_view, popTcpClientEventAdd_effect _ _ _ _ _ added,
    forgetInfo_effect (fun _ => rfl) _ _ _ forgot,
    (popTcpCanclePaired_effect p _ _ _ cancelled).1,
    store_unseen stored fun _ => rfl, View.teardown]

/-- The next status is stored unless the function of the entry returned -1. -/
theorem popTcpClientEvent_runs {p : Nat} {event : TcpClientEvent} {s s' : Popd} {u : Unit}
    (runs : popTcpClientEvent p event s = .ok (u, s')) :
    ∃ actor ret m, s.view.actors p = some actor ∧
      (popTcpClientFsm p actor.tcpClientStatus event).1 s = .ok (ret, m) ∧
      (0 ≤ ret → s'.view = m.view.setStatus p (popTcpClientFsm p actor.tcpClientStatus event).2) ∧
      (ret < 0 → s'.view = m.view) := by
  unfold popTcpClientEvent at runs
  obtain ⟨peer, s₁, loaded, rest⟩ := runs_bind runs
  obtain ⟨found, same⟩ := load_runs loaded
  rw [same] at rest
  obtain ⟨ret, s₂, ran, rest⟩ := runs_bind rest
  refine ⟨peer.toActor, ret, s₂, actors_view found, ran, ?_⟩
  split at rest
  next passes => exact ⟨fun _ => setStatus_effect p _ _ _ _ rest, fun fails => by omega⟩
  next fails => exact ⟨fun passes => absurd passes fails, fun _ => by rw [(runs_pure rest).2]⟩

theorem View.statusOf_found {v : View} {p : Nat} {actor : Actor}
    (found : v.actors p = some actor) : v.statusOf p = some actor.tcpClientStatus := by
  rw [View.statusOf, found, Option.map_some]

theorem View.setStatus_same {v : View} {p : Nat} {actor : Actor} (found : v.actors p = some actor) :
    v.setStatus p actor.tcpClientStatus = v := by
  refine View.modify_same v p fun other live => ?_
  rw [found] at live
  cases live
  rfl

theorem popTcpClientEvent_start (p : Nat) :
    Effect Popd.view (popTcpClientEvent p .start) fun v _ v' => View.Started p v v' := by
  intro s u s' runs
  obtain ⟨actor, ret, m, found, ran, passes, fails⟩ := popTcpClientEvent_runs runs
  have status := View.statusOf_found found
  have unchanged := View.setStatus_same found
  cases now : actor.tcpClientStatus with
  | idle =>
      rw [now] at ran passes status
      obtain ⟨rfl, same⟩ | ⟨rfl, failed⟩ := popTcpClientStart_effect p _ _ _ ran
      · rw [passes (Int.le_refl 0), same]
        exact .connects status
      · rw [fails (by decide), failed]
        exact .fails status
  | connect =>
      rw [now] at ran passes status unchanged
      obtain ⟨rfl, rfl⟩ := runs_pure ran
      rw [passes (Int.le_refl 0)]
      simp only [popTcpClientFsm, unchanged]
      exact .ignored (by simp [status])
  | establish =>
      rw [now] at ran passes status unchanged
      obtain ⟨rfl, rfl⟩ := runs_pure ran
      rw [passes (Int.le_refl 0)]
      simp only [popTcpClientFsm, unchanged]
      exact .ignored (by simp [status])

theorem popTcpClientEvent_stop (p : Nat) :
    Effect Popd.view (popTcpClientEvent p .stop) fun v _ v' => v' = v.stop p := by
  intro s u s' runs
  obtain ⟨actor, ret, m, found, ran, passes, fails⟩ := popTcpClientEvent_runs runs
  have stops : (popTcpClientFsm p actor.tcpClientStatus .stop) = (popTcpClientStop p, .idle) := by
    cases actor.tcpClientStatus <;> rfl
  rw [stops] at ran passes
  obtain ⟨rfl, left⟩ := popTcpClientLeave_effect p _ _ _ _ ran
  rw [passes (Int.le_refl 0), left]
  rfl

theorem popTcpClientEvent_success (p : Nat) :
    Effect Popd.view (popTcpClientEvent p .conectionSuccess) fun v _ v' =>
      (v.statusOf p = some .connect ∧ v' = v.establish p) ∨ v' = v := by
  intro s u s' runs
  obtain ⟨actor, ret, m, found, ran, passes, fails⟩ := popTcpClientEvent_runs runs
  have status := View.statusOf_found found
  have unchanged := View.setStatus_same found
  cases now : actor.tcpClientStatus with
  | idle =>
      rw [now] at ran passes unchanged
      obtain ⟨rfl, rfl⟩ := runs_pure ran
      exact .inr ((passes (Int.le_refl 0)).trans unchanged)
  | connect =>
      rw [now] at ran passes status
      obtain ⟨rfl, listed⟩ := popTcpClientEstablish_effect p _ _ _ ran
      exact .inl ⟨status, by rw [passes (Int.le_refl 0), listed]; rfl⟩
  | establish =>
      rw [now] at ran passes unchanged
      obtain ⟨rfl, rfl⟩ := runs_pure ran
      exact .inr ((passes (Int.le_refl 0)).trans unchanged)

theorem popTcpServerClose_effect (p : Nat) :
    Effect Popd.view (popTcpServerClose p) fun v _ v' => v' = v.close p := by
  intro s u s' runs
  obtain ⟨_, s₁, stored, rest⟩ := runs_bind runs
  obtain ⟨_, s₂, cancelled, rest⟩ := runs_bind rest
  obtain ⟨_, s₃, forgot, rest⟩ := runs_bind rest
  obtain ⟨_, s₄, added, torn⟩ := runs_bind rest
  rw [note_runs torn, ← serviceOf_view, popTcpServerEventAdd_effect _ _ _ _ _ added,
    forgetInfo_effect (fun _ => rfl) _ _ _ forgot,
    (popTcpCanclePaired_effect p _ _ _ cancelled).1,
    store_runs (fun actor => { actor with tDnsWaitAck := false, tInfoDeal := none }) stored
      fun _ => rfl]
  rfl

theorem popTcpClosePeer_effect (p : Nat) :
    Effect Popd.view (popTcpClosePeer p) fun v _ v' => (v.actors p).isSome ∧ v' = v.closePeer p := by
  intro s u s' runs
  obtain ⟨peer, s₁, loaded, rest⟩ := runs_bind runs
  obtain ⟨same, found⟩ := load_effect p _ _ _ loaded
  have type : s.view.typeOf p = some peer.tcpPeerType := by rw [View.typeOf, found]; rfl
  refine ⟨by rw [found]; rfl, ?_⟩
  rw [View.closePeer, type]
  split at rest
  next server => rw [popTcpClientEvent_stop p _ _ _ rest, same, server, if_pos rfl]
  next client =>
    rw [popTcpServerClose_effect p _ _ _ rest, same, if_neg fun same => client (Option.some.inj same)]

theorem popTcpClosePairedPeer_effect (p : Nat) :
    Effect Popd.view (popTcpClosePairedPeer p) fun v _ v' => View.Closed p v v' := by
  intro s u s' runs
  obtain ⟨peer, s₁, loaded, rest⟩ := runs_bind runs
  obtain ⟨same, found⟩ := load_effect p _ _ _ loaded
  have paired := View.pairedOf_found found
  have live : (s.view.actors p).isSome := by rw [found]; rfl
  cases partner : peer.pairedPeer with
  | none =>
      simp only [partner] at rest paired
      refine ⟨live, fun other is => ?_, ?_⟩
      · rw [paired] at is
        cases is
      · rw [(popTcpClosePeer_effect p _ _ _ rest).2, same, View.closePaired, paired]
  | some q =>
      simp only [partner] at rest paired
      obtain ⟨_, s₂, first, second⟩ := runs_bind rest
      obtain ⟨there, closed⟩ := popTcpClosePeer_effect q _ _ _ first
      rw [same] at there closed
      refine ⟨live, fun other is => ?_, ?_⟩
      · rw [paired] at is
        cases is
        exact there
      · rw [(popTcpClosePeer_effect p _ _ _ second).2, closed, View.closePaired, paired]

end Poplar.Proxy
