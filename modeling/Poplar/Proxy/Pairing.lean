import Poplar.Proxy.Ops
import Poplar.Proxy.Simulation

/-!
# Partners are mutual while no request takes a paired client

A client whose server-side peer still waits for its address may send a second request.
The pair it gets then leaves the first server-side peer with a partner that has another.
-/
namespace Poplar.Proxy

/-- A pairing finds its client without a partner; any other call will do. -/
def Call.takesFree : Call → Bool
  | .paired _ _ _ before => before.isNone
  | _ => true

namespace View

def MutualWhenFree (v : View) : Prop :=
  (∀ call ∈ v.log, call.takesFree) → Pairings.Mutual v.pairedOf

variable {p : Nat} {v v' : View}

/-- What keeps partners mutual may add calls. -/
theorem MutualWhenFree.keep (partners : v.MutualWhenFree)
    (grows : ∃ calls, v'.log = calls ++ v.log)
    (keeps : Pairings.Mutual v.pairedOf → Pairings.Mutual v'.pairedOf) : v'.MutualWhenFree := by
  obtain ⟨calls, log⟩ := grows
  intro free
  refine keeps (partners fun call member => free call ?_)
  rw [log]
  exact List.mem_append_right calls member

theorem MutualWhenFree.note (partners : v.MutualWhenFree) (call : Call) :
    (v.note call).MutualWhenFree :=
  partners.keep ⟨[call], rfl⟩ id

theorem MutualWhenFree.closed (partners : v.MutualWhenFree) (closed : Closed p v v') :
    v'.MutualWhenFree := by
  rw [closed.result]
  obtain ⟨calls, log, _⟩ := log_closePaired v p
  refine partners.keep ⟨calls, log⟩ fun pairs => ?_
  obtain ⟨same, _⟩ | ⟨q, _, same⟩ := closePaired_cases v p
  · rw [same, pairedOf_closePeer]
    exact pairs.cancel p
  · rw [same, pairedOf_closePeer, pairedOf_closePeer]
    exact (pairs.cancel q).cancel p

theorem MutualWhenFree.started (partners : v.MutualWhenFree) (started : Started p v v') :
    v'.MutualWhenFree := by
  cases started with
  | connects => exact partners.keep ⟨[], rfl⟩ fun pairs => by rwa [pairedOf_start]
  | fails => exact partners.keep ⟨[_, _], log_fails v p⟩ fun pairs => by rwa [pairedOf_start]
  | ignored => exact partners

theorem MutualWhenFree.resolved {server : Nat} (partners : v.MutualWhenFree)
    (resolved : Resolved server p v v') : v'.MutualWhenFree := by
  cases resolved with
  | starts started => exact partners.started started
  | waits id => exact partners.keep ⟨[_], rfl⟩ fun pairs => by rwa [pairedOf_wait]
  | unsent closed => exact partners.closed closed

theorem MutualWhenFree.written (partners : v.MutualWhenFree) (written : Written p v v') :
    v'.MutualWhenFree := by
  obtain rfl | closed := written
  · exact partners
  · exact partners.closed closed

/-- The new server-side peer has no partner yet; its client is required to have none. -/
theorem MutualWhenFree.openServer (partners : v.MutualWhenFree) (live : (v.actors p).isSome) :
    (v.openServer p).MutualWhenFree := by
  intro free
  rw [openServer_log] at free
  have freeClient : v.pairedOf p = none := Option.isNone_iff_eq_none.mp (free _ List.mem_cons_self)
  have pairs := partners fun call member => free call (List.mem_cons_of_mem _ member)
  rw [pairedOf_openServer live]
  exact pairs.join (pairedOf_fresh v _ (Nat.le_refl _)) freeClient

theorem MutualWhenFree.handled {bytes : List UInt8} (partners : v.MutualWhenFree)
    (handled : Handled p bytes v v') : v'.MutualWhenFree := by
  cases handled with
  | forward _ _ written => exact (partners.note _).written written
  | back _ _ written => exact (partners.note _).written written
  | ignore => exact partners
  | delay => exact partners.note _
  | refuse _ _ closed => exact partners.closed closed
  | request client _ resolved =>
      exact (((partners.openServer (live_of_type client)).note _).note _).resolved resolved
  | tunnel client _ resolved =>
      exact ((partners.openServer (live_of_type client)).note _).resolved resolved

theorem MutualWhenFree.reads (partners : v.MutualWhenFree) (reads : Reads p v v') :
    v'.MutualWhenFree := by
  induction reads with
  | done => exact partners
  | broken closed => exact partners.closed closed
  | chunk handled _ ih => exact ih ((partners.note _).handled handled)

theorem MutualWhenFree.delete (partners : v.MutualWhenFree) (p : Nat) :
    (v.delete p).MutualWhenFree := by
  obtain ⟨victim, log⟩ := log_delete v p
  refine partners.keep ⟨[_, _], log⟩ fun pairs => ?_
  rw [pairedOf_delete]
  exact (pairs.cancel p).clear Pairings.cancel_self

theorem MutualWhenFree.infos {ι : Type} {infos : Actor → List ι} {rest : List ι → Actor → Actor}
    {ends : ι → Prop} {kind : InfoDeal} {n : Nat}
    (partners : v.MutualWhenFree) (turns : Infos p infos rest ends kind n v v')
    (same : ∀ others actor, (rest others actor).pairedPeer = actor.pairedPeer) :
    v'.MutualWhenFree := by
  have touch {v : View} {f : Actor → Actor} (partners : v.MutualWhenFree)
      (same : ∀ actor, (f actor).pairedPeer = actor.pairedPeer) : (v.modify p f).MutualWhenFree :=
    partners.keep ⟨[], rfl⟩ fun pairs => by rwa [pairedOf_modify _ _ same]
  induction turns with
  | out => exact partners
  | empty => exact partners
  | later => exact touch partners fun _ => rfl
  | keep _ _ _ _ _ ih => exact ih (touch partners (same _))
  | delete _ _ _ _ _ _ ih => exact ih ((touch partners (same _)).delete p)

theorem MutualWhenFree.step (partners : v.MutualWhenFree) (step : Step v v') :
    v'.MutualWhenFree := by
  cases step with
  | accept => exact partners.keep ⟨[], rfl⟩ fun pairs => by rwa [pairedOf_accept]
  | reads p reads => exact partners.reads reads
  | closes p closed => exact partners.closed closed
  | establishes p =>
      exact partners.keep ⟨[], rfl⟩ fun pairs => by rwa [pairedOf_establish]
  | clientInfos p _ _ turns =>
      have begun : (v.infoRun p).MutualWhenFree :=
        partners.keep ⟨[_], rfl⟩ fun pairs => by rwa [pairedOf_infoRun]
      exact begun.infos turns fun _ _ => rfl
  | serverInfos p _ _ turns =>
      have begun : (v.infoRun p).MutualWhenFree :=
        partners.keep ⟨[_], rfl⟩ fun pairs => by rwa [pairedOf_infoRun]
      exact begun.infos turns fun _ _ => rfl
  | timeout p closed =>
      refine MutualWhenFree.closed (partners.keep ⟨[_], rfl⟩ fun pairs => ?_) closed
      rwa [pairedOf_drop, pairedOf_setWait]
  | noAddress p => exact partners.keep ⟨[_, _], rfl⟩ fun pairs => by rwa [pairedOf_answer]
  | answered p _ _ started =>
      exact (partners.keep ⟨[_, _], rfl⟩ fun pairs => by rwa [pairedOf_answer]).started started

theorem Reached.mutual (reached : Reached v) : v.MutualWhenFree := by
  induction reached with
  | refl =>
      intro _ p q paired
      by_cases first : p = 0
      · simp [pairedOf, init, first] at paired
      · simp [pairedOf, init, first] at paired
  | tail _ step ih => exact ih.step step

end View

/-- A partner is live and has the peer for its own partner. -/
def Popd.PartnersMutual (s : Popd) : Prop :=
  ∀ p q peer, s.peers p = some peer → peer.pairedPeer = some q →
    ∃ partner, s.peers q = some partner ∧ partner.pairedPeer = some p

theorem partners_mutual_of_free {s : Popd} (reachable : system.Reachable s)
    (free : ∀ call ∈ s.log, call.takesFree) : s.PartnersMutual := by
  intro p q peer found paired
  have there : s.view.pairedOf p = some q := by
    rw [View.pairedOf_found (actors_view found)]
    exact paired
  have back := (reachable_view reachable).mutual free p q there
  rw [pairedOf_view, Popd.pairedOf] at back
  obtain ⟨partner, live, partners⟩ := Option.bind_eq_some_iff.mp back
  exact ⟨partner, live, partners⟩

def getRequest : List UInt8 := Http.ascii "GET http://a.com/ HTTP/1.1\r\n\r\n"

theorem partners_mutual_sample : ∃ s, system.Reachable s ∧ s.pairedOf 1 = some 2 ∧
    s.PartnersMutual := by
  have runs : (replay (fun n => if n = 1 then { read := getRequest } else {})
      [.accept [(5, 1, 2)] false, .socket 1 true false false]).map
        (fun s => (s.pairedOf 1, s.log.all Call.takesFree)) = some (some 2, true) := by
    decide +kernel
  obtain ⟨s, ran, facts⟩ := Option.map_eq_some_iff.mp runs
  obtain ⟨paired, free⟩ := Prod.mk.inj facts
  have reachable := replay_reachable ran
  exact ⟨s, reachable, paired, partners_mutual_of_free reachable (List.all_eq_true.mp free)⟩

/-- The second request of a client comes while the query for the first is not answered. -/
theorem second_request_breaks_pair : ∃ s, system.Reachable s ∧ ¬ s.PartnersMutual := by
  have runs : (replay (fun n => if n = 1 ∨ n = 4 then { read := getRequest } else {})
      [.accept [(5, 1, 2)] false, .socket 1 true false false]).map
        (fun s => (s.pairedOf 2, s.pairedOf 1)) = some (some 1, some 3) := by decide +kernel
  obtain ⟨s, ran, facts⟩ := Option.map_eq_some_iff.mp runs
  obtain ⟨first, client⟩ := Prod.mk.inj facts
  refine ⟨s, replay_reachable ran, fun partners => ?_⟩
  obtain ⟨server, found, paired⟩ := Option.bind_eq_some_iff.mp first
  obtain ⟨peer, live, back⟩ := partners 2 1 server found paired
  rw [Popd.pairedOf, live] at client
  exact absurd (back.symm.trans client) (by decide)

end Poplar.Proxy
