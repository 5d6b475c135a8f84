import Poplar.Proxy.Routines

/-!
# What the functions of the daemon leave alone

Who a peer is, that is its service, its side and the host at its other end, is settled
when it is made, but for the address; most functions work on connections, pairs and
messages only. A relation of states that such work keeps relates the states before and
after each of them.
-/
namespace Poplar.Proxy

open Effects Poplar.Domain

/-- A relation kept by work on a peer that stays who it is, and by work beside the peers and
the cache. -/
structure Frame (R : Popd → Popd → Prop) : Prop where
  refl : ∀ s, R s s
  trans : ∀ {s m s'}, R s m → R m s' → R s s'
  put : ∀ {s : Popd} {p : Nat} {peer peer' : Peer} (found : s.peers p = some peer),
    peer'.identity = peer.identity → R s (s.put p (some peer') (s.inside found))
  aside : ∀ {s s' : Popd}, s'.peers = s.peers → s'.next = s.next → s'.dnsCache = s.dnsCache →
    s'.answers = s.answers → s.calls ≤ s'.calls → R s s'

namespace Frame

variable {R : Popd → Popd → Prop} (frame : Frame R) {α β : Type}

include frame

theorem calm : Calm R where
  refl := frame.refl
  trans := frame.trans
  put found same := frame.put found (congrArg Holding.identity same)
  aside peers next _ cache answers calls := frame.aside peers next cache answers calls

theorem store (p : Nat) {f : Peer → Peer} (same : ∀ peer, (f peer).identity = peer.identity) :
    Within R (store p f) := by
  intro s u s' runs
  obtain ⟨peer, found, rfl⟩ := store_finds runs
  exact frame.put found (same peer)

theorem modify {f : Popd → Popd} (peers : ∀ s, (f s).peers = s.peers)
    (next : ∀ s, (f s).next = s.next) (cache : ∀ s, (f s).dnsCache = s.dnsCache)
    (answers : ∀ s, (f s).answers = s.answers) (calls : ∀ s, (f s).calls = s.calls) :
    Within R (modify f : Daemon PUnit) := by
  intro s u s' runs
  rw [runs_modify runs]
  exact frame.aside (peers s) (next s) (cache s) (answers s) (calls s).ge

theorem eventSet (p : Nat) (func : EventFunc) (write : Bool) : Within R (eventSet p func write) := by
  apply frame.calm.bind (frame.calm.load p)
  intro peer
  cases peer.tEvent with
  | some watch =>
      dsimp only
      split
      · exact frame.store p fun _ => rfl
      · intro s u s' runs
        cases runs
  | none =>
      apply frame.calm.bind frame.calm.ask
      intro answer
      split
      · exact frame.store p fun _ => rfl
      · exact frame.calm.pure _

theorem closeSockfd (p : Nat) : Within R (closeSockfd p) := by
  apply frame.store
  intro peer
  split <;> rfl

theorem popTcpClientConnect (p : Nat) : Within R (popTcpClientConnect p) := by
  apply frame.calm.bind (frame.closeSockfd p)
  intro _
  apply frame.calm.bind frame.calm.ask
  intro answer
  cases answer.socket with
  | none => exact frame.calm.bind (frame.store p fun _ => rfl) fun _ => frame.calm.pure _
  | some fd =>
      exact frame.calm.bind (frame.store p fun _ => rfl) fun _ =>
        frame.calm.bind frame.calm.ask fun _ => frame.calm.pure _

theorem popTcpClientStart (p : Nat) : Within R (popTcpClientStart p) := by
  have armed : Within R (do
      Proxy.eventSet p .tcpClientConnectCheck true
      Proxy.store p fun peer => { peer with tConnectingTimer := true }
      return (0 : Int)) :=
    frame.calm.bind (frame.eventSet _ _ _) fun _ =>
      frame.calm.bind (frame.store p fun _ => rfl) fun _ => frame.calm.pure _
  apply frame.calm.bind (frame.popTcpClientConnect p)
  intro result
  cases result with
  | error =>
      exact frame.calm.bind (frame.closeSockfd p) fun _ =>
        frame.calm.bind (frame.calm.note _) fun _ =>
          frame.calm.bind (frame.calm.popTcpClientEventAdd p _) fun _ =>
            frame.calm.bind (frame.calm.note _) fun _ => frame.calm.pure _
  | success => exact armed
  | inProgress => exact armed

theorem popTcpClientEstablish (p : Nat) : Within R (popTcpClientEstablish p) :=
  frame.calm.bind (frame.store p fun _ => rfl) fun _ =>
    frame.calm.bind (frame.modify (fun _ => rfl) (fun _ => rfl) (fun _ => rfl) (fun _ => rfl)
      fun _ => rfl) fun _ =>
        frame.calm.bind (frame.calm.popTcpClientEventAdd p _) fun _ =>
          frame.calm.bind (frame.eventSet _ _ _) fun _ => frame.calm.pure _

theorem popTcpClientLeave (p : Nat) (info : TcpClientInfo) : Within R (popTcpClientLeave p info) :=
  frame.calm.bind (frame.store p fun _ => rfl) fun _ =>
    frame.calm.bind (frame.calm.popTcpCanclePaired p) fun _ =>
      frame.calm.bind (frame.store p fun _ => rfl) fun _ =>
        frame.calm.bind (frame.calm.popTcpClientEventAdd p info) fun _ =>
          frame.calm.bind (frame.calm.note _) fun _ => frame.calm.pure _

theorem popTcpClientEvent (p : Nat) (event : TcpClientEvent) :
    Within R (popTcpClientEvent p event) := by
  apply frame.calm.bind (frame.calm.load p)
  intro peer
  have func : Within R (popTcpClientFsm p peer.tcpClientStatus event).1 := by
    cases peer.tcpClientStatus <;> cases event <;>
      first
        | exact frame.calm.pure _
        | exact frame.popTcpClientStart p
        | exact frame.popTcpClientEstablish p
        | exact frame.popTcpClientLeave p _
  apply frame.calm.bind func
  intro ret
  split
  · exact frame.store p fun _ => rfl
  · exact frame.calm.pure _

theorem popTcpServerClose (p : Nat) : Within R (popTcpServerClose p) :=
  frame.calm.bind (frame.store p fun _ => rfl) fun _ =>
    frame.calm.bind (frame.calm.popTcpCanclePaired p) fun _ =>
      frame.calm.bind (frame.store p fun _ => rfl) fun _ =>
        frame.calm.bind (frame.calm.popTcpServerEventAdd p _) fun _ => frame.calm.note _

theorem popTcpClosePeer (p : Nat) : Within R (popTcpClosePeer p) := by
  apply frame.calm.bind (frame.calm.load p)
  intro peer
  split
  · exact frame.popTcpClientEvent p .stop
  · exact frame.popTcpServerClose p

theorem routine : Routine R where
  toCalm := frame.calm
  eventSet := frame.eventSet
  success p := frame.popTcpClientEvent p .conectionSuccess
  closePeer := frame.popTcpClosePeer

theorem popPeerDelete (frees : ∀ p, Within R (free p)) (p : Nat) : Within R (popPeerDelete p) :=
  frame.calm.bind (frame.calm.note _) fun _ => frame.calm.bind (frame.store p fun _ => rfl) fun _ =>
    frame.calm.bind (frame.calm.popTcpCanclePaired p) fun _ =>
      frame.calm.bind (frame.modify (fun _ => rfl) (fun _ => rfl) (fun _ => rfl) (fun _ => rfl)
        fun _ => rfl) fun _ => frame.calm.bind (frame.calm.dnsWaitAckQueueDel p) fun _ => frees p

end Frame

/-! ## Who the peers are -/

def Popd.identityOf (s : Popd) (p : Nat) : Option Identity := (s.peers p).map Peer.identity

/-- All peers stay who they are. -/
theorem identityFrame : Frame fun s s' => s'.identityOf = s.identityOf where
  refl _ := rfl
  trans first second := second.trans first
  put := by
    intro s p peer peer' found same
    funext q
    unfold Popd.identityOf
    by_cases here : q = p
    · subst here
      rw [put_self, found, Option.map_some, Option.map_some, same]
    · rw [put_of_ne _ here]
  aside := by
    intro s s' peers _ _ _ _
    funext q
    unfold Popd.identityOf
    rw [peers]

end Poplar.Proxy
