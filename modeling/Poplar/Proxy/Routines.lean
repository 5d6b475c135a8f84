import Poplar.Lib.Effects
import Poplar.Proxy.Network

/-!
# What the functions of the daemon are made of

Sockets, events and statuses of a peer change in a few functions only; all the others are made
of these, and of work on pairs, messages and bytes. A relation of states that the few keep
relates the states before and after each of the others, up to what the event engine dispatches.
-/
namespace Poplar.Proxy

open Effects Poplar.Domain

/-- Who a peer is. -/
structure Identity where
  serviceType : ServiceType
  tcpPeerType : TcpPeerType
  remoteAddr : Nat
  remotePort : Option Int
  remoteHostname : List UInt8
  remoteHostip : Nat
  deriving DecidableEq

def Peer.identity (peer : Peer) : Identity where
  serviceType := peer.serviceType
  tcpPeerType := peer.tcpPeerType
  remoteAddr := peer.remoteAddr
  remotePort := peer.remotePort
  remoteHostname := peer.remoteHostname
  remoteHostip := peer.remoteHostip

/-- Who a peer is, and what it holds of its connection. -/
structure Holding where
  identity : Identity
  tcpClientStatus : TcpClientStatus
  sockfd : Int
  watched : Option Int
  tConnectingTimer : Bool
  tHoldtime : Bool
  deriving DecidableEq

def Peer.holding (peer : Peer) : Holding where
  identity := peer.identity
  tcpClientStatus := peer.tcpClientStatus
  sockfd := peer.sockfd
  watched := peer.tEvent.map Watch.fd
  tConnectingTimer := peer.tConnectingTimer
  tHoldtime := peer.tHoldtime

theorem holding_dnsTransactionID (peer : Peer) (id : Nat) :
    { peer with dnsTransactionID := id : Peer }.holding = peer.holding := rfl

theorem put_self {s : Popd} {p : Nat} (peer : Option Peer) (inside : p < s.next) :
    (s.put p peer inside).peers p = peer :=
  Function.update_self _ _ _

theorem put_of_ne {s : Popd} {p q : Nat} {peer : Option Peer} (inside : p < s.next)
    (different : q ≠ p) : (s.put p peer inside).peers q = s.peers q :=
  Function.update_of_ne different _ _

theorem load_found {s : Popd} {p : Nat} {peer : Peer} (found : s.peers p = some peer) :
    load p s = .ok (peer, s) := by
  unfold load
  rw [found]

theorem load_gone {s : Popd} {p : Nat} (gone : s.peers p = none) :
    load p s = .error .useAfterFree := by
  unfold load
  rw [gone]

theorem load_finds {s s' : Popd} {p : Nat} {peer : Peer} (runs : load p s = .ok (peer, s')) :
    s.peers p = some peer ∧ s' = s := by
  unfold load at runs
  split at runs
  next found =>
    cases runs
    exact ⟨found, rfl⟩
  next => cases runs

theorem store_found {s : Popd} {p : Nat} {peer : Peer} (found : s.peers p = some peer) (f : Peer → Peer) :
    store p f s = .ok ((), s.put p (some (f peer)) (s.inside found)) := by
  unfold store
  split
  next other there =>
    cases found.symm.trans there
    rfl
  next there => cases found.symm.trans there

theorem store_gone {s : Popd} {p : Nat} (gone : s.peers p = none) (f : Peer → Peer) :
    store p f s = .error .useAfterFree := by
  unfold store
  split
  next peer there => cases gone.symm.trans there
  next => rfl

theorem store_finds {s s' : Popd} {p : Nat} {f : Peer → Peer} {u : Unit}
    (runs : store p f s = .ok (u, s')) :
    ∃ (peer : Peer) (found : s.peers p = some peer),
      s' = s.put p (some (f peer)) (s.inside found) := by
  unfold store at runs
  split at runs
  next peer found =>
    cases runs
    exact ⟨peer, found, rfl⟩
  next => cases runs

theorem free_finds {s s' : Popd} {p : Nat} {u : Unit} (runs : free p s = .ok (u, s')) :
    ∃ (peer : Peer) (found : s.peers p = some peer), s' = s.put p none (s.inside found) := by
  unfold free at runs
  split at runs
  next peer found =>
    cases runs
    exact ⟨peer, found, rfl⟩
  next => cases runs

/-- A successful run relates the states before and after it. -/
abbrev Within {α : Type} (R : Popd → Popd → Prop) (x : Daemon α) : Prop :=
  ∀ s a s', x s = .ok (a, s') → R s s'

/-- A relation kept by work on a peer that stays who it is and holds what it held, and by work
beside the peers, their list and the cache. -/
structure Calm (R : Popd → Popd → Prop) : Prop where
  refl : ∀ s, R s s
  trans : ∀ {s m s'}, R s m → R m s' → R s s'
  put : ∀ {s : Popd} {p : Nat} {peer peer' : Peer} (found : s.peers p = some peer),
    peer'.holding = peer.holding → R s (s.put p (some peer') (s.inside found))
  aside : ∀ {s s' : Popd}, s'.peers = s.peers → s'.next = s.next →
    s'.pairedPeerTcpList = s.pairedPeerTcpList → s'.dnsCache = s.dnsCache →
    s'.answers = s.answers → s.calls ≤ s'.calls → R s s'

namespace Calm

variable {R : Popd → Popd → Prop} (calm : Calm R) {α β : Type}

include calm

theorem pure (a : α) : Within R (Pure.pure a : Daemon α) := by
  intro s b s' runs
  rw [(runs_pure runs).2]
  exact calm.refl s

theorem bind {x : Daemon α} {f : α → Daemon β} (first : Within R x) (second : ∀ a, Within R (f a)) :
    Within R (x >>= f) := by
  intro s b s' runs
  obtain ⟨a, m, ran, runs⟩ := runs_bind runs
  exact calm.trans (first s a m ran) (second a m b s' runs)

theorem load (p : Nat) : Within R (load p) := by
  intro s peer s' runs
  rw [(load_finds runs).2]
  exact calm.refl s

theorem store (p : Nat) {f : Peer → Peer} (same : ∀ peer, (f peer).holding = peer.holding) :
    Within R (store p f) := by
  intro s u s' runs
  obtain ⟨peer, found, rfl⟩ := store_finds runs
  exact calm.put found (same peer)

theorem ask : Within R ask := by
  intro s answer s' runs
  cases runs
  exact calm.aside rfl rfl rfl rfl rfl (Nat.le_succ _)

theorem modify {f : Popd → Popd} (peers : ∀ s, (f s).peers = s.peers)
    (next : ∀ s, (f s).next = s.next)
    (list : ∀ s, (f s).pairedPeerTcpList = s.pairedPeerTcpList)
    (cache : ∀ s, (f s).dnsCache = s.dnsCache) (answers : ∀ s, (f s).answers = s.answers)
    (calls : ∀ s, (f s).calls = s.calls) : Within R (modify f : Daemon PUnit) := by
  intro s u s' runs
  rw [runs_modify runs]
  exact calm.aside (peers s) (next s) (list s) (cache s) (answers s) (calls s).ge

theorem note (call : Popd → Call) : Within R (note call) :=
  calm.modify (fun _ => rfl) (fun _ => rfl) (fun _ => rfl) (fun _ => rfl) (fun _ => rfl)
    fun _ => rfl

theorem get : Within R (get : Daemon Popd) := by
  intro s t s' runs
  rw [(runs_get runs).2]
  exact calm.refl s

theorem call (result : Except Fault α) : Within R (call result) := by
  intro s a s' runs
  cases result with
  | ok a =>
      cases runs
      exact calm.refl s
  | error fault => cases runs

/-! ## Pairs and messages -/

theorem popPeersPaired (p1 p2 : Nat) : Within R (popPeersPaired p1 p2) :=
  calm.bind (calm.note _) fun _ => calm.bind (calm.store p1 fun _ => rfl) fun _ =>
    calm.store p2 fun _ => rfl

theorem popTcpCanclePaired (p : Nat) : Within R (popTcpCanclePaired p) := by
  apply calm.bind (calm.load p)
  intro peer
  cases peer.pairedPeer with
  | some q => exact calm.bind (calm.store q fun _ => rfl) fun _ => calm.store p fun _ => rfl
  | none => exact calm.store p fun _ => rfl

theorem dnsWaitAckQueueAdd (p : Nat) : Within R (dnsWaitAckQueueAdd p) :=
  calm.bind (calm.load p) fun _ => calm.bind (calm.note _) fun _ =>
    calm.modify (fun _ => rfl) (fun _ => rfl) (fun _ => rfl) (fun _ => rfl) (fun _ => rfl)
      fun _ => rfl

theorem dnsWaitAckQueueDel (p : Nat) : Within R (dnsWaitAckQueueDel p) :=
  calm.bind (calm.load p) fun _ => calm.bind (calm.note _) fun _ =>
    calm.modify (fun _ => rfl) (fun _ => rfl) (fun _ => rfl) (fun _ => rfl) (fun _ => rfl)
      fun _ => rfl

theorem popTcpClientEventAdd (p : Nat) (info : TcpClientInfo) :
    Within R (popTcpClientEventAdd p info) := calm.store p fun _ => rfl

theorem popTcpServerEventAdd (p : Nat) (info : TcpServerInfo) :
    Within R (popTcpServerEventAdd p info) := calm.store p fun _ => rfl

theorem streamFifoPush (p : Nat) (bytes : List UInt8) (origin : Option Nat) :
    Within R (streamFifoPush p bytes origin) :=
  calm.bind (calm.store p fun _ => rfl) fun _ => calm.note _

theorem streamFifoPushDup (p origin : Nat) : Within R (streamFifoPushDup p origin) :=
  calm.bind (calm.load origin) fun _ => calm.streamFifoPush _ _ _

theorem popHttpProxyTcpServerAccept (connects : ∀ sock addr port,
      Within R (popHttpProxyServerPeerConnect sock addr port))
    (clients : List (Nat × Nat × Int)) (broken : Bool) :
    Within R (popHttpProxyTcpServerAccept clients broken) := by
  induction clients with
  | nil =>
      unfold Proxy.popHttpProxyTcpServerAccept
      split
      · rintro s u s' ⟨⟩
      · exact calm.pure _
  | cons client clients ih => exact calm.bind (connects _ _ _) fun _ => ih

end Calm

/-- A calm relation that the functions on connections keep. -/
structure Routine (R : Popd → Popd → Prop) : Prop extends Calm R where
  eventSet : ∀ p func write, Within R (eventSet p func write)
  success : ∀ p, Within R (popTcpClientEvent p .conectionSuccess)
  closePeer : ∀ p, Within R (popTcpClosePeer p)

namespace Routine

variable {R : Popd → Popd → Prop} (routine : Routine R) {α β : Type}

include routine

/-! ## Ends of connections -/

theorem popTcpClosePairedPeer (p : Nat) : Within R (popTcpClosePairedPeer p) := by
  apply routine.bind (routine.load p)
  intro peer
  cases peer.pairedPeer with
  | some q => exact routine.bind (routine.closePeer q) fun _ => routine.closePeer p
  | none => exact routine.closePeer p

theorem popTcpClientConnectCheck (p : Nat) : Within R (popTcpClientConnectCheck p) := by
  apply routine.bind routine.ask
  intro answer
  split
  · exact routine.popTcpClosePairedPeer p
  · exact routine.success p

theorem dnsWaitAckTimeoutCall (p : Nat) : Within R (dnsWaitAckTimeoutCall p) :=
  routine.bind (routine.store p fun _ => rfl) fun _ =>
    routine.bind (routine.dnsWaitAckQueueDel p) fun _ => routine.popTcpClosePairedPeer p

/-! ## Messages that end a peer -/

section Deletes

variable (deletes : ∀ p, Within R (popPeerDelete p))

include deletes

theorem popTcpClientEventHttpProxyCall (p : Nat) (info : TcpClientInfo) :
    Within R (popTcpClientEventHttpProxyCall p info) := by
  cases info with
  | connectionSuccess =>
      apply routine.bind (routine.load p)
      intro peer
      split
      · split
        next q _ =>
          apply routine.bind (routine.load q)
          intro paired
          split
          · exact routine.eventSet _ _ _
          · exact routine.pure _
        next => exact routine.pure _
      · split
        · exact routine.eventSet _ _ _
        · exact routine.pure _
  | connectionError => exact deletes p
  | connectionBreak => exact deletes p

theorem popTcpServerEventHttpProxyCall (p : Nat) (info : TcpServerInfo) :
    Within R (popTcpServerEventHttpProxyCall p info) := by
  cases info with
  | accept => exact routine.pure _
  | break' => exact deletes p
  | error => exact deletes p

omit deletes in
theorem eventCall (p : Nat) {httpProxyCall : Daemon Unit} (http : Within R httpProxyCall) :
    Within R (eventCall p httpProxyCall) := by
  apply routine.bind (routine.load p)
  intro peer
  split
  · exact http
  · exact routine.pure _

omit deletes in
theorem infoLoop {ι : Type} (p : Nat) (infos : Peer → List ι) {setInfos : List ι → Peer → Peer}
    (same : ∀ rest peer, (setInfos rest peer).holding = peer.holding) {call : ι → Daemon Unit}
    (deal : InfoDeal) (calls : ∀ info, Within R (call info)) (n : Nat) :
    Within R (infoLoop p infos setInfos call deal n) := by
  induction n with
  | zero =>
      apply routine.bind (routine.load p)
      intro peer
      split
      · exact routine.store p fun _ => rfl
      · exact routine.pure _
  | succ n ih =>
      apply routine.bind (routine.bind routine.get fun s => routine.pure _)
      intro answer
      split
      · apply routine.bind (routine.load p)
        intro peer
        cases infos peer with
        | nil => exact routine.pure _
        | cons info rest =>
            exact routine.bind (routine.store p (same rest)) fun _ =>
              routine.bind (calls info) fun _ => ih
      · exact routine.pure _

theorem infoDeal (p : Nat) : Within R (dispatch (.infoDeal p)) := by
  apply routine.bind (routine.load p)
  intro peer
  cases peer.tInfoDeal with
  | none => exact routine.pure _
  | some deal =>
      cases deal with
      | tcpClientEvent =>
          refine routine.bind (routine.note _) fun _ =>
            routine.bind (routine.store p fun _ => rfl) fun _ => ?_
          apply routine.infoLoop
          · intro rest peer
            rfl
          · intro info
            exact routine.eventCall p (routine.popTcpClientEventHttpProxyCall deletes p info)
      | tcpServerEvent =>
          refine routine.bind (routine.note _) fun _ =>
            routine.bind (routine.store p fun _ => rfl) fun _ => ?_
          apply routine.infoLoop
          · intro rest peer
            rfl
          · intro info
            exact routine.eventCall p (routine.popTcpServerEventHttpProxyCall deletes p info)

end Deletes

/-! ## Bytes -/

theorem writeLoop (p n : Nat) : Within R (writeLoop p n) := by
  induction n with
  | zero => exact routine.pure _
  | succ n ih =>
      apply routine.bind (routine.load p)
      intro peer
      cases peer.writeFifo with
      | nil => exact routine.pure _
      | cons stream rest =>
          apply routine.bind routine.ask
          intro answer
          split
          · split
            · exact routine.pure _
            · exact routine.bind (routine.popTcpClosePairedPeer p) fun _ => routine.pure _
          · split
            · exact routine.bind (routine.store p fun _ => rfl) fun _ => routine.pure _
            · exact routine.bind (routine.store p fun _ => rfl) fun _ => ih

theorem popHttpProxyTcpWrite (p : Nat) : Within R (popHttpProxyTcpWrite p) := by
  apply routine.bind (routine.load p)
  intro peer
  apply routine.bind (routine.writeLoop p _)
  intro failed
  split
  · exact routine.pure _
  · exact routine.bind (routine.load p) fun _ => routine.eventSet _ _ _

theorem popTcpPacketTranspond (p origin : Nat) : Within R (popTcpPacketTranspond p origin) :=
  routine.bind (routine.streamFifoPushDup p origin) fun _ => routine.popHttpProxyTcpWrite p

theorem popCheckWhetherMsgForward (p : Nat) : Within R (popCheckWhetherMsgForward p) := by
  apply routine.bind (routine.load p)
  intro peer
  cases peer.pairedPeer with
  | none => exact routine.pure _
  | some q =>
      apply routine.bind (routine.load q)
      intro paired
      split
      · exact routine.pure _
      · split <;> exact routine.pure _

/-! ## Requests -/

theorem popGetHostByNameUnblock (p : Nat) : Within R (popGetHostByNameUnblock p) := by
  apply routine.bind (routine.load p)
  intro peer
  refine routine.bind routine.get fun s => routine.bind routine.ask fun answer =>
    routine.bind (routine.call _) fun result => routine.bind (routine.modify (fun _ => rfl)
      (fun _ => rfl) (fun _ => rfl) (fun _ => rfl) (fun _ => rfl) fun _ => rfl) fun _ => ?_
  split
  · exact routine.pure _
  · apply routine.bind
    · apply routine.store
      intro peer
      exact holding_dnsTransactionID peer _
    intro _
    exact routine.bind (routine.dnsWaitAckQueueAdd p) fun _ =>
      routine.bind (routine.store p fun _ => rfl) fun _ => routine.pure _

theorem requestHost (p : Nat) : Within R (requestHost p) := by
  apply routine.bind (routine.load p)
  intro peer
  apply routine.bind (routine.call _)
  intro sline
  cases sline with
  | none => exact routine.pure _
  | some sline => exact routine.call _

theorem requestError (client : Nat) : Within R (requestError client) :=
  routine.bind (routine.popTcpClosePairedPeer client) fun _ => routine.pure _

theorem partnerBusy (p : Nat) : Within R (partnerBusy p) := by
  apply routine.bind (routine.load p)
  intro peer
  cases peer.pairedPeer with
  | some q => exact routine.bind (routine.load q) fun _ => routine.pure _
  | none => exact routine.pure _

end Routine

/-- A relation kept also by the lookups, by what makes and ends peers, and by the answers of the
name server: the functions everything else the engine dispatches is made of. -/
structure Course (R : Popd → Popd → Prop) : Prop extends Routine R where
  lookup : ∀ p dropExpired, Within R (domainParseHost p dropExpired)
  make : ∀ host, Within R (popRemoteServerPeerMake host)
  connect : ∀ sock addr port, Within R (popHttpProxyServerPeerConnect sock addr port)
  delete : ∀ p, Within R (popPeerDelete p)
  expire : ∀ p, Within R (popTcpClientConnectExpired p)
  answer : ∀ payload fromAddr fromPort,
    Within R (popUdpRecvDnsQueryAck payload fromAddr fromPort)
  check : Within R (Proxy.dispatch .cacheCheck)

namespace Course

variable {R : Popd → Popd → Prop} (course : Course R)

include course

/-! ## Requests -/

/-- The lookup of the host of a new peer, or what follows when it fails. -/
theorem resolved (server client : Nat) (dropExpired : Bool) :
    Within R (do
      if (← domainParseHost server dropExpired) < 0 then requestError client else return 0 :
        Daemon Int) := by
  apply course.bind (course.lookup server dropExpired)
  intro ret
  split
  · exact course.requestError client
  · exact course.pure _

theorem popHttpProxyRequestGet (client : Nat) : Within R (popHttpProxyRequestGet client) := by
  apply course.bind (course.requestHost client)
  intro host
  cases host with
  | none => exact course.requestError client
  | some host =>
      exact course.bind (course.make host) fun server =>
        course.bind (course.popPeersPaired _ _) fun _ =>
          course.bind (course.streamFifoPushDup _ _) fun _ =>
            course.bind (course.load client) fun _ =>
              course.bind (course.note _) fun _ => course.resolved server client true

theorem popHttpProxyRequestConnect (client : Nat) :
    Within R (popHttpProxyRequestConnect client) := by
  apply course.bind (course.requestHost client)
  intro host
  cases host with
  | none => exact course.requestError client
  | some host =>
      exact course.bind (course.make host) fun server =>
        course.bind (course.popPeersPaired _ _) fun _ =>
          course.bind (course.streamFifoPush _ _ _) fun _ =>
            course.bind (course.store server fun _ => rfl) fun _ =>
              course.resolved server client false

theorem requestCallback (client : Nat) (method : Http.HttpMethod) :
    Within R (requestCallback client method) := by
  cases method with
  | get | head | put | post => exact course.popHttpProxyRequestGet client
  | connect => exact course.popHttpProxyRequestConnect client
  | trace | options | delete | lock | mkcol | copy | move => exact course.pure _

theorem popHttpProxyRequestEvent (p : Nat) : Within R (popHttpProxyRequestEvent p) := by
  have echoes : Within R (do Proxy.streamFifoPushDup p p; return 0 : Daemon Int) :=
    course.bind (course.streamFifoPushDup p p) fun _ => course.pure _
  apply course.bind (course.partnerBusy p)
  intro busy
  split
  · exact echoes
  · apply course.bind (course.load p)
    intro peer
    cases Http.popHttpProxyMethodMatch peer.recvBuffer with
    | none => exact echoes
    | some method => exact course.requestCallback p method

/-! ## Sockets -/

theorem popHttpProxyMessageDeal (p : Nat) : Within R (popHttpProxyMessageDeal p) := by
  apply course.bind (course.load p)
  intro peer
  split
  · cases peer.tcpPeerType with
    | client =>
        apply course.bind (course.popCheckWhetherMsgForward p)
        intro forward
        split
        · cases peer.pairedPeer with
          | some q => exact course.popTcpPacketTranspond q p
          | none => exact course.pure _
        · exact course.bind (course.popHttpProxyRequestEvent p) fun _ => course.pure _
    | server =>
        apply course.bind (course.popCheckWhetherMsgForward p)
        intro forward
        split
        · cases peer.pairedPeer with
          | some q => exact course.popTcpPacketTranspond q p
          | none => exact course.pure _
        · exact course.pure _
    | unknown => exact course.pure _
  · exact course.pure _

theorem readLoop (p n : Nat) : Within R (readLoop p n) := by
  induction n with
  | zero => exact course.pure _
  | succ n ih =>
      apply course.bind course.ask
      intro answer
      apply course.bind (course.load p)
      intro peer
      refine course.bind (course.store p fun _ => ?_) fun _ => ?_
      · rfl
      generalize (if peer.sockfd < 0 then [] else answer.read.take MAX_RECV_PACKET_SIZE) = bytes
      split
      · split
        · exact course.pure _
        · exact course.bind (course.popTcpClosePairedPeer p) fun _ => course.pure _
      · exact course.bind (course.note _) fun _ =>
          course.bind (course.popHttpProxyMessageDeal p) fun _ => ih

theorem popHttpProxyTcpEpollEvent (p : Nat) (listenWrite read write error : Bool) :
    Within R (popHttpProxyTcpEpollEvent p listenWrite read write error) := by
  have reads : Within R (popHttpProxyTcpRead p listenWrite) := by
    apply course.bind (course.readLoop p _)
    intro again
    split
    · exact course.eventSet _ _ _
    · exact course.pure _
  have when (b : Bool) {x : Daemon Unit} (within : Within R x) :
      Within R (if b then x else Pure.pure ()) := by
    cases b with
    | true => exact within
    | false => exact course.pure _
  rw [popHttpProxyTcpEpollEvent_joined]
  exact course.bind (when read reads) fun _ =>
    course.bind (when write (course.popHttpProxyTcpWrite p)) fun _ => when error reads

theorem socketEvent (p : Nat) (read write error : Bool) :
    Within R (socketEvent p read write error) := by
  intro s u s' runs
  obtain ⟨peer, m, loaded, rest⟩ := runs_bind runs
  obtain ⟨found, rfl⟩ := load_finds loaded
  cases event : peer.tEvent with
  | none =>
      rw [event] at rest
      exact course.pure _ _ _ _ rest
  | some watch =>
      rw [event] at rest
      obtain ⟨_, m', fired, rest⟩ := runs_bind rest
      -- a descriptor that fires stays the same
      have disarmed : R m m' := by
        obtain ⟨peer', found', rfl⟩ := store_finds fired
        cases found.symm.trans found'
        apply course.put found
        unfold Peer.holding
        rw [event]
        rfl
      apply course.trans disarmed
      cases func : watch.func with
      | tcpClientConnectCheck =>
          rw [func] at rest
          exact course.popTcpClientConnectCheck p _ _ _ rest
      | httpProxyTcpEpollEvent =>
          rw [func] at rest
          exact course.popHttpProxyTcpEpollEvent p _ _ _ _ _ _ _ rest

theorem dispatch (event : Dispatch) : Within R (dispatch event) := by
  cases event with
  | accept clients broken => exact course.popHttpProxyTcpServerAccept course.connect clients broken
  | socket p read write error => exact course.socketEvent p read write error
  | connectExpired p => exact course.expire p
  | dnsWaitAckTimeout p => exact course.dnsWaitAckTimeoutCall p
  | infoDeal p => exact course.infoDeal course.delete p
  | datagram payload fromAddr fromPort => exact course.answer payload fromAddr fromPort
  | cacheCheck => exact course.check

end Course

end Poplar.Proxy
