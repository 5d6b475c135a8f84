import Poplar.Proxy.Types

/-!
# Pairs in the abstract

What is left of the daemon when sockets, buffers and the operating system are
forgotten: peers with their partners, statuses and messages, the list of connected
peers and the wait queue. The log stays.
-/
namespace Poplar.Proxy

structure View where
  actors : Nat → Option Actor
  next : Nat
  fresh : ∀ p, next ≤ p → actors p = none
  listed : List Nat
  queue : Hash Nat
  log : List Call

def Popd.view (s : Popd) : View where
  actors p := (s.peers p).map Peer.toActor
  next := s.next
  fresh := fun p outside => by rw [s.fresh p outside, Option.map_none]
  listed := s.pairedPeerTcpList
  queue := s.dnsAckWaitQueue
  log := s.log

namespace View

def modify (v : View) (p : Nat) (f : Actor → Actor) : View :=
  { v with
    actors := Function.update v.actors p ((v.actors p).map f)
    fresh := fun q outside => by
      by_cases here : q = p
      · subst here
        rw [Function.update_self, v.fresh q outside, Option.map_none]
      · rw [Function.update_of_ne here, v.fresh q outside] }

theorem modify_actors (v : View) (p : Nat) (f : Actor → Actor) :
    (v.modify p f).actors = Function.update v.actors p ((v.actors p).map f) :=
  rfl

def remove (v : View) (p : Nat) : View :=
  { v with
    actors := Function.update v.actors p none
    fresh := fun q outside => by
      by_cases here : q = p
      · rw [here, Function.update_self]
      · rw [Function.update_of_ne here, v.fresh q outside] }

def note (v : View) (call : Call) : View := { v with log := call :: v.log }

def pairedOf (v : View) (p : Nat) : Option Nat := (v.actors p).bind Actor.pairedPeer

def partnerOf (v : View) (p : Nat) : Option (Nat × TcpPeerType × TcpClientStatus) := do
  let q ← v.pairedOf p
  let paired ← v.actors q
  return (q, paired.tcpPeerType, paired.tcpClientStatus)

def waitFuncs (v : View) : HashFuncs Nat Nat where
  deref p := ((v.actors p).map Actor.dnsTransactionID).getD 0
  hashKey id := id
  hashCmp id1 id2 := id1 == id2

def alloc (v : View) (actor : Actor) : View :=
  { v with
    actors := Function.update v.actors v.next (some actor)
    next := v.next + 1
    fresh := fun q outside => by rw [Function.update_of_ne (by omega), v.fresh q (by omega)] }

def pair (v : View) (p1 p2 : Nat) : View :=
  ((v.note (.paired p1 p2 (v.pairedOf p1) (v.pairedOf p2))).modify p1 fun actor =>
    { actor with pairedPeer := some p2 }).modify p2 fun actor => { actor with pairedPeer := some p1 }

def unpair (v : View) (p : Nat) : View :=
  v.modify p fun actor => { actor with pairedPeer := none }

def cancel (v : View) (p : Nat) : View :=
  match v.pairedOf p with
  | some q => (v.unpair q).unpair p
  | none => v.unpair p

def clientInfo (v : View) (p : Nat) (info : TcpClientInfo) : View :=
  v.modify p fun actor => { actor with
    tcpClientInfoList := actor.tcpClientInfoList ++ [info]
    tInfoDeal := actor.tInfoDeal.or (some .tcpClientEvent) }

def serverInfo (v : View) (p : Nat) (info : TcpServerInfo) : View :=
  v.modify p fun actor => { actor with
    tcpServerInfoList := actor.tcpServerInfoList ++ [info]
    tInfoDeal := actor.tInfoDeal.or (some .tcpServerEvent) }

def forgetInfo (v : View) (p : Nat) : View :=
  v.modify p fun actor => { actor with tcpClientInfoList := [], tcpServerInfoList := [] }

def serviceOf (v : View) (p : Nat) : Option ServiceType := (v.actors p).map Actor.serviceType

def teardown (v : View) (p : Nat) : View := v.note (.teardown p (v.serviceOf p))

def setStatus (v : View) (p : Nat) (status : TcpClientStatus) : View :=
  v.modify p fun actor => { actor with tcpClientStatus := status }

/-- A server-side peer stops. -/
def stop (v : View) (p : Nat) : View :=
  ((((v.cancel p).forgetInfo p).clientInfo p .connectionBreak).teardown p).setStatus p .idle

/-- A client-side peer closes. -/
def close (v : View) (p : Nat) : View :=
  ((((v.modify p fun actor => { actor with tDnsWaitAck := false, tInfoDeal := none }).cancel
    p).forgetInfo p).serverInfo p .break').teardown p

def typeOf (v : View) (p : Nat) : Option TcpPeerType := (v.actors p).map Actor.tcpPeerType

def closePeer (v : View) (p : Nat) : View :=
  if v.typeOf p = some .server then v.stop p else v.close p

def closePaired (v : View) (p : Nat) : View :=
  match v.pairedOf p with
  | some q => (v.closePeer q).closePeer p
  | none => v.closePeer p

/-- A peer that is idle starts to connect, and may fail at once. -/
def start (v : View) (p : Nat) (connects : Bool) : View :=
  if connects then v.setStatus p .connect
  else ((v.note (.connectFailed p (v.pairedOf p))).clientInfo p .connectionError).teardown p

/-- `listnode_add(popd->http_proxy_conf.paired_peer_tcp_list, peer)` -/
def enlist (v : View) (p : Nat) : View := { v with listed := v.listed ++ [p] }

def unlist (v : View) (p : Nat) : View := { v with listed := v.listed.erase p }

def establish (v : View) (p : Nat) : View :=
  ((v.enlist p).clientInfo p .connectionSuccess).setStatus p .establish

def drop (v : View) (p : Nat) : View :=
  let id := v.waitFuncs.deref p
  { v.note (.waitDropped p ((hashRelease v.waitFuncs v.queue id).1.map fun q =>
      (q, v.pairedOf q))) with
    queue := (hashRelease v.waitFuncs v.queue id).2 }

def enqueue (v : View) (p : Nat) : View :=
  let id := v.waitFuncs.deref p
  { v.note (.waitAdded p (hashLookup v.waitFuncs v.queue id)) with
    queue := (hashGet v.waitFuncs v.queue id (some p)).2 }

def setWait (v : View) (p : Nat) (armed : Bool) : View :=
  v.modify p fun actor => { actor with tDnsWaitAck := armed }

/-- A peer waits for the answer to the query with this identifier. -/
def wait (v : View) (p id : Nat) : View :=
  ((v.modify p fun actor => { actor with dnsTransactionID := id }).enqueue p).setWait p true

def delete (v : View) (p : Nat) : View :=
  (((((v.note (.deleted p)).modify p fun actor =>
    { actor with tInfoDeal := none, tDnsWaitAck := false }).cancel p).unlist p).drop p).remove p

def statusOf (v : View) (p : Nat) : Option TcpClientStatus := (v.actors p).map Actor.tcpClientStatus

/-- `pop_check_whether_msg_forward` for a client-side peer. -/
def Forwards (v : View) (p : Nat) : Prop := ∃ q, v.partnerOf p = some (q, .server, .establish)

/-- `pop_tcp_close_paired_peer` returns: the peer and its partner, if any, are live. -/
structure Closed (p : Nat) (v v' : View) : Prop where
  live : (v.actors p).isSome
  partner : ∀ q, v.pairedOf p = some q → (v.actors q).isSome
  result : v' = v.closePaired p

/-- What `pop_tcp_client_event_start` may do. -/
inductive Started (p : Nat) (v : View) : View → Prop
  | connects : v.statusOf p = some .idle → Started p v (v.start p true)
  | fails : v.statusOf p = some .idle → Started p v (v.start p false)
  | ignored : v.statusOf p ≠ some .idle → Started p v v

/-- How the host of a new server-side peer `p` of the client `c` is looked up. -/
inductive Resolved (p c : Nat) (v : View) : View → Prop
  | starts {v' : View} : Started p v v' → Resolved p c v v'
  | waits (id : Nat) : Resolved p c v (v.wait p id)
  | unsent {v' : View} : Closed c v v' → Resolved p c v v'

/-- A write to `p` may fail. -/
def Written (p : Nat) (v v' : View) : Prop := v' = v ∨ Closed p v v'

/-- A server-side peer as `pop_remote_server_peer_make` leaves it. -/
def serverActor : Actor := { serviceType := .httpProxy, tcpPeerType := .server }

/-- The server-side peer of a request, paired with its client. -/
def openServer (v : View) (client : Nat) : View := (v.alloc serverActor).pair v.next client

/-- What becomes of bytes read from `p`. -/
inductive Handled (p : Nat) (bytes : List UInt8) (v : View) : View → Prop
  | forward {q : Nat} {v' : View} : v.typeOf p = some .client →
      v.partnerOf p = some (q, .server, .establish) →
      Written q (v.note (.queued q bytes (some p))) v' → Handled p bytes v v'
  | back {q : Nat} {status : TcpClientStatus} {v' : View} : v.typeOf p = some .server →
      v.partnerOf p = some (q, .client, status) →
      Written q (v.note (.queued q bytes (some p))) v' → Handled p bytes v v'
  | ignore : (v.serviceOf p = some .httpProxy → v.typeOf p = some .client → ¬ v.Forwards p) →
      Handled p bytes v v
  | delay : v.typeOf p = some .client → ¬ v.Forwards p →
      Handled p bytes v (v.note (.queued p bytes (some p)))
  | refuse {v' : View} : v.typeOf p = some .client → ¬ v.Forwards p → Closed p v v' →
      Handled p bytes v v'
  | request {v' : View} : v.typeOf p = some .client → ¬ v.Forwards p →
      Resolved v.next p (((v.openServer p).note (.queued v.next bytes (some p))).note
        (.requested p v.next bytes)) v' → Handled p bytes v v'
  | tunnel {reply : List UInt8} {v' : View} : v.typeOf p = some .client → ¬ v.Forwards p →
      Resolved v.next p ((v.openServer p).note (.queued p reply none)) v' → Handled p bytes v v'

/-- The turns of a read loop. -/
inductive Reads (p : Nat) : View → View → Prop
  | done (v : View) : Reads p v v
  | broken {v v' : View} : Closed p v v' → Reads p v v'
  | chunk {v m v' : View} {bytes : List UInt8} :
      Handled p bytes (v.note (.chunk p bytes (v.partnerOf p))) m → Reads p m v' → Reads p v v'

/-- The turns of an info handler: `take` are the messages of the queue it works on, `ends`
those that delete the peer. -/
inductive Infos {ι : Type} (p : Nat) (infos : Actor → List ι) (rest : List ι → Actor → Actor)
    (ends : ι → Prop) (kind : InfoDeal) : Nat → View → View → Prop
  | out {n : Nat} {v : View} : p ∉ v.listed → Infos p infos rest ends kind (n + 1) v v
  | empty {n : Nat} {v : View} {actor : Actor} : v.actors p = some actor → infos actor = [] →
      Infos p infos rest ends kind n v v
  | later {v : View} {actor : Actor} : v.actors p = some actor → infos actor ≠ [] →
      Infos p infos rest ends kind 0 v
        (v.modify p fun actor => { actor with tInfoDeal := actor.tInfoDeal.or (some kind) })
  | keep {n : Nat} {v v' : View} {actor : Actor} {info : ι} {others : List ι} : p ∈ v.listed →
      v.actors p = some actor → infos actor = info :: others →
      ¬ ends info ∨ actor.serviceType ≠ .httpProxy →
      Infos p infos rest ends kind n (v.modify p (rest others)) v' →
      Infos p infos rest ends kind (n + 1) v v'
  | delete {n : Nat} {v v' : View} {actor : Actor} {info : ι} {others : List ι} : p ∈ v.listed →
      v.actors p = some actor → infos actor = info :: others → ends info →
      actor.serviceType = .httpProxy →
      Infos p infos rest ends kind n ((v.modify p (rest others)).delete p) v' →
      Infos p infos rest ends kind (n + 1) v v'

abbrev ClientInfos (p : Nat) : Nat → View → View → Prop :=
  Infos p Actor.tcpClientInfoList (fun rest actor => { actor with tcpClientInfoList := rest })
    (· ≠ .connectionSuccess) .tcpClientEvent

abbrev ServerInfos (p : Nat) : Nat → View → View → Prop :=
  Infos p Actor.tcpServerInfoList (fun rest actor => { actor with tcpServerInfoList := rest })
    (· ≠ .accept) .tcpServerEvent

/-- The beginning of an info handler. -/
def infoRun (v : View) (p : Nat) : View :=
  (v.note (.infoRun p (v.typeOf p) (decide (p ∈ v.listed)))).modify p fun actor =>
    { actor with tInfoDeal := none }

/-- A client-side peer as `pop_http_proxy_server_peer_connect` leaves it. -/
def clientActor : Actor where
  serviceType := .httpProxy
  tcpPeerType := .client
  tcpServerInfoList := [.accept]
  tInfoDeal := some .tcpServerEvent

def accept (v : View) : View := (v.alloc clientActor).enlist v.next

/-- A matching answer to the query `p` waits for. -/
def answer (v : View) (p address : Nat) : View :=
  ((v.note (.answered p address (v.pairedOf p))).drop p).setWait p false

inductive Step (v : View) : View → Prop
  | accept : Step v v.accept
  | reads (p : Nat) {v' : View} : Reads p v v' → Step v v'
  | closes (p : Nat) {v' : View} : Closed p v v' → Step v v'
  | establishes (p : Nat) : v.statusOf p = some .connect → Step v (v.establish p)
  | clientInfos (p : Nat) {actor : Actor} {v' : View} : v.actors p = some actor →
      actor.tInfoDeal = some .tcpClientEvent →
      ClientInfos p 5 (v.infoRun p) v' → Step v v'
  | serverInfos (p : Nat) {actor : Actor} {v' : View} : v.actors p = some actor →
      actor.tInfoDeal = some .tcpServerEvent →
      ServerInfos p 5 (v.infoRun p) v' → Step v v'
  | timeout (p : Nat) {v' : View} : Closed p ((v.setWait p false).drop p) v' → Step v v'
  | noAddress (p : Nat) : v.queue.Stores p → Step v (v.answer p 0)
  | answered (p : Nat) {address : Nat} {v' : View} : v.queue.Stores p → address ≠ 0 →
      Started p (v.answer p address) v' → Step v v'

/-- The DNS client is there from the beginning. -/
def init : View where
  actors := Function.update (fun _ => none) 0
    (some { serviceType := .dnsClient, tcpPeerType := .server })
  next := 1
  fresh := first_fresh _
  listed := []
  queue := hashCreate Nat
  log := []

/-- The views a daemon may go through. -/
abbrev Reached (v : View) : Prop := Relation.ReflTransGen Step init v

end View

end Poplar.Proxy
