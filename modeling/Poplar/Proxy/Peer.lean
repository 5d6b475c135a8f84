import Poplar.Proxy.Types

/-!
# Pairs, deletion and the wait queue

apps/pop_paired_peer.c, the queue of apps/pop_domain_parse.c and the messages of
apps/pop_transaction.c.
-/
namespace Poplar.Proxy

open Poplar.Domain

def popPeerNew : Daemon Nat := fun s =>
  .ok (s.next, { s with
    peers := Function.update s.peers s.next (some {})
    next := s.next + 1
    fresh := fun q outside => by rw [Function.update_of_ne (by omega), s.fresh q (by omega)] })

def Popd.partnerOf (s : Popd) (p : Nat) : Option (Nat × TcpPeerType × TcpClientStatus) := do
  let peer ← s.peers p
  let q ← peer.pairedPeer
  let paired ← s.peers q
  return (q, paired.tcpPeerType, paired.tcpClientStatus)

def Popd.pairedOf (s : Popd) (p : Nat) : Option Nat := do (← s.peers p).pairedPeer

def Popd.typeOf (s : Popd) (p : Nat) : Option TcpPeerType :=
  (s.peers p).map fun peer => peer.tcpPeerType

def Popd.serviceOf (s : Popd) (p : Nat) : Option ServiceType :=
  (s.peers p).map fun peer => peer.serviceType

def popCheckWhetherMsgForward (p : Nat) : Daemon Bool := do
  let peer ← load p
  match peer.pairedPeer with
  | none => return false
  | some q =>
    let paired ← load q
    if peer.tcpPeerType = .client ∧ paired.tcpPeerType = .server ∧
        paired.tcpClientStatus = .establish then return true
    if peer.tcpPeerType = .server ∧ paired.tcpPeerType = .client ∧
        paired.tcpServerStatus = .established then return true
    return false

def popPeersPaired (p1 p2 : Nat) : Daemon Unit := do
  note fun s => .paired p1 p2 (s.pairedOf p1) (s.pairedOf p2)
  store p1 fun peer => { peer with pairedPeer := some p2 }
  store p2 fun peer => { peer with pairedPeer := some p1 }

def popTcpCanclePaired (p : Nat) : Daemon Unit := do
  match (← load p).pairedPeer with
  | some q =>
    store q fun paired => { paired with pairedPeer := none }
    store p fun peer => { peer with pairedPeer := none }
  | none => store p fun peer => { peer with pairedPeer := none }

/-- `EVENT_SET(peer->t_event, …, peer->sockfd)` -/
def eventSet (p : Nat) (func : EventFunc) (write : Bool) : Daemon Unit := do
  let peer ← load p
  match peer.tEvent with
  | some watch =>
    -- `EPOLL_EVENT_MOD` aborts unless the descriptor is registered with this node
    if watch.fd = peer.sockfd then
      store p fun peer => { peer with tEvent := some ⟨func, write, peer.sockfd, true⟩ }
    else throw .assertFail
  | none =>
    if 0 ≤ peer.sockfd ∧ (← ask).epollCtl then
      store p fun peer => { peer with tEvent := some ⟨func, write, peer.sockfd, true⟩ }

/-- `DnsWaitAckQueueKey` and `DnsWaitAckQueueCmp` -/
def Popd.waitFuncs (s : Popd) : HashFuncs Nat Nat where
  deref p := ((s.peers p).map fun peer => peer.dnsTransactionID).getD 0
  hashKey id := id
  hashCmp id1 id2 := id1 == id2

def dnsWaitAckQueueAdd (p : Nat) : Daemon Unit := do
  let id := (← load p).dnsTransactionID
  note fun s => .waitAdded p (hashLookup s.waitFuncs s.dnsAckWaitQueue id)
  modify fun s => { s with
    dnsAckWaitQueue := (hashGet s.waitFuncs s.dnsAckWaitQueue id (some p)).2 }

def dnsWaitAckQueueDel (p : Nat) : Daemon Unit := do
  let id := (← load p).dnsTransactionID
  note fun s => .waitDropped p
    ((hashRelease s.waitFuncs s.dnsAckWaitQueue id).1.map fun q => (q, s.pairedOf q))
  modify fun s => { s with
    dnsAckWaitQueue := (hashRelease s.waitFuncs s.dnsAckWaitQueue id).2 }

def dnsWaitAckQueueLookupByID (queue : Hash Nat) (transactionID : Nat) : Option Nat :=
  ((queue.index (transactionID % queue.size)).find? fun backet =>
    backet.key == transactionID).map HashBacket.data

def popPeerDelete (p : Nat) : Daemon Unit := do
  note fun _ => .deleted p
  store p fun peer => { peer with
    tHoldtime := false, tEvent := none, tInfoDeal := none, tConnectingTimer := false
    tDnsWaitAck := false }
  popTcpCanclePaired p
  modify fun s => { s with pairedPeerTcpList := s.pairedPeerTcpList.erase p }
  dnsWaitAckQueueDel p
  free p

/-- `listnode_add(peer->tcp_client_info_list, …)` and `TIMER_ON(peer->t_info_deal, …)` -/
def popTcpClientEventAdd (p : Nat) (info : TcpClientInfo) : Daemon Unit :=
  store p fun peer => { peer with
    tcpClientInfoList := peer.tcpClientInfoList ++ [info]
    tInfoDeal := peer.tInfoDeal.or (some .tcpClientEvent) }

def popTcpServerEventAdd (p : Nat) (info : TcpServerInfo) : Daemon Unit :=
  store p fun peer => { peer with
    tcpServerInfoList := peer.tcpServerInfoList ++ [info]
    tInfoDeal := peer.tInfoDeal.or (some .tcpServerEvent) }

def popTcpClientEventHttpProxyCall (p : Nat) : TcpClientInfo → Daemon Unit
  | .connectionSuccess => do
    let peer ← load p
    if peer.ifTunnel then
      if let some q := peer.pairedPeer then
        let paired ← load q
        if paired.writeFifo ≠ [] then eventSet q .httpProxyTcpEpollEvent true
    else if peer.writeFifo ≠ [] then eventSet p .httpProxyTcpEpollEvent true
  | .connectionError => popPeerDelete p
  | .connectionBreak => popPeerDelete p

def popTcpServerEventHttpProxyCall (p : Nat) : TcpServerInfo → Daemon Unit
  | .accept => return
  | .break' => popPeerDelete p
  | .error => popPeerDelete p

/-- The calls of the other service types do nothing. -/
def eventCall (p : Nat) (httpProxyCall : Daemon Unit) : Daemon Unit := do
  if (← load p).serviceType = .httpProxy then httpProxyCall

def popTcpClientEventCall (p : Nat) (info : TcpClientInfo) : Daemon Unit :=
  eventCall p (popTcpClientEventHttpProxyCall p info)

def popTcpServerEventCall (p : Nat) (info : TcpServerInfo) : Daemon Unit :=
  eventCall p (popTcpServerEventHttpProxyCall p info)

/-- `listnode_lookup(popd->http_proxy_conf.paired_peer_tcp_list, peer)` -/
def listed (p : Nat) : Daemon Bool := return decide (p ∈ (← get).pairedPeerTcpList)

section EventDeal

variable {ι : Type} (p : Nat) (infos : Peer → List ι) (setInfos : List ι → Peer → Peer)
  (call : ι → Daemon Unit) (deal : InfoDeal)

/-- The loop both info handlers have, with `n` turns left, and what follows it. -/
def infoLoop : Nat → Daemon Unit
  | 0 => do
    if infos (← load p) ≠ [] then
      store p fun peer => { peer with tInfoDeal := peer.tInfoDeal.or (some deal) }
  | n + 1 => do
    if ← listed p then
      match infos (← load p) with
      | [] => return
      | info :: rest =>
        store p (setInfos rest)
        call info
        infoLoop n

def POP_TRANSINFO_EXECUTE_COUNT : Nat := 5

def eventDeal : Daemon Unit := do
  note fun s => .infoRun p (s.typeOf p) (decide (p ∈ s.pairedPeerTcpList))
  store p fun peer => { peer with tInfoDeal := none }
  infoLoop p infos setInfos call deal POP_TRANSINFO_EXECUTE_COUNT

end EventDeal

def popTcpClientEventDeal (p : Nat) : Daemon Unit :=
  eventDeal p (fun peer => peer.tcpClientInfoList)
    (fun rest peer => { peer with tcpClientInfoList := rest }) (popTcpClientEventCall p)
    .tcpClientEvent

def popTcpServerEventDeal (p : Nat) : Daemon Unit :=
  eventDeal p (fun peer => peer.tcpServerInfoList)
    (fun rest peer => { peer with tcpServerInfoList := rest }) (popTcpServerEventCall p)
    .tcpServerEvent

end Poplar.Proxy
