import Poplar.Lib.Runs
import Poplar.Proxy.Request

/-!
# Reading and writing: apps/pop_network.c

The handlers of sockets, of the DNS client and of the timers, and the runs of the daemon.
-/
namespace Poplar.Proxy

open Poplar.Domain

/-- The loop of `_pop_http_proxy_tcp_write` with at most `n` streams to write; whether it
was left by an error. -/
def writeLoop (p : Nat) : Nat → Daemon Bool
  | 0 => return false
  | n + 1 => do
    let peer ← load p
    match peer.writeFifo with
    | [] => return false
    | stream :: rest =>
      let answer ← ask
      match if peer.sockfd < 0 then none else answer.write with
      | none =>
        if 0 ≤ peer.sockfd ∧ answer.retry then return false
        popTcpClosePairedPeer p
        return true
      | some num =>
        if num < stream.length then
          store p fun peer => { peer with
            writeFifo := stream.drop num :: rest, sent := peer.sent ++ stream.take num }
          return false
        store p fun peer => { peer with writeFifo := rest, sent := peer.sent ++ stream }
        writeLoop p n

/-- `_pop_http_proxy_tcp_write` -/
def popHttpProxyTcpWrite (p : Nat) : Daemon Unit := do
  if ← writeLoop p (← load p).writeFifo.length then return
  eventSet p .httpProxyTcpEpollEvent (decide ((← load p).writeFifo ≠ []))

/-- `pop_tcp_packet_transpond` with a copy of what `origin` read -/
def popTcpPacketTranspond (p origin : Nat) : Daemon Unit := do
  streamFifoPushDup p origin
  popHttpProxyTcpWrite p

def popHttpProxyMessageDeal (p : Nat) : Daemon Unit := do
  let peer ← load p
  if peer.serviceType = .httpProxy then
    match peer.tcpPeerType with
    | .client =>
      if ← popCheckWhetherMsgForward p then
        if let some q := peer.pairedPeer then popTcpPacketTranspond q p
      else let _ ← popHttpProxyRequestEvent p
    | .server =>
      if ← popCheckWhetherMsgForward p then
        if let some q := peer.pairedPeer then popTcpPacketTranspond q p
    | .unknown => return

def POP_PACKET_READ_TIMES : Nat := 10

/-- The loop of `pop_http_proxy_tcp_read`; whether `OUT` is reached. -/
def readLoop (p : Nat) : Nat → Daemon Bool
  | 0 => return true
  | n + 1 => do
    let answer ← ask
    let peer ← load p
    let bytes := if peer.sockfd < 0 then [] else answer.read.take MAX_RECV_PACKET_SIZE
    store p fun peer => { peer with recvBuffer := bytes }
    if bytes = [] then
      if 0 ≤ peer.sockfd ∧ answer.retry then return true
      popTcpClosePairedPeer p
      return false
    note fun s => .chunk p bytes (s.partnerOf p)
    popHttpProxyMessageDeal p
    readLoop p n

/-- `pop_http_proxy_tcp_read`; `write` tells whether the events listened for include
`EVENT_WRITE`. -/
def popHttpProxyTcpRead (p : Nat) (write : Bool) : Daemon Unit := do
  if ← readLoop p POP_PACKET_READ_TIMES then eventSet p .httpProxyTcpEpollEvent write

/-- `pop_http_proxy_tcp_epoll_event` for the events that happened -/
def popHttpProxyTcpEpollEvent (p : Nat) (listenWrite read write error : Bool) : Daemon Unit := do
  if read then popHttpProxyTcpRead p listenWrite
  if write then popHttpProxyTcpWrite p
  if error then popHttpProxyTcpRead p listenWrite

theorem popHttpProxyTcpEpollEvent_joined (p : Nat) (listenWrite read write error : Bool) :
    popHttpProxyTcpEpollEvent p listenWrite read write error = (do
      (if read then popHttpProxyTcpRead p listenWrite else return ())
      (if write then popHttpProxyTcpWrite p else return ())
      (if error then popHttpProxyTcpRead p listenWrite else return ())) := by
  cases read <;> cases write <;> cases error <;> rfl

/-- A readable or writable socket of a peer. -/
def socketEvent (p : Nat) (read write error : Bool) : Daemon Unit := do
  match (← load p).tEvent with
  | none => return
  | some watch =>
    store p fun peer => { peer with tEvent := some { watch with armed := false } }
    match watch.func with
    | .tcpClientConnectCheck => popTcpClientConnectCheck p
    | .httpProxyTcpEpollEvent => popHttpProxyTcpEpollEvent p watch.write read write error

/-- `pop_udp_recv_dns_query_ack` for the payload the DNS client's socket received -/
def popUdpRecvDnsQueryAck (payload : List UInt8) (fromAddr : Nat) (fromPort : Int) :
    Daemon Unit := do
  let peer ← load (← get).dnsClientPeer
  if fromAddr ≠ peer.remoteAddr ∨ some fromPort ≠ peer.remotePort then return
  let time := (← ask).time
  match ← call (domainNameIpv4Addr (received (payload.take MAX_RECV_PACKET_SIZE)) time) with
  | none => return
  | some result =>
    match dnsWaitAckQueueLookupByID (← get).dnsAckWaitQueue result.transactionID with
    | none => return
    | some server =>
      note fun s => .answered server result.address (s.pairedOf server)
      dnsWaitAckQueueDel server
      store server fun peer => { peer with tDnsWaitAck := false }
      if result.address = 0 then return
      store server fun peer => { peer with
        remoteAddr := result.address, remoteHostip := result.address }
      popTcpClientEvent server .start
      let cache := (← get).dnsCache
      if (dnsCacheLookupByHostname cache result.hostName).isSome then
        modify fun s => { s with dnsCache := dnsCacheExtend s.dnsCache result }
      else
        modify fun s => { s with
          dnsCache := dnsCacheAdd (dnsCacheCheckAndDelete s.dnsCache) result }

/-- `DnsWaitAckTimeoutCall` -/
def dnsWaitAckTimeoutCall (p : Nat) : Daemon Unit := do
  store p fun peer => { peer with tDnsWaitAck := false }
  dnsWaitAckQueueDel p
  popTcpClosePairedPeer p

/-- What the event engine may dispatch. -/
inductive Dispatch where
  | accept (clients : List (Nat × Nat × Int)) (broken : Bool)
  | socket (p : Nat) (read write error : Bool)
  | connectExpired (p : Nat)
  | dnsWaitAckTimeout (p : Nat)
  | infoDeal (p : Nat)
  | datagram (payload : List UInt8) (fromAddr : Nat) (fromPort : Int)
  | cacheCheck
  deriving DecidableEq, Repr

def dispatch : Dispatch → Daemon Unit
  | .accept clients broken => popHttpProxyTcpServerAccept clients broken
  | .socket p read write error => socketEvent p read write error
  | .connectExpired p => popTcpClientConnectExpired p
  | .dnsWaitAckTimeout p => dnsWaitAckTimeoutCall p
  | .infoDeal p => do
    match (← load p).tInfoDeal with
    | some .tcpClientEvent => popTcpClientEventDeal p
    | some .tcpServerEvent => popTcpServerEventDeal p
    | none => return
  | .datagram payload fromAddr fromPort => popUdpRecvDnsQueryAck payload fromAddr fromPort
  | .cacheCheck => do
    let time := (← ask).time
    modify fun s => { s with dnsCache := dnsCacheValidityCheck s.dnsCache time }

/-- What is armed. -/
def Popd.enabled (s : Popd) : Dispatch → Bool
  | .accept _ _ => true
  | .socket p _ _ _ => (((s.peers p).bind fun peer => peer.tEvent).map Watch.armed).getD false
  | .connectExpired p => ((s.peers p).map fun peer => peer.tConnectingTimer).getD false
  | .dnsWaitAckTimeout p => ((s.peers p).map fun peer => peer.tDnsWaitAck).getD false
  | .infoDeal p => ((s.peers p).bind fun peer => peer.tInfoDeal).isSome
  | .datagram _ _ _ => true
  | .cacheCheck => true

/-- 114.114.114.114 -/
def DNS_SERVER_ADDRESS : Nat := 0x72727272

/-- `pop_domain_parse_peer_init`, whose peer is the first of all. -/
def dnsClient (sockfd : Nat) : Peer where
  serviceType := .dnsClient
  tcpPeerType := .server
  sockfd := sockfd
  remoteAddr := DNS_SERVER_ADDRESS
  remoteHostip := DNS_SERVER_ADDRESS
  remotePort := some 53

/-- `pop_init` -/
def popInit (sockfd : Nat) (answers : Nat → Answer) : Popd where
  peers := Function.update (fun _ => none) 0 (some (dnsClient sockfd))
  next := 1
  fresh := first_fresh _
  pairedPeerTcpList := []
  dnsClientPeer := 0
  dnsAckWaitQueue := hashCreate Nat
  dnsCache := []
  domainTransID := 0
  answers := answers
  calls := 0
  log := []

/-- The daemon under any order of events and any answers of the operating system. -/
def system : Runs.System Popd Dispatch Fault where
  start s := ∃ sockfd answers, s = popInit sockfd answers
  guard s event := s.enabled event = true
  exec event s := (dispatch event s).map Prod.snd

theorem exec_runs {event : Dispatch} {s s' : Popd} (executes : system.exec event s = .ok s') :
    ∃ u, dispatch event s = .ok (u, s') := by
  cases ran : dispatch event s with
  | error fault => simp [system, ran, Except.map] at executes
  | ok result =>
      simp only [system, ran, Except.map, Except.ok.injEq] at executes
      exact ⟨result.1, executes ▸ rfl⟩

/-- The run that handles `events`, where the operating system answers the call with number
`n` as `answers n` says. -/
def replay (answers : Nat → Answer) (events : List Dispatch) : Option Popd :=
  system.replay (fun s event => s.enabled event) id events (popInit 3 answers)

theorem replay_reachable {answers : Nat → Answer} {events : List Dispatch} {s : Popd}
    (ran : replay answers events = some s) : system.Reachable s :=
  Runs.System.Reachable.replay (fun _ _ admitted => admitted) (.start ⟨3, answers, rfl⟩) ran

end Poplar.Proxy
