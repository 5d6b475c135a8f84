import Poplar.Proxy.Peer

/-!
# The connections of a peer: apps/pop_tcp_fsm.c and pop_tcp_close_paired_peer
-/
namespace Poplar.Proxy

/-- `if(peer->sockfd > 0) close(peer->sockfd)` -/
def closeSockfd (p : Nat) : Daemon Unit :=
  store p fun peer => if 0 < peer.sockfd then { peer with sockfd := -1 } else peer

/-- `pop_tcp_client_connect` -/
def popTcpClientConnect (p : Nat) : Daemon ConnectResult := do
  closeSockfd p
  match (← ask).socket with
  | none =>
    store p fun peer => { peer with sockfd := -1 }
    return .error
  | some fd =>
    store p fun peer => { peer with sockfd := fd }
    return (← ask).connect

def popTcpClientStart (p : Nat) : Daemon Int := do
  match ← popTcpClientConnect p with
  | .error =>
    closeSockfd p
    note fun s => .connectFailed p (s.pairedOf p)
    popTcpClientEventAdd p .connectionError
    note fun s => .teardown p (s.serviceOf p)
    return -1
  | _ =>
    eventSet p .tcpClientConnectCheck true
    store p fun peer => { peer with tConnectingTimer := true }
    return 0

def popTcpClientEstablish (p : Nat) : Daemon Int := do
  store p fun peer => { peer with tConnectingTimer := false }
  modify fun s => { s with pairedPeerTcpList := s.pairedPeerTcpList ++ [p] }
  popTcpClientEventAdd p .connectionSuccess
  eventSet p .httpProxyTcpEpollEvent false
  return 0

/-- The body `pop_tcp_client_stop` and `pop_tcp_client_error` share, up to the message
they leave. -/
def popTcpClientLeave (p : Nat) (info : TcpClientInfo) : Daemon Int := do
  store p fun peer => { peer with tHoldtime := false, tConnectingTimer := false, tEvent := none }
  popTcpCanclePaired p
  store p fun peer => { peer with
    sockfd := if peer.sockfd ≠ 0 then -1 else peer.sockfd
    tcpClientInfoList := []
    tcpServerInfoList := []
    recvBuffer := [] }
  popTcpClientEventAdd p info
  note fun s => .teardown p (s.serviceOf p)
  return 0

def popTcpClientStop (p : Nat) : Daemon Int := popTcpClientLeave p .connectionBreak

def popTcpClientError (p : Nat) : Daemon Int := popTcpClientLeave p .connectionError

inductive TcpClientEvent where
  | start | stop | conectionSuccess | conectionError | holdtimerExpired
  deriving DecidableEq, Repr

/-- `POP_TCP_CLIENT_FSM` -/
def popTcpClientFsm (p : Nat) : TcpClientStatus → TcpClientEvent → Daemon Int × TcpClientStatus
  | .idle, .start => (popTcpClientStart p, .connect)
  | .idle, .stop => (popTcpClientStop p, .idle)
  | .idle, .conectionSuccess => (return 0, .idle)
  | .idle, .conectionError => (popTcpClientError p, .idle)
  | .idle, .holdtimerExpired => (return 0, .idle)
  | .connect, .start => (return 0, .connect)
  | .connect, .stop => (popTcpClientStop p, .idle)
  | .connect, .conectionSuccess => (popTcpClientEstablish p, .establish)
  | .connect, .conectionError => (popTcpClientError p, .idle)
  | .connect, .holdtimerExpired => (return 0, .idle)
  | .establish, .start => (return 0, .establish)
  | .establish, .stop => (popTcpClientStop p, .idle)
  | .establish, .conectionSuccess => (return 0, .establish)
  | .establish, .conectionError => (popTcpClientError p, .idle)
  | .establish, .holdtimerExpired => (popTcpClientStop p, .idle)

def popTcpClientEvent (p : Nat) (event : TcpClientEvent) : Daemon Unit := do
  let (func, next) := popTcpClientFsm p (← load p).tcpClientStatus event
  let ret ← func
  if 0 ≤ ret then store p fun peer => { peer with tcpClientStatus := next }

/-- `_pop_tcp_server_close` -/
def popTcpServerClose (p : Nat) : Daemon Unit := do
  store p fun peer => { peer with
    tHoldtime := false, tEvent := none, tConnectingTimer := false, tDnsWaitAck := false
    tInfoDeal := none, tcpServerStatus := .idle }
  popTcpCanclePaired p
  store p fun peer => { peer with
    sockfd := if 0 < peer.sockfd then -1 else peer.sockfd
    tcpClientInfoList := []
    tcpServerInfoList := []
    recvBuffer := [] }
  popTcpServerEventAdd p .break'
  note fun s => .teardown p (s.serviceOf p)

/-- What `pop_tcp_close_paired_peer` does to each of the two. -/
def popTcpClosePeer (p : Nat) : Daemon Unit := do
  if (← load p).tcpPeerType = .server then popTcpClientEvent p .stop
  else popTcpServerClose p

def popTcpClosePairedPeer (p : Nat) : Daemon Unit := do
  match (← load p).pairedPeer with
  | some q =>
    popTcpClosePeer q
    popTcpClosePeer p
  | none => popTcpClosePeer p

/-- `pop_tcp_client_connect_check` -/
def popTcpClientConnectCheck (p : Nat) : Daemon Unit := do
  if (← ask).soError then popTcpClosePairedPeer p
  else popTcpClientEvent p .conectionSuccess

/-- `pop_tcp_client_connect_expired` -/
def popTcpClientConnectExpired (p : Nat) : Daemon Unit := do
  store p fun peer => { peer with tConnectingTimer := false }
  popTcpClosePairedPeer p

/-- `pop_http_proxy_server_peer_connect` -/
def popHttpProxyServerPeerConnect (sock addr : Nat) (port : Int) : Daemon Unit := do
  let p ← popPeerNew
  store p fun peer => { peer with
    sockfd := sock
    remoteHostip := addr
    remotePort := some port
    remoteAddr := addr
    serviceType := .httpProxy
    tcpPeerType := .client
    tcpServerStatus := .established }
  eventSet p .httpProxyTcpEpollEvent false
  modify fun s => { s with pairedPeerTcpList := s.pairedPeerTcpList ++ [p] }
  popTcpServerEventAdd p .accept

/-- `pop_http_proxy_tcp_server_accept` with the connections it accepts, and whether the
`accept` behind them fails for good. It then cancels the event it was called with, a copy on
the stack of `main`: the ready nodes are lost and the copy is a free node, which the next
event gets while `main` fetches into it (`EventCtl.cancelling_the_copy`). What is armed from there
on does not follow from what was set, and the run ends. -/
def popHttpProxyTcpServerAccept (clients : List (Nat × Nat × Int)) (broken : Bool) :
    Daemon Unit := do
  match clients with
  | [] => if broken then throw .strayNode
  | (sock, addr, port) :: clients =>
    popHttpProxyServerPeerConnect sock addr port
    popHttpProxyTcpServerAccept clients broken

end Poplar.Proxy
