import Poplar.Proxy.Fsm

/-!
# Requests of clients: apps/pop_http_proxy_request.c

The branch without `DNSPARSE_BLOCK`, which the makefile builds.
-/
namespace Poplar.Proxy

open Poplar.Domain Poplar.Http

/-- `pop_remote_server_peer_make` -/
def popRemoteServerPeerMake (host : HostPort) : Daemon Nat := do
  let p ← popPeerNew
  let addr := (inetAton host.ipAddr).getD 0
  store p fun peer => { peer with
    serviceType := .httpProxy
    tcpPeerType := .server
    tcpClientStatus := .idle
    remoteAddr := addr
    remoteHostip := addr
    remoteHostname := host.ipAddr
    remotePort := host.port }
  return p

/-- `stream_fifo_push(peer->write_fifo, s)` -/
def streamFifoPush (p : Nat) (bytes : List UInt8) (origin : Option Nat) : Daemon Unit := do
  store p fun peer => { peer with writeFifo := peer.writeFifo ++ [bytes] }
  note fun _ => .queued p bytes origin

/-- `stream_fifo_push(peer->write_fifo, stream_dup(origin->recv_buffer))` -/
def streamFifoPushDup (p origin : Nat) : Daemon Unit := do
  streamFifoPush p (← load origin).recvBuffer (some origin)

def popGetHostByNameUnblock (p : Nat) : Daemon Int := do
  let hostname := (← load p).remoteHostname
  let transID := (← get).domainTransID
  let (ret, next, _) ← call (getHostByNameUnblock transID (some hostname) (← ask).sendto)
  modify fun s => { s with domainTransID := next }
  if ret < 0 then return -1
  store p fun peer => { peer with dnsTransactionID := (next + 2 ^ 16 - 1) % 2 ^ 16 }
  dnsWaitAckQueueAdd p
  store p fun peer => { peer with tDnsWaitAck := true }
  return 0

/-- The part GET and CONNECT share from the comment `DomainParse Host` on. Only GET takes
an expired result out of the cache. -/
def domainParseHost (p : Nat) (dropExpired : Bool) : Daemon Int := do
  let peer ← load p
  if peer.remoteHostip ≠ 0 then
    popTcpClientEvent p .start
    return 0
  let currentTime := (← ask).time
  match dnsCacheLookupByHostname (← get).dnsCache peer.remoteHostname with
  | some result =>
    if currentTime ≤ result.validityEndTime then
      store p fun peer => { peer with remoteHostip := result.address, remoteAddr := result.address }
      modify fun s => { s with dnsCache := dnsCacheFreshnessUpdate s.dnsCache result }
      popTcpClientEvent p .start
      return 0
    if dropExpired then
      modify fun s => { s with dnsCache := dnsCacheDel s.dnsCache result }
    popGetHostByNameUnblock p
  | none => popGetHostByNameUnblock p

/-- The host a request names, if its first line can be read. -/
def requestHost (p : Nat) : Daemon (Option HostPort) := do
  let data := (received (← load p).recvBuffer).data
  match ← call (httpRequestStartLineParse data) with
  | none => return none
  | some sline => call (getHostIpPostFromURI sline.uri)

/-- The label `ERROR` -/
def requestError (client : Nat) : Daemon Int := do
  popTcpClosePairedPeer client
  return -1

def popHttpProxyRequestGet (client : Nat) : Daemon Int := do
  match ← requestHost client with
  | none => requestError client
  | some host =>
    let server ← popRemoteServerPeerMake host
    popPeersPaired server client
    streamFifoPushDup server client
    let bytes := (← load client).recvBuffer
    note fun _ => .requested client server bytes
    if (← domainParseHost server true) < 0 then requestError client else return 0

def HTTP_METHOD_CONNECT_ESTABLISHED : List UInt8 :=
  ascii "HTTP/1.0 200 Connection established\r\n\r\n"

def popHttpProxyRequestConnect (client : Nat) : Daemon Int := do
  match ← requestHost client with
  | none => requestError client
  | some host =>
    let server ← popRemoteServerPeerMake host
    popPeersPaired server client
    streamFifoPush client HTTP_METHOD_CONNECT_ESTABLISHED none
    store server fun peer => { peer with ifTunnel := true }
    if (← domainParseHost server false) < 0 then requestError client else return 0

/-- The callbacks of `POP_REQUEST_METHOD_CALLBACK`: HEAD, PUT and POST call the one of GET,
the others that are not CONNECT only print. -/
def requestCallback (client : Nat) : HttpMethod → Daemon Int
  | .get | .head | .put | .post => popHttpProxyRequestGet client
  | .connect => popHttpProxyRequestConnect client
  | .trace | .options | .delete | .lock | .mkcol | .copy | .move => return 0

/-- `peer->paired_peer && peer->paired_peer->tcp_client_status != Pop_Tcp_Client_Idle` -/
def partnerBusy (p : Nat) : Daemon Bool := do
  match (← load p).pairedPeer with
  | some q => return decide ((← load q).tcpClientStatus ≠ .idle)
  | none => return false

/-- `pop_http_proxy_request_event` -/
def popHttpProxyRequestEvent (p : Nat) : Daemon Int := do
  if ← partnerBusy p then
    streamFifoPushDup p p
    return 0
  match popHttpProxyMethodMatch (← load p).recvBuffer with
  | none =>
    streamFifoPushDup p p
    return 0
  | some method => requestCallback p method

end Poplar.Proxy
