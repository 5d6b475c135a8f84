import Poplar.Common.Hash
import Poplar.Domain.Cache
import Poplar.Http.Header

/-!
# Peers and the daemon: apps/pop_paired_peer.h, apps/popd.h

Peers are objects on the heap: one that was freed is gone, and an access to it is a
fault. The operating system is a sequence of answers, one for each call. The event
engine is taken at its interface: a timer or descriptor that is armed may fire, one
that was cancelled does not.
-/
namespace Poplar.Proxy

open Poplar.Domain

inductive TcpPeerType where
  | unknown | server | client
  deriving DecidableEq, Repr

inductive ServiceType where
  | unknown | httpProxy | sock5 | dnsClient
  deriving DecidableEq, Repr

inductive TcpClientStatus where
  | idle | connect | establish
  deriving DecidableEq, Repr

inductive TcpServerStatus where
  | idle | established
  deriving DecidableEq, Repr

inductive TcpClientInfo where
  | connectionSuccess | connectionError | connectionBreak
  deriving DecidableEq, Repr

inductive TcpServerInfo where
  | accept | break' | error
  deriving DecidableEq, Repr

/-- The functions `t_info_deal` is set with. -/
inductive InfoDeal where
  | tcpClientEvent | tcpServerEvent
  deriving DecidableEq, Repr

/-- The functions `t_event` is set with. -/
inductive EventFunc where
  | tcpClientConnectCheck | httpProxyTcpEpollEvent
  deriving DecidableEq, Repr

/-- A descriptor watched with `EVENT_ONESHOT`: `armed` until it fires. -/
structure Watch where
  func : EventFunc
  write : Bool
  fd : Int
  armed : Bool
  deriving DecidableEq, Repr

/-- The fields of a peer that decide about its pair and its end. -/
structure Actor where
  serviceType : ServiceType := .unknown
  tcpPeerType : TcpPeerType := .unknown
  tcpClientStatus : TcpClientStatus := .idle
  tcpClientInfoList : List TcpClientInfo := []
  tcpServerInfoList : List TcpServerInfo := []
  tInfoDeal : Option InfoDeal := none
  pairedPeer : Option Nat := none
  dnsTransactionID : Nat := 0
  tDnsWaitAck : Bool := false
  deriving DecidableEq, Repr

/-- `recvBuffer` is the bytes last read, an entry of `writeFifo` those not yet written. Those
that `write` took are remembered in `sent`, which is no field of the code. -/
structure Peer extends Actor where
  sockfd : Int := -1
  remoteAddr : Nat := 0
  remotePort : Option Int := none
  remoteHostname : List UInt8 := []
  remoteHostip : Nat := 0
  tcpServerStatus : TcpServerStatus := .idle
  tEvent : Option Watch := none
  tConnectingTimer : Bool := false
  tHoldtime : Bool := false
  recvBuffer : List UInt8 := []
  writeFifo : List (List UInt8) := []
  ifTunnel : Bool := false
  sent : List UInt8 := []
  deriving DecidableEq, Repr

inductive ConnectResult where
  | error | success | inProgress
  deriving DecidableEq, Repr

/-- What the operating system may answer; a call looks at the fields that are its own.
`retry` tells whether `errno` is one of `ERRNO_IO_RETRY`. -/
structure Answer where
  socket : Option Nat := some 9
  epollCtl : Bool := true
  connect : ConnectResult := .inProgress
  soError : Bool := false
  read : List UInt8 := []
  write : Option Nat := none
  retry : Bool := true
  sendto : Bool := true
  time : Nat := 0

/-- What is remembered of the calls made, with the state they found. -/
inductive Call where
  /-- bytes were read from a peer; its partner then, with type and status -/
  | chunk (p : Nat) (bytes : List UInt8)
      (partner : Option (Nat × TcpPeerType × TcpClientStatus))
  /-- bytes were pushed on the `write_fifo` of `p`, read from `origin` if not made here -/
  | queued (p : Nat) (bytes : List UInt8) (origin : Option Nat)
  /-- a request other than CONNECT created a server peer -/
  | requested (client server : Nat) (bytes : List UInt8)
  /-- `pop_peers_paired`, with the partners both had -/
  | paired (p1 p2 : Nat) (before1 before2 : Option Nat)
  /-- the end of a peer of this service is asked for -/
  | teardown (p : Nat) (service : Option ServiceType)
  /-- an info handler runs; the side of the peer, and whether it is listed -/
  | infoRun (p : Nat) (side : Option TcpPeerType) (listed : Bool)
  | deleted (p : Nat)
  /-- `pop_tcp_client_start` reports `CONNECT_ERROR` for a peer with this partner -/
  | connectFailed (p : Nat) (partner : Option Nat)
  /-- `DnsWaitAckQueueAdd`, with the peer that holds the identifier already -/
  | waitAdded (p : Nat) (holder : Option Nat)
  /-- `DnsWaitAckQueueDel`, with the peer it releases and that peer's partner -/
  | waitDropped (p : Nat) (victim : Option (Nat × Option Nat))
  /-- an answer with this address reached a waiting peer with this partner -/
  | answered (p : Nat) (address : Nat) (partner : Option Nat)
  deriving DecidableEq, Repr

/-- The daemon. Identifiers of peers are not used again; `log` has the newest call first. -/
structure Popd where
  peers : Nat → Option Peer
  next : Nat
  fresh : ∀ p, next ≤ p → peers p = none
  pairedPeerTcpList : List Nat
  dnsClientPeer : Nat
  dnsAckWaitQueue : Hash Nat
  dnsCache : DnsCache
  domainTransID : Nat
  answers : Nat → Answer
  calls : Nat
  log : List Call

abbrev Daemon := StateT Popd (Except Fault)

/-- `peer->…` on the right of an assignment -/
def load (p : Nat) : Daemon Peer := fun s =>
  match s.peers p with
  | some peer => .ok (peer, s)
  | none => .error .useAfterFree

/-- Where only the first place is taken, the others are free. -/
theorem first_fresh {α : Type} (a : α) (p : Nat) (outside : 1 ≤ p) :
    Function.update (fun _ => none) 0 (some a) p = none := by
  rw [Function.update_of_ne (by omega)]

theorem Popd.inside (s : Popd) {p : Nat} {peer : Peer} (found : s.peers p = some peer) :
    p < s.next := by
  by_contra outside
  rw [s.fresh p (Nat.not_lt.mp outside)] at found
  cases found

def Popd.put (s : Popd) (p : Nat) (peer : Option Peer) (inside : p < s.next) : Popd :=
  { s with
    peers := Function.update s.peers p peer
    fresh := fun q outside => by rw [Function.update_of_ne (by omega), s.fresh q outside] }

/-- `peer->… = …` -/
def store (p : Nat) (f : Peer → Peer) : Daemon Unit := fun s =>
  match found : s.peers p with
  | some peer => .ok ((), s.put p (some (f peer)) (s.inside found))
  | none => .error .useAfterFree

/-- `XFREE(MTYPE_PEER, peer)` -/
def free (p : Nat) : Daemon Unit := fun s =>
  match found : s.peers p with
  | some _ => .ok ((), s.put p none (s.inside found))
  | none => .error .useAfterFree

def note (call : Popd → Call) : Daemon Unit :=
  modify fun s => { s with log := call s :: s.log }

/-- The next answer of the operating system. -/
def ask : Daemon Answer := fun s => .ok (s.answers s.calls, { s with calls := s.calls + 1 })

/-- A function of the libraries, which keeps no state. -/
def call {α : Type} (result : Except Fault α) : Daemon α := fun s => result.map fun a => (a, s)

end Poplar.Proxy
