import Poplar.Lib.Traces
import Poplar.Proxy.Frames

/-!
# What a dispatch does with the descriptor of one peer

The handlers of apps/pop_network.c and apps/pop_http_proxy_request.c once more, with a
trace of the reads, writes, event registrations and teardowns of one peer. Without the
trace they are the handlers.
-/
namespace Poplar.Proxy

open Effects Traces Poplar.Domain Poplar.Http

inductive Act where
  | read | write | register | teardown
  deriving DecidableEq, Repr

abbrev Tracing (α : Type) := Traced Act Popd Fault α

namespace Tracing

-- the peer whose acts are traced
variable (subject : Nat)

def actOn (p : Nat) (a : Act) : Tracing Unit :=
  if p = subject then act a else return ()

/-- One call is one teardown of the peer it reaches and of that peer's partner. -/
def popTcpClosePairedPeer (p : Nat) : Tracing Unit := do
  let peer ← load p
  if p = subject ∨ peer.pairedPeer = some subject then act .teardown
  Proxy.popTcpClosePairedPeer p

def writeLoop (p : Nat) : Nat → Tracing Bool
  | 0 => return false
  | n + 1 => do
    let peer ← load p
    match peer.writeFifo with
    | [] => return false
    | stream :: rest =>
      actOn subject p .write
      let answer ← ask
      match if peer.sockfd < 0 then none else answer.write with
      | none =>
        if 0 ≤ peer.sockfd ∧ answer.retry then return false
        popTcpClosePairedPeer subject p
        return true
      | some num =>
        if num < stream.length then
          store p fun peer => { peer with
            writeFifo := stream.drop num :: rest, sent := peer.sent ++ stream.take num }
          return false
        store p fun peer => { peer with writeFifo := rest, sent := peer.sent ++ stream }
        writeLoop p n

def popHttpProxyTcpWrite (p : Nat) : Tracing Unit := do
  let peer ← load p
  if ← writeLoop subject p peer.writeFifo.length then return ()
  actOn subject p .register
  let peer ← load p
  eventSet p .httpProxyTcpEpollEvent (decide (peer.writeFifo ≠ []))

def popTcpPacketTranspond (p origin : Nat) : Tracing Unit := do
  streamFifoPushDup p origin
  popHttpProxyTcpWrite subject p

/-- The label `ERROR` -/
def requestError (client : Nat) : Tracing Int := do
  popTcpClosePairedPeer subject client
  return -1

def popHttpProxyRequestGet (client : Nat) : Tracing Int := do
  match ← requestHost client with
  | none => requestError subject client
  | some host =>
    let server ← popRemoteServerPeerMake host
    popPeersPaired server client
    streamFifoPushDup server client
    let peer ← load client
    note fun _ => .requested client server peer.recvBuffer
    let ret ← domainParseHost server true
    if ret < 0 then requestError subject client else return 0

def popHttpProxyRequestConnect (client : Nat) : Tracing Int := do
  match ← requestHost client with
  | none => requestError subject client
  | some host =>
    let server ← popRemoteServerPeerMake host
    popPeersPaired server client
    streamFifoPush client HTTP_METHOD_CONNECT_ESTABLISHED none
    store server fun peer => { peer with ifTunnel := true }
    let ret ← domainParseHost server false
    if ret < 0 then requestError subject client else return 0

def requestCallback (client : Nat) : HttpMethod → Tracing Int
  | .get | .head | .put | .post => popHttpProxyRequestGet subject client
  | .connect => popHttpProxyRequestConnect subject client
  | .trace | .options | .delete | .lock | .mkcol | .copy | .move => return 0

def popHttpProxyRequestEvent (p : Nat) : Tracing Int := do
  if ← partnerBusy p then
    streamFifoPushDup p p
    return 0
  let peer ← load p
  match popHttpProxyMethodMatch peer.recvBuffer with
  | none =>
    streamFifoPushDup p p
    return 0
  | some method => requestCallback subject p method

def popHttpProxyMessageDeal (p : Nat) : Tracing Unit := do
  let peer ← load p
  if peer.serviceType = .httpProxy then
    match peer.tcpPeerType with
    | .client =>
      if ← popCheckWhetherMsgForward p then
        match peer.pairedPeer with
        | some q => popTcpPacketTranspond subject q p
        | none => return ()
      else
        let _ ← popHttpProxyRequestEvent subject p
        return ()
    | .server =>
      if ← popCheckWhetherMsgForward p then
        match peer.pairedPeer with
        | some q => popTcpPacketTranspond subject q p
        | none => return ()
    | .unknown => return ()

def readLoop (p : Nat) : Nat → Tracing Bool
  | 0 => return true
  | n + 1 => do
    actOn subject p .read
    let answer ← ask
    let peer ← load p
    let bytes := if peer.sockfd < 0 then [] else answer.read.take MAX_RECV_PACKET_SIZE
    store p fun peer => { peer with recvBuffer := bytes }
    if bytes = [] then
      if 0 ≤ peer.sockfd ∧ answer.retry then return true
      popTcpClosePairedPeer subject p
      return false
    note fun s => .chunk p bytes (s.partnerOf p)
    popHttpProxyMessageDeal subject p
    readLoop p n

def popHttpProxyTcpRead (p : Nat) (write : Bool) : Tracing Unit := do
  if ← readLoop subject p POP_PACKET_READ_TIMES then
    actOn subject p .register
    eventSet p .httpProxyTcpEpollEvent write

def popHttpProxyTcpEpollEvent (p : Nat) (listenWrite read write error : Bool) : Tracing Unit := do
  (if read then popHttpProxyTcpRead subject p listenWrite else return ())
  (if write then popHttpProxyTcpWrite subject p else return ())
  (if error then popHttpProxyTcpRead subject p listenWrite else return ())

end Tracing

section Erasure

variable {α : Type} {subject : Nat} {x : Tracing α} {y : Daemon α} (p : Nat)

theorem erases_acts (q : Nat) (a : Act) (rest : Erases x y) :
    Erases (Tracing.actOn subject q a >>= fun _ => x) y := by
  unfold Tracing.actOn
  split
  · exact Erases.acts a rest
  · exact Erases.bind (Erases.pure ()) fun _ => rest

/-- Reading a peer first changes nothing: the function does so itself. -/
theorem popTcpClosePairedPeer_loads :
    popTcpClosePairedPeer p = load p >>= fun _ => popTcpClosePairedPeer p := by
  funext s
  cases found : s.peers p with
  | none =>
      simp only [popTcpClosePairedPeer, Bind.bind, StateT.bind, load_gone found, Except.bind]
  | some peer =>
      exact (bind_runs (f := fun _ => popTcpClosePairedPeer p) (load_found found)).symm

theorem popTcpClosePairedPeer_erases :
    Erases (Tracing.popTcpClosePairedPeer subject p) (popTcpClosePairedPeer p) := by
  rw [popTcpClosePairedPeer_loads]
  apply Erases.bind (Erases.lift (load p))
  intro peer
  dsimp only
  split
  · exact Erases.acts Act.teardown (Erases.lift (popTcpClosePairedPeer p))
  · exact Erases.lift (popTcpClosePairedPeer p)

theorem writeLoop_erases (n : Nat) :
    Erases (Tracing.writeLoop subject p n) (writeLoop p n) := by
  induction n with
  | zero => exact Erases.pure false
  | succ n ih =>
      unfold Tracing.writeLoop writeLoop
      apply Erases.bind (Erases.lift (load p))
      intro peer
      cases peer.writeFifo with
      | nil => exact Erases.pure false
      | cons stream rest =>
          apply erases_acts
          apply Erases.bind (Erases.lift ask)
          intro answer
          cases if peer.sockfd < 0 then none else answer.write with
          | none =>
              apply Erases.ite (Erases.pure false)
              apply Erases.bind (popTcpClosePairedPeer_erases p)
              intro _
              exact Erases.pure true
          | some num =>
              apply Erases.ite
              · apply Erases.bind (Erases.lift _)
                intro _
                exact Erases.pure false
              · apply Erases.bind (Erases.lift _)
                intro _
                exact ih

theorem popHttpProxyTcpWrite_erases :
    Erases (Tracing.popHttpProxyTcpWrite subject p) (popHttpProxyTcpWrite p) := by
  unfold Tracing.popHttpProxyTcpWrite popHttpProxyTcpWrite
  apply Erases.bind (Erases.lift (load p))
  intro peer
  apply Erases.bind (writeLoop_erases p peer.writeFifo.length)
  intro broken
  apply Erases.ite (Erases.pure ())
  apply erases_acts
  apply Erases.bind (Erases.lift (load p))
  intro peer
  exact Erases.lift _

theorem popTcpPacketTranspond_erases (origin : Nat) :
    Erases (Tracing.popTcpPacketTranspond subject p origin) (popTcpPacketTranspond p origin) := by
  apply Erases.bind (Erases.lift (streamFifoPushDup p origin))
  intro _
  exact popHttpProxyTcpWrite_erases p

theorem requestError_erases : Erases (Tracing.requestError subject p) (requestError p) := by
  apply Erases.bind (popTcpClosePairedPeer_erases p)
  intro _
  exact Erases.pure (-1)

theorem popHttpProxyRequestGet_erases :
    Erases (Tracing.popHttpProxyRequestGet subject p) (popHttpProxyRequestGet p) := by
  apply Erases.bind (Erases.lift (requestHost p))
  intro host
  cases host with
  | none => exact requestError_erases p
  | some host =>
      apply Erases.bind (Erases.lift (popRemoteServerPeerMake host))
      intro server
      apply Erases.bind (Erases.lift (popPeersPaired server p))
      intro _
      apply Erases.bind (Erases.lift (streamFifoPushDup server p))
      intro _
      apply Erases.bind (Erases.lift (load p))
      intro peer
      apply Erases.bind (Erases.lift _)
      intro _
      apply Erases.bind (Erases.lift (domainParseHost server true))
      intro ret
      exact Erases.ite (requestError_erases p) (Erases.pure 0)

theorem popHttpProxyRequestConnect_erases :
    Erases (Tracing.popHttpProxyRequestConnect subject p) (popHttpProxyRequestConnect p) := by
  apply Erases.bind (Erases.lift (requestHost p))
  intro host
  cases host with
  | none => exact requestError_erases p
  | some host =>
      apply Erases.bind (Erases.lift (popRemoteServerPeerMake host))
      intro server
      apply Erases.bind (Erases.lift (popPeersPaired server p))
      intro _
      apply Erases.bind (Erases.lift _)
      intro _
      apply Erases.bind (Erases.lift _)
      intro _
      apply Erases.bind (Erases.lift (domainParseHost server false))
      intro ret
      exact Erases.ite (requestError_erases p) (Erases.pure 0)

theorem requestCallback_erases (method : HttpMethod) :
    Erases (Tracing.requestCallback subject p method) (requestCallback p method) := by
  cases method with
  | get | head | put | post => exact popHttpProxyRequestGet_erases p
  | connect => exact popHttpProxyRequestConnect_erases p
  | trace | options | delete | lock | mkcol | copy | move => exact Erases.pure 0

theorem popHttpProxyRequestEvent_erases :
    Erases (Tracing.popHttpProxyRequestEvent subject p) (popHttpProxyRequestEvent p) := by
  have pushes : Erases (do
      streamFifoPushDup p p
      return 0 : Tracing Int) (do
      streamFifoPushDup p p
      return 0) := by
    apply Erases.bind (Erases.lift (streamFifoPushDup p p))
    intro _
    exact Erases.pure 0
  apply Erases.bind (Erases.lift (partnerBusy p))
  intro busy
  apply Erases.ite pushes
  apply Erases.bind (Erases.lift (load p))
  intro peer
  cases popHttpProxyMethodMatch peer.recvBuffer with
  | none => exact pushes
  | some method => exact requestCallback_erases p method

theorem popHttpProxyMessageDeal_erases :
    Erases (Tracing.popHttpProxyMessageDeal subject p) (popHttpProxyMessageDeal p) := by
  apply Erases.bind (Erases.lift (load p))
  intro peer
  apply Erases.ite
  · cases peer.tcpPeerType with
    | client =>
        apply Erases.bind (Erases.lift (popCheckWhetherMsgForward p))
        intro forward
        apply Erases.ite
        · cases peer.pairedPeer with
          | none => exact Erases.pure ()
          | some q => exact popTcpPacketTranspond_erases q p
        · apply Erases.bind (popHttpProxyRequestEvent_erases p)
          intro _
          exact Erases.pure ()
    | server =>
        apply Erases.bind (Erases.lift (popCheckWhetherMsgForward p))
        intro forward
        apply Erases.ite
        · cases peer.pairedPeer with
          | none => exact Erases.pure ()
          | some q => exact popTcpPacketTranspond_erases q p
        · exact Erases.pure ()
    | unknown => exact Erases.pure ()
  · exact Erases.pure ()

theorem readLoop_erases (n : Nat) : Erases (Tracing.readLoop subject p n) (readLoop p n) := by
  induction n with
  | zero => exact Erases.pure true
  | succ n ih =>
      unfold Tracing.readLoop readLoop
      apply erases_acts
      apply Erases.bind (Erases.lift ask)
      intro answer
      apply Erases.bind (Erases.lift (load p))
      intro peer
      apply Erases.bind (Erases.lift _)
      intro _
      apply Erases.ite
      · apply Erases.ite (Erases.pure true)
        apply Erases.bind (popTcpClosePairedPeer_erases p)
        intro _
        exact Erases.pure false
      · apply Erases.bind (Erases.lift _)
        intro _
        apply Erases.bind (popHttpProxyMessageDeal_erases p)
        intro _
        exact ih

theorem popHttpProxyTcpRead_erases (write : Bool) :
    Erases (Tracing.popHttpProxyTcpRead subject p write) (popHttpProxyTcpRead p write) := by
  apply Erases.bind (readLoop_erases p POP_PACKET_READ_TIMES)
  intro out
  apply Erases.ite
  · apply erases_acts
    exact Erases.lift _
  · exact Erases.pure ()

/-- Without the trace the dispatch is the dispatch. -/
theorem popHttpProxyTcpEpollEvent_erases (listenWrite read write error : Bool) :
    Erases (Tracing.popHttpProxyTcpEpollEvent subject p listenWrite read write error)
      (popHttpProxyTcpEpollEvent p listenWrite read write error) := by
  rw [popHttpProxyTcpEpollEvent_joined]
  apply Erases.bind
  · exact Erases.ite (popHttpProxyTcpRead_erases p listenWrite) (Erases.pure ())
  · intro _
    apply Erases.bind
    · exact Erases.ite (popHttpProxyTcpWrite_erases p) (Erases.pure ())
    · intro _
      exact Erases.ite (popHttpProxyTcpRead_erases p listenWrite) (Erases.pure ())

end Erasure

end Poplar.Proxy
