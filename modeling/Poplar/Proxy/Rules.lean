import Poplar.Lib.Faults
import Poplar.Proxy.Relay
import Poplar.Proxy.Routing

/-!
# Programs that are given peers

A function of the daemon works on the peers it is given, on their partners and on peers it
makes. A judgement about programs and the peers they are given that holds of the few things
the functions are made of, and of whole sequences of them, holds of every function.
-/
namespace Poplar.Proxy

open Effects Poplar.Domain Poplar.Http

/-! ## The parsers hold no peers -/

section Parsers

theorem strlen_avoids (object : List UInt8) (i : Nat) : Avoids .useAfterFree (strlen object i) := by
  unfold strlen
  split
  · exact Avoids.ok _
  · exact Avoids.error (by decide)

theorem streamGetw_avoids (s : Stream) : Avoids .useAfterFree (streamGetw s) := by
  unfold streamGetw
  split
  · exact Avoids.error (by decide)
  · exact Avoids.ok _

theorem streamGetl_avoids (s : Stream) : Avoids .useAfterFree (streamGetl s) := by
  unfold streamGetl
  split
  · exact Avoids.error (by decide)
  · exact Avoids.ok _

theorem streamGetwFrom_avoids (s : Stream) (i : Nat) :
    Avoids .useAfterFree (streamGetwFrom s i) := by
  unfold streamGetwFrom
  split
  · exact Avoids.ok _
  · exact Avoids.error (by decide)

theorem streamForwardGetp_avoids (s : Stream) (n : Nat) :
    Avoids .useAfterFree (streamForwardGetp s n) := by
  unfold streamForwardGetp
  split
  · exact Avoids.ok _
  · exact Avoids.error (by decide)

theorem streamPutw_avoids (s : Stream) (w : Nat) : Avoids .useAfterFree (streamPutw s w) := by
  unfold streamPutw
  split
  · exact Avoids.error (by decide)
  · exact Avoids.ok _

theorem checkLoop_avoids (buffer : List UInt8) (len fuel ptr : Nat) :
    Avoids .useAfterFree (checkLoop buffer len fuel ptr) := by
  induction fuel generalizing ptr with
  | zero =>
      unfold checkLoop
      split
      · exact Avoids.error (by decide)
      · exact Avoids.ok _
  | succ fuel ih =>
      unfold checkLoop
      split
      · exact ih _
      · exact Avoids.ok _

theorem decodeLoop_avoids (len fuel : Nat) (ptr count : Int) (queryName : List UInt8) :
    Avoids .useAfterFree (decodeLoop len fuel ptr count queryName) := by
  induction fuel generalizing ptr count queryName with
  | zero =>
      unfold decodeLoop
      split
      · exact Avoids.error (by decide)
      · exact Avoids.ok _
  | succ fuel ih =>
      unfold decodeLoop
      split
      · dsimp only
        split
        · split
          · exact ih _ _ _
          · exact Avoids.ok _
        · exact Avoids.error (by decide)
      · exact Avoids.ok _

theorem dnsPktNameParse_avoids (s : Stream) : Avoids .useAfterFree (dnsPktNameParse s) := by
  apply Avoids.bind (streamGetwFrom_avoids s s.getp)
  intro offsetName
  split
  · exact Avoids.bind (strlen_avoids _ _) fun _ =>
      Avoids.bind (streamForwardGetp_avoids s 2) fun _ => Avoids.ok _
  · apply Avoids.bind (strlen_avoids _ _)
    intro len
    apply Avoids.bind (Avoids.bind (checkLoop_avoids _ _ _ _) fun _ => Avoids.ok _)
    intro wellFormed
    split
    · exact Avoids.bind (strlen_avoids _ _) fun _ =>
        Avoids.bind (decodeLoop_avoids _ _ _ _ _) fun _ =>
          Avoids.bind (streamForwardGetp_avoids s _) fun _ => Avoids.ok _
    · exact Avoids.ok _

theorem domainNameQuestionParse_avoids (s : Stream) :
    Avoids .useAfterFree (domainNameQuestionParse s) := by
  apply Avoids.bind (dnsPktNameParse_avoids s)
  rintro ⟨name, s⟩
  cases name with
  | real queryName =>
      exact Avoids.bind (streamGetw_avoids s) fun queryType =>
        Avoids.bind (streamGetw_avoids queryType.2) fun _ => Avoids.ok _
  | offset => exact Avoids.ok _
  | illegal => exact Avoids.ok _

theorem domainNameAnswerParse_avoids (s : Stream) :
    Avoids .useAfterFree (domainNameAnswerParse s) := by
  apply Avoids.bind (dnsPktNameParse_avoids s)
  rintro ⟨name, s⟩
  dsimp only
  split
  · exact Avoids.ok _
  · refine Avoids.bind (streamGetw_avoids s) fun type =>
      Avoids.bind (streamGetw_avoids type.2) fun class' =>
        Avoids.bind (streamGetl_avoids class'.2) fun timeLive =>
          Avoids.bind (streamGetw_avoids timeLive.2) fun datalen => ?_
    split
    · exact Avoids.bind (streamGetl_avoids datalen.2) fun _ => Avoids.ok _
    · exact Avoids.bind (streamForwardGetp_avoids datalen.2 _) fun _ => Avoids.ok _

theorem firstAnswerA_avoids (n : Nat) (s : Stream) : Avoids .useAfterFree (firstAnswerA n s) := by
  induction n generalizing s with
  | zero => exact Avoids.error (by decide)
  | succ n ih =>
      apply Avoids.bind (domainNameAnswerParse_avoids s)
      rintro ⟨answer, s⟩
      cases answer with
      | none => exact Avoids.ok _
      | some answer =>
          dsimp only
          split
          · exact Avoids.ok _
          · exact ih s

theorem domainNameIpv4Addr_avoids (s : Stream) (now : Nat) :
    Avoids .useAfterFree (domainNameIpv4Addr s now) := by
  unfold domainNameIpv4Addr
  split
  · exact Avoids.ok _
  refine Avoids.bind (streamGetw_avoids s) fun transactionID =>
    Avoids.bind (streamGetw_avoids transactionID.2) fun flags =>
      Avoids.bind (streamGetw_avoids flags.2) fun questions =>
        Avoids.bind (streamGetw_avoids questions.2) fun answerRRS =>
          Avoids.bind (streamGetw_avoids answerRRS.2) fun authorityRRS =>
            Avoids.bind (streamGetw_avoids authorityRRS.2) fun additionalRRS => ?_
  dsimp only
  split
  · exact Avoids.ok _
  split
  · exact Avoids.ok _
  apply Avoids.bind (domainNameQuestionParse_avoids _)
  rintro ⟨question, s⟩
  cases question with
  | none => exact Avoids.ok _
  | some question =>
      dsimp only
      split
      · exact Avoids.ok _
      split
      · exact Avoids.ok _
      apply Avoids.bind (firstAnswerA_avoids _ s)
      intro answer
      cases answer <;> exact Avoids.ok _

theorem getHostByNameUnblock_avoids (transID : Nat) (hostname : Option (List UInt8))
    (sendtoOk : Bool) : Avoids .useAfterFree (getHostByNameUnblock transID hostname sendtoOk) := by
  cases hostname with
  | none => exact Avoids.ok _
  | some hostname =>
      refine Avoids.bind ?_ fun _ => Avoids.ok _
      have new (memory : List UInt8) : Avoids .useAfterFree (streamNew memory) := by
        unfold streamNew
        split
        · exact Avoids.ok _
        · exact Avoids.error (by decide)
      exact Avoids.bind (new _) fun s => Avoids.bind (streamPutw_avoids _ _) fun s =>
        Avoids.bind (streamPutw_avoids s _) fun _ => Avoids.ok _

theorem httpRequestStartLineParse_avoids (data : List UInt8) :
    Avoids .useAfterFree (httpRequestStartLineParse data) := by
  have search : Avoids .useAfterFree (strstrIn data HTTP_HEADER_SUFFIX) := by
    unfold strstrIn
    split
    · exact Avoids.ok _
    · split
      · exact Avoids.ok _
      · exact Avoids.error (by decide)
  apply Avoids.bind search
  intro suffix
  cases suffix with
  | none => exact Avoids.ok _
  | some suffix =>
      dsimp only
      split
      next =>
        split
        · exact Avoids.error (by decide)
        · split
          · split
            · split
              · exact Avoids.error (by decide)
              · exact Avoids.ok _
            · exact Avoids.ok _
          · exact Avoids.ok _
      next => exact Avoids.ok _

theorem getHostIpPostFromURI_avoids (uri : List UInt8) :
    Avoids .useAfterFree (getHostIpPostFromURI uri) := by
  rw [getHostIpPostFromURI_eq]
  cases behindScheme uri with
  | none => exact Avoids.ok _
  | some target =>
      rw [Option.elim_some]
      unfold copyHost
      split
      · exact Avoids.ok _
      · exact Avoids.error (by decide)

end Parsers

/-! ## Judgements -/

def Call.pushes : Call → Bool
  | .queued _ _ _ => true
  | _ => false

/-- What a judgement may depend on; a change of other fields is of no account. -/
def Peer.core (peer : Peer) : Option Nat × ServiceType × List (List UInt8) × List UInt8 :=
  (peer.pairedPeer, peer.serviceType, peer.writeFifo, peer.sent)

/-- The peers with what says which there are, and the log. -/
def Popd.kept (s : Popd) : (Nat → Option Peer) × Nat × Nat × List Call :=
  (s.peers, s.next, s.dnsClientPeer, s.log)

/-- A judgement about programs that are given the peers of a set. -/
structure Rules (J : ⦃α : Type⦄ → Set Nat → Daemon α → Prop) : Prop where
  pure : ∀ {α : Type} {A : Set Nat} (a : α), J A (Pure.pure a : Daemon α)
  bind : ∀ {α β : Type} {A : Set Nat} {x : Daemon α} {f : α → Daemon β}, J A x →
    (∀ a, J A (f a)) → J A (x >>= f)
  load : ∀ {β : Type} {A : Set Nat} {p : Nat} {f : Peer → Daemon β}, p ∈ A →
    (∀ peer, J (A ∪ {q | peer.pairedPeer = some q}) (f peer)) → J A (load p >>= f)
  store : ∀ {A : Set Nat} {p : Nat} {f : Peer → Peer}, p ∈ A →
    (∀ peer, (f peer).core = peer.core) → J A (store p f)
  /-- a partner is one of the peers that are known -/
  pair : ∀ {A : Set Nat} {p : Nat} {partner : Option Nat}, p ∈ A → (∀ q ∈ partner, q ∈ A) →
    J A (Proxy.store p fun peer => { peer with pairedPeer := partner })
  /-- what was read from no peer is the answer to CONNECT -/
  push : ∀ {A : Set Nat} {p : Nat} {bytes : List UInt8} {origin : Option Nat},
    (origin = none → bytes = HTTP_METHOD_CONNECT_ESTABLISHED) → p ∈ A →
      J A (streamFifoPush p bytes origin)
  /-- a peer that was just made is written first, and then known -/
  made : ∀ {β : Type} {A : Set Nat} {f : Peer → Peer} {g : Nat → Daemon β},
    (f {}).pairedPeer = none → (f {}).writeFifo = [] → (f {}).sent = [] →
      (∀ p, J (insert p A) (g p)) → J A (popPeerNew >>= fun p => Proxy.store p f >>= fun _ => g p)
  modify : ∀ {A : Set Nat} {f : Popd → Popd}, (∀ s, (f s).kept = s.kept) →
    J A (modify f : Daemon PUnit)
  note : ∀ {A : Set Nat} {call : Popd → Call}, (∀ s, (call s).pushes = false) → J A (note call)
  ask : ∀ {A : Set Nat}, J A ask
  get : ∀ {A : Set Nat}, J A (get : Daemon Popd)
  call : ∀ {α : Type} {A : Set Nat} {result : Except Fault α}, Avoids .useAfterFree result →
    J A (call result)
  abort : ∀ {A : Set Nat} {fault : Fault}, fault ≠ .useAfterFree →
    J A (throw fault : Daemon Unit)

/-- A judgement that holds of the loop which takes streams out of a fifo as well. -/
structure Walk (J : ⦃α : Type⦄ → Set Nat → Daemon α → Prop) : Prop extends Rules J where
  writeLoop : ∀ {A : Set Nat} {p : Nat} (n : Nat), p ∈ A → J A (writeLoop p n)

namespace Rules

variable {J : ⦃α : Type⦄ → Set Nat → Daemon α → Prop} (rules : Rules J) {A : Set Nat}
  {p q : Nat} {α β : Type}

include rules

/-! ## Connections -/

theorem closeSockfd (member : p ∈ A) : J A (closeSockfd p) := by
  apply rules.store member
  intro peer
  split <;> rfl

theorem popTcpClientEventAdd (member : p ∈ A) (info : TcpClientInfo) :
    J A (popTcpClientEventAdd p info) := rules.store member fun _ => rfl

theorem popTcpServerEventAdd (member : p ∈ A) (info : TcpServerInfo) :
    J A (popTcpServerEventAdd p info) := rules.store member fun _ => rfl

theorem eventSet (member : p ∈ A) (func : EventFunc) (write : Bool) :
    J A (eventSet p func write) := by
  apply rules.load member
  intro peer
  cases peer.tEvent with
  | some watch =>
      dsimp only
      split
      · exact rules.store (.inl member) fun _ => rfl
      · exact rules.abort (by decide)
  | none =>
      apply rules.bind rules.ask
      intro answer
      split
      · exact rules.store (.inl member) fun _ => rfl
      · exact rules.pure _

theorem popTcpClientStart (member : p ∈ A) : J A (popTcpClientStart p) := by
  have connects : J A (popTcpClientConnect p) := by
    apply rules.bind (rules.closeSockfd member)
    intro _
    apply rules.bind rules.ask
    intro answer
    cases answer.socket with
    | none =>
        exact rules.bind (rules.store member fun _ => rfl) fun _ => rules.pure _
    | some fd =>
        exact rules.bind (rules.store member fun _ => rfl) fun _ =>
          rules.bind rules.ask fun _ => rules.pure _
  have begins : J A (do
      Proxy.eventSet p .tcpClientConnectCheck true
      Proxy.store p fun peer => { peer with tConnectingTimer := true }
      return 0 : Daemon Int) :=
    rules.bind (rules.eventSet member _ _) fun _ =>
      rules.bind (rules.store member fun _ => rfl) fun _ => rules.pure _
  apply rules.bind connects
  intro result
  cases result with
  | error =>
      exact rules.bind (rules.closeSockfd member) fun _ =>
        rules.bind (rules.note fun _ => rfl) fun _ =>
          rules.bind (rules.popTcpClientEventAdd member _) fun _ =>
            rules.bind (rules.note fun _ => rfl) fun _ => rules.pure _
  | success => exact begins
  | inProgress => exact begins

theorem popTcpClientEstablish (member : p ∈ A) : J A (popTcpClientEstablish p) :=
  rules.bind (rules.store member fun _ => rfl) fun _ =>
    rules.bind (rules.modify fun _ => rfl) fun _ =>
      rules.bind (rules.popTcpClientEventAdd member _) fun _ =>
        rules.bind (rules.eventSet member _ _) fun _ => rules.pure _

theorem popTcpCanclePaired (member : p ∈ A) : J A (popTcpCanclePaired p) := by
  have alone {B : Set Nat} {q : Nat} (member : q ∈ B) :
      J B (Proxy.store q fun peer => { peer with pairedPeer := none }) :=
    rules.pair member nofun
  apply rules.load member
  intro peer
  cases partner : peer.pairedPeer with
  | some q => exact rules.bind (alone (.inr rfl)) fun _ => alone (.inl member)
  | none => exact alone (.inl member)

theorem popTcpClientLeave (member : p ∈ A) (info : TcpClientInfo) :
    J A (popTcpClientLeave p info) :=
  rules.bind (rules.store member fun _ => rfl) fun _ =>
    rules.bind (rules.popTcpCanclePaired member) fun _ =>
      rules.bind (rules.store member fun _ => rfl) fun _ =>
        rules.bind (rules.popTcpClientEventAdd member _) fun _ =>
          rules.bind (rules.note fun _ => rfl) fun _ => rules.pure _

theorem popTcpClientEvent (member : p ∈ A) (event : TcpClientEvent) :
    J A (popTcpClientEvent p event) := by
  have func {B : Set Nat} (member : p ∈ B) (status : TcpClientStatus) :
      J B (popTcpClientFsm p status event).1 := by
    cases status with
    | idle =>
        cases event with
        | start => exact rules.popTcpClientStart member
        | stop => exact rules.popTcpClientLeave member _
        | conectionError => exact rules.popTcpClientLeave member _
        | conectionSuccess => exact rules.pure _
        | holdtimerExpired => exact rules.pure _
    | connect =>
        cases event with
        | stop => exact rules.popTcpClientLeave member _
        | conectionError => exact rules.popTcpClientLeave member _
        | conectionSuccess => exact rules.popTcpClientEstablish member
        | start => exact rules.pure _
        | holdtimerExpired => exact rules.pure _
    | establish =>
        cases event with
        | stop => exact rules.popTcpClientLeave member _
        | conectionError => exact rules.popTcpClientLeave member _
        | holdtimerExpired => exact rules.popTcpClientLeave member _
        | start => exact rules.pure _
        | conectionSuccess => exact rules.pure _
  apply rules.load member
  intro peer
  apply rules.bind (func (.inl member) peer.tcpClientStatus)
  intro ret
  split
  · exact rules.store (.inl member) fun _ => rfl
  · exact rules.pure _

theorem popTcpServerClose (member : p ∈ A) : J A (popTcpServerClose p) :=
  rules.bind (rules.store member fun _ => rfl) fun _ =>
    rules.bind (rules.popTcpCanclePaired member) fun _ =>
      rules.bind (rules.store member fun _ => rfl) fun _ =>
        rules.bind (rules.popTcpServerEventAdd member _) fun _ => rules.note fun _ => rfl

theorem popTcpClosePeer (member : p ∈ A) : J A (popTcpClosePeer p) := by
  apply rules.load member
  intro peer
  split
  · exact rules.popTcpClientEvent (.inl member) _
  · exact rules.popTcpServerClose (.inl member)

theorem popTcpClosePairedPeer (member : p ∈ A) : J A (popTcpClosePairedPeer p) := by
  apply rules.load member
  intro peer
  cases partner : peer.pairedPeer with
  | some q =>
      exact rules.bind (rules.popTcpClosePeer (.inr rfl)) fun _ =>
        rules.popTcpClosePeer (.inl member)
  | none => exact rules.popTcpClosePeer (.inl member)

theorem popTcpClientConnectCheck (member : p ∈ A) : J A (popTcpClientConnectCheck p) := by
  apply rules.bind rules.ask
  intro answer
  split
  · exact rules.popTcpClosePairedPeer member
  · exact rules.popTcpClientEvent member _

theorem popTcpClientConnectExpired (member : p ∈ A) :
    J A (popTcpClientConnectExpired p) :=
  rules.bind (rules.store member fun _ => rfl) fun _ =>
    rules.popTcpClosePairedPeer member

theorem popHttpProxyServerPeerConnect (sock addr : Nat) (port : Int) :
    J A (popHttpProxyServerPeerConnect sock addr port) := by
  apply rules.made rfl rfl rfl
  intro p
  have here : p ∈ insert p A := Set.mem_insert p A
  exact rules.bind (rules.eventSet here _ _) fun _ =>
    rules.bind (rules.modify fun _ => rfl) fun _ =>
      rules.popTcpServerEventAdd here _

theorem popHttpProxyTcpServerAccept (clients : List (Nat × Nat × Int)) (broken : Bool) :
    J A (popHttpProxyTcpServerAccept clients broken) := by
  induction clients with
  | nil =>
      unfold Proxy.popHttpProxyTcpServerAccept
      split
      · exact rules.abort (by decide)
      · exact rules.pure _
  | cons client clients ih =>
      exact rules.bind (rules.popHttpProxyServerPeerConnect _ _ _) fun _ => ih

/-! ## The wait queue -/

theorem dnsWaitAckQueueAdd (member : p ∈ A) : J A (dnsWaitAckQueueAdd p) :=
  rules.load member fun _ => rules.bind (rules.note fun _ => rfl) fun _ =>
    rules.modify fun _ => rfl

theorem dnsWaitAckQueueDel (member : p ∈ A) : J A (dnsWaitAckQueueDel p) :=
  rules.load member fun _ => rules.bind (rules.note fun _ => rfl) fun _ =>
    rules.modify fun _ => rfl

theorem dnsWaitAckTimeoutCall (member : p ∈ A) : J A (dnsWaitAckTimeoutCall p) :=
  rules.bind (rules.store member fun _ => rfl) fun _ =>
    rules.bind (rules.dnsWaitAckQueueDel member) fun _ => rules.popTcpClosePairedPeer member

theorem popGetHostByNameUnblock (member : p ∈ A) : J A (popGetHostByNameUnblock p) := by
  apply rules.load member
  intro peer
  refine rules.bind rules.get fun s => rules.bind rules.ask fun answer =>
    rules.bind (rules.call (getHostByNameUnblock_avoids _ _ _)) fun result =>
      rules.bind (rules.modify fun _ => rfl) fun _ => ?_
  split
  · exact rules.pure _
  · exact rules.bind (rules.store (.inl member) fun _ => by simp only [Peer.core]) fun _ =>
      rules.bind (rules.dnsWaitAckQueueAdd (.inl member)) fun _ =>
        rules.bind (rules.store (.inl member) fun _ => rfl) fun _ => rules.pure _

theorem domainParseHost (member : p ∈ A) (dropExpired : Bool) :
    J A (domainParseHost p dropExpired) := by
  apply rules.load member
  intro peer
  have here : p ∈ A ∪ {q | peer.pairedPeer = some q} := .inl member
  split
  · exact rules.bind (rules.popTcpClientEvent here _) fun _ => rules.pure _
  refine rules.bind rules.ask fun answer => rules.bind rules.get fun s => ?_
  split
  · split
    · exact rules.bind (rules.store here fun _ => rfl) fun _ =>
        rules.bind (rules.modify fun _ => rfl) fun _ =>
          rules.bind (rules.popTcpClientEvent here _) fun _ => rules.pure _
    · split
      · exact rules.bind (rules.modify fun _ => rfl) fun _ =>
          rules.popGetHostByNameUnblock here
      · exact rules.popGetHostByNameUnblock here
  · exact rules.popGetHostByNameUnblock here

/-! ## Requests -/

theorem streamFifoPushDup (member : p ∈ A) (known : q ∈ A) :
    J A (streamFifoPushDup p q) :=
  rules.load known fun _ => rules.push nofun (.inl member)

theorem popPeersPaired (member : p ∈ A) (known : q ∈ A) : J A (popPeersPaired p q) := by
  have joins {r t : Nat} (there : r ∈ A) (partner : t ∈ A) :
      J A (Proxy.store r fun peer => { peer with pairedPeer := some t }) := by
    apply rules.pair there
    rintro _ ⟨⟩
    exact partner
  exact rules.bind (rules.note fun _ => rfl) fun _ =>
    rules.bind (joins member known) fun _ => joins known member

theorem requestHost (member : p ∈ A) : J A (requestHost p) := by
  apply rules.load member
  intro peer
  apply rules.bind (rules.call (httpRequestStartLineParse_avoids _))
  intro sline
  cases sline with
  | none => exact rules.pure _
  | some sline => exact rules.call (getHostIpPostFromURI_avoids _)

theorem requestError (member : p ∈ A) : J A (requestError p) :=
  rules.bind (rules.popTcpClosePairedPeer member) fun _ => rules.pure _

theorem resolved {server client : Nat} (made : server ∈ A) (member : client ∈ A)
    (dropExpired : Bool) : J A (do
      if (← Proxy.domainParseHost server dropExpired) < 0 then Proxy.requestError client
      else return 0 :
        Daemon Int) := by
  apply rules.bind (rules.domainParseHost made dropExpired)
  intro ret
  split
  · exact rules.requestError member
  · exact rules.pure _

/-- The peer made for a host is known to what follows. -/
theorem popRemoteServerPeerMake (host : HostPort) {f : Nat → Daemon β}
    (next : ∀ server, J (insert server A) (f server)) :
    J A (popRemoteServerPeerMake host >>= f) := by
  unfold Proxy.popRemoteServerPeerMake
  simp only [bind_assoc, pure_bind]
  exact rules.made rfl rfl rfl next

theorem popHttpProxyRequestGet (member : p ∈ A) : J A (popHttpProxyRequestGet p) := by
  apply rules.bind (rules.requestHost member)
  intro host
  cases host with
  | none => exact rules.requestError member
  | some host =>
      refine rules.popRemoteServerPeerMake host fun server => ?_
      have made : server ∈ insert server A := Set.mem_insert server A
      have client : p ∈ insert server A := Set.mem_insert_of_mem server member
      exact rules.bind (rules.popPeersPaired made client) fun _ =>
        rules.bind (rules.streamFifoPushDup made client) fun _ =>
          rules.load client fun _ => rules.bind (rules.note fun _ => rfl) fun _ =>
            rules.resolved (.inl made) (.inl client) true

theorem popHttpProxyRequestConnect (member : p ∈ A) :
    J A (popHttpProxyRequestConnect p) := by
  apply rules.bind (rules.requestHost member)
  intro host
  cases host with
  | none => exact rules.requestError member
  | some host =>
      refine rules.popRemoteServerPeerMake host fun server => ?_
      have made : server ∈ insert server A := Set.mem_insert server A
      have client : p ∈ insert server A := Set.mem_insert_of_mem server member
      exact rules.bind (rules.popPeersPaired made client) fun _ =>
        rules.bind (rules.push (fun _ => rfl) client) fun _ =>
          rules.bind (rules.store made fun _ => rfl) fun _ =>
            rules.resolved made client false

theorem popHttpProxyRequestEvent (member : p ∈ A) : J A (popHttpProxyRequestEvent p) := by
  have busy : J A (partnerBusy p) := by
    apply rules.load member
    intro peer
    cases partner : peer.pairedPeer with
    | some q => exact rules.load (.inr rfl) fun _ => rules.pure _
    | none => exact rules.pure _
  have echoes {B : Set Nat} (member : p ∈ B) :
      J B (do Proxy.streamFifoPushDup p p; return 0 : Daemon Int) :=
    rules.bind (rules.streamFifoPushDup member member) fun _ => rules.pure _
  apply rules.bind busy
  intro forwarding
  split
  · exact echoes member
  · apply rules.load member
    intro peer
    cases Http.popHttpProxyMethodMatch peer.recvBuffer with
    | none => exact echoes (.inl member)
    | some method =>
        cases method with
        | get | head | put | post => exact rules.popHttpProxyRequestGet (.inl member)
        | connect => exact rules.popHttpProxyRequestConnect (.inl member)
        | trace | options | delete | lock | mkcol | copy | move => exact rules.pure _

/-! ## Sockets -/

theorem popCheckWhetherMsgForward (member : p ∈ A) :
    J A (popCheckWhetherMsgForward p) := by
  apply rules.load member
  intro peer
  cases partner : peer.pairedPeer with
  | none => exact rules.pure _
  | some q =>
      apply rules.load (.inr rfl)
      intro paired
      split
      · exact rules.pure _
      · split <;> exact rules.pure _

/-- The loop, for a judgement that holds of every change of a fifo. -/
theorem writes (takes : ∀ {A : Set Nat} {p : Nat} (left : List (List UInt8)) (taken : List UInt8),
      p ∈ A → J A (Proxy.store p fun peer =>
        { peer with writeFifo := left, sent := peer.sent ++ taken }))
    (member : p ∈ A) (n : Nat) : J A (writeLoop p n) := by
  induction n generalizing A with
  | zero => exact rules.pure _
  | succ n ih =>
      apply rules.load member
      intro peer
      have here : p ∈ A ∪ {q | peer.pairedPeer = some q} := .inl member
      cases peer.writeFifo with
      | nil => exact rules.pure _
      | cons stream rest =>
          apply rules.bind rules.ask
          intro answer
          split
          · split
            · exact rules.pure _
            · exact rules.bind (rules.popTcpClosePairedPeer here) fun _ => rules.pure _
          · split
            · exact rules.bind (takes _ _ here) fun _ => rules.pure _
            · exact rules.bind (takes _ _ here) fun _ => ih here

end Rules

namespace Walk

variable {J : ⦃α : Type⦄ → Set Nat → Daemon α → Prop} (walk : Walk J) {A : Set Nat} {p q : Nat}

include walk

theorem popHttpProxyTcpWrite (member : p ∈ A) : J A (popHttpProxyTcpWrite p) := by
  apply walk.load member
  intro peer
  apply walk.bind (walk.writeLoop _ (.inl member))
  intro failed
  split
  · exact walk.pure _
  · exact walk.load (.inl member) fun _ => walk.eventSet (.inl (.inl member)) _ _

theorem popTcpPacketTranspond (member : q ∈ A) (origin : p ∈ A) :
    J A (popTcpPacketTranspond q p) :=
  walk.bind (walk.streamFifoPushDup member origin) fun _ => walk.popHttpProxyTcpWrite member

theorem popHttpProxyMessageDeal (member : p ∈ A) : J A (popHttpProxyMessageDeal p) := by
  apply walk.load member
  intro peer
  have here : p ∈ A ∪ {q | peer.pairedPeer = some q} := .inl member
  split
  · cases peer.tcpPeerType with
    | client =>
        apply walk.bind (walk.popCheckWhetherMsgForward here)
        intro forward
        split
        · cases partner : peer.pairedPeer with
          | some q => exact walk.popTcpPacketTranspond (.inr rfl) (.inl member)
          | none => exact walk.pure _
        · exact walk.bind (walk.popHttpProxyRequestEvent here) fun _ => walk.pure _
    | server =>
        apply walk.bind (walk.popCheckWhetherMsgForward here)
        intro forward
        split
        · cases partner : peer.pairedPeer with
          | some q => exact walk.popTcpPacketTranspond (.inr rfl) (.inl member)
          | none => exact walk.pure _
        · exact walk.pure _
    | unknown => exact walk.pure _
  · exact walk.pure _

theorem readLoop (member : p ∈ A) (n : Nat) : J A (readLoop p n) := by
  induction n generalizing A with
  | zero => exact walk.pure _
  | succ n ih =>
      apply walk.bind walk.ask
      intro answer
      apply walk.load member
      intro peer
      have here : p ∈ A ∪ {q | peer.pairedPeer = some q} := .inl member
      refine walk.bind (walk.store here fun _ => ?_) fun _ => ?_
      · rfl
      generalize (if peer.sockfd < 0 then [] else answer.read.take MAX_RECV_PACKET_SIZE) = bytes
      split
      · split
        · exact walk.pure _
        · exact walk.bind (walk.popTcpClosePairedPeer here) fun _ => walk.pure _
      · exact walk.bind (walk.note fun _ => rfl) fun _ =>
          walk.bind (walk.popHttpProxyMessageDeal here) fun _ => ih here

theorem popHttpProxyTcpEpollEvent (member : p ∈ A) (listenWrite read write error : Bool) :
    J A (popHttpProxyTcpEpollEvent p listenWrite read write error) := by
  have reads : J A (popHttpProxyTcpRead p listenWrite) := by
    apply walk.bind (walk.readLoop member _)
    intro again
    split
    · exact walk.eventSet member _ _
    · exact walk.pure _
  have when (b : Bool) {x : Daemon Unit} (safe : J A x) :
      J A (if b then x else Pure.pure ()) := by
    cases b with
    | true => exact safe
    | false => exact walk.pure _
  rw [popHttpProxyTcpEpollEvent_joined]
  exact walk.bind (when read reads) fun _ =>
    walk.bind (when write (walk.popHttpProxyTcpWrite member)) fun _ => when error reads

theorem socketEvent (member : p ∈ A) (read write error : Bool) :
    J A (socketEvent p read write error) := by
  apply walk.load member
  intro peer
  have here : p ∈ A ∪ {q | peer.pairedPeer = some q} := .inl member
  cases peer.tEvent with
  | none => exact walk.pure _
  | some watch =>
      dsimp only
      refine walk.bind (walk.store here fun _ => ?_) ?_
      · rfl
      intro _
      cases watch.func with
      | tcpClientConnectCheck => exact walk.popTcpClientConnectCheck here
      | httpProxyTcpEpollEvent => exact walk.popHttpProxyTcpEpollEvent here _ _ _ _

end Walk

/-! ## Events -/

/-- A judgement that does not ask which peers a program is given, and allows to free them. -/
structure Anywhere (J : ⦃α : Type⦄ → Daemon α → Prop) : Prop extends Walk fun _ _ x => J x where
  reads : ∀ {β : Type} {p : Nat} {f : Peer → Daemon β}, (∀ peer, J (f peer)) →
    J (Proxy.load p >>= f)
  free : ∀ p, J (free p)

namespace Anywhere

variable {J : ⦃α : Type⦄ → Daemon α → Prop} (everywhere : Anywhere J) {α β : Type} (p : Nat)

include everywhere

theorem andThen {x : Daemon α} {f : α → Daemon β} (first : J x) (second : ∀ a, J (f a)) :
    J (x >>= f) := everywhere.bind (A := ∅) first second

theorem done (a : α) : J (Pure.pure a : Daemon α) := everywhere.pure (A := ∅) a

theorem noted {call : Popd → Call} (none : ∀ s, (call s).pushes = false) : J (note call) :=
  everywhere.note (A := ∅) none

theorem stored {f : Peer → Peer} (same : ∀ peer, (f peer).core = peer.core) :
    J (Proxy.store p f) := everywhere.store (Set.mem_univ p) same

theorem changed {f : Popd → Popd} (same : ∀ s, (f s).kept = s.kept) :
    J (modify f : Daemon PUnit) := everywhere.modify (A := ∅) same

theorem popPeerDelete : J (popPeerDelete p) := by
  have here : p ∈ Set.univ := Set.mem_univ p
  exact everywhere.andThen (everywhere.noted fun _ => rfl) fun _ =>
    everywhere.andThen (everywhere.stored p fun _ => rfl) fun _ =>
      everywhere.andThen (everywhere.popTcpCanclePaired here) fun _ =>
        everywhere.andThen (everywhere.changed fun _ => rfl) fun _ =>
          everywhere.andThen (everywhere.dnsWaitAckQueueDel here) fun _ => everywhere.free p

theorem eventCall {x : Daemon Unit} (call : J x) : J (eventCall p x) := by
  apply everywhere.reads
  intro peer
  split
  · exact call
  · exact everywhere.done _

theorem infoLoop {ι : Type} {infos : Peer → List ι} {setInfos : List ι → Peer → Peer}
    {call : ι → Daemon Unit} {deal : InfoDeal}
    (same : ∀ rest peer, (setInfos rest peer).core = peer.core)
    (calls : ∀ info, J (call info)) (n : Nat) : J (infoLoop p infos setInfos call deal n) := by
  induction n with
  | zero =>
      apply everywhere.reads
      intro peer
      split
      · exact everywhere.stored p fun _ => rfl
      · exact everywhere.done _
  | succ n ih =>
      apply everywhere.andThen
      · exact everywhere.andThen (everywhere.get (A := ∅)) fun _ => everywhere.done _
      intro listed
      split
      · apply everywhere.reads
        intro peer
        cases infos peer with
        | nil => exact everywhere.done _
        | cons info rest =>
            exact everywhere.andThen (everywhere.stored p (same rest)) fun _ =>
              everywhere.andThen (calls info) fun _ => ih
      · exact everywhere.done _

theorem popTcpClientEventHttpProxyCall (info : TcpClientInfo) :
    J (popTcpClientEventHttpProxyCall p info) := by
  cases info with
  | connectionError => exact everywhere.popPeerDelete p
  | connectionBreak => exact everywhere.popPeerDelete p
  | connectionSuccess =>
      apply everywhere.reads
      intro peer
      split
      · cases peer.pairedPeer with
        | none => exact everywhere.done _
        | some q =>
            apply everywhere.reads
            intro paired
            split
            · exact everywhere.eventSet (Set.mem_univ q) _ _
            · exact everywhere.done _
      · split
        · exact everywhere.eventSet (Set.mem_univ p) _ _
        · exact everywhere.done _

theorem popTcpServerEventHttpProxyCall (info : TcpServerInfo) :
    J (popTcpServerEventHttpProxyCall p info) := by
  cases info with
  | accept => exact everywhere.done _
  | break' => exact everywhere.popPeerDelete p
  | error => exact everywhere.popPeerDelete p

theorem infoDeal : J (dispatch (.infoDeal p)) := by
  apply everywhere.reads
  intro peer
  cases peer.tInfoDeal with
  | none => exact everywhere.done _
  | some deal =>
      cases deal with
      | tcpClientEvent =>
          refine everywhere.andThen (everywhere.noted fun _ => rfl) fun _ =>
            everywhere.andThen (everywhere.stored p fun _ => rfl) fun _ => ?_
          refine everywhere.infoLoop p (fun rest peer => ?_) (fun info => ?_) _
          · rfl
          · exact everywhere.eventCall p (everywhere.popTcpClientEventHttpProxyCall p info)
      | tcpServerEvent =>
          refine everywhere.andThen (everywhere.noted fun _ => rfl) fun _ =>
            everywhere.andThen (everywhere.stored p fun _ => rfl) fun _ => ?_
          refine everywhere.infoLoop p (fun rest peer => ?_) (fun info => ?_) _
          · rfl
          · exact everywhere.eventCall p (everywhere.popTcpServerEventHttpProxyCall p info)

theorem popUdpRecvDnsQueryAck (payload : List UInt8) (fromAddr : Nat) (fromPort : Int) :
    J (popUdpRecvDnsQueryAck payload fromAddr fromPort) := by
  apply everywhere.andThen (everywhere.get (A := ∅))
  intro s
  apply everywhere.reads
  intro peer
  split
  · exact everywhere.done _
  apply everywhere.andThen (everywhere.ask (A := ∅))
  intro answer
  apply everywhere.andThen (everywhere.call (A := ∅) (domainNameIpv4Addr_avoids _ _))
  intro result
  cases result with
  | none => exact everywhere.done _
  | some result =>
      apply everywhere.andThen (everywhere.get (A := ∅))
      intro s
      cases dnsWaitAckQueueLookupByID s.dnsAckWaitQueue result.transactionID with
      | none => exact everywhere.done _
      | some server =>
          have here : server ∈ Set.univ := Set.mem_univ server
          refine everywhere.andThen (everywhere.noted fun _ => rfl) fun _ =>
            everywhere.andThen (everywhere.dnsWaitAckQueueDel here) fun _ =>
              everywhere.andThen (everywhere.stored server fun _ => rfl) fun _ => ?_
          split
          · exact everywhere.done _
          · refine everywhere.andThen (everywhere.stored server fun _ => rfl) fun _ =>
              everywhere.andThen (everywhere.popTcpClientEvent here _) fun _ =>
                everywhere.andThen (everywhere.get (A := ∅)) fun _ => ?_
            dsimp only
            split
            · exact everywhere.changed fun _ => rfl
            · exact everywhere.changed fun _ => rfl

theorem dispatch (event : Dispatch) : J (dispatch event) := by
  cases event with
  | accept clients broken => exact everywhere.popHttpProxyTcpServerAccept (A := ∅) clients broken
  | socket p read write error => exact everywhere.socketEvent (Set.mem_univ p) read write error
  | connectExpired p => exact everywhere.popTcpClientConnectExpired (Set.mem_univ p)
  | dnsWaitAckTimeout p => exact everywhere.dnsWaitAckTimeoutCall (Set.mem_univ p)
  | infoDeal p => exact everywhere.infoDeal p
  | datagram payload fromAddr fromPort => exact everywhere.popUdpRecvDnsQueryAck _ _ _
  | cacheCheck =>
      exact everywhere.andThen (everywhere.ask (A := ∅)) fun _ =>
        everywhere.changed fun _ => rfl

end Anywhere

end Poplar.Proxy
