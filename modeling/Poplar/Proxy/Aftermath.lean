import Poplar.Domain.NameFields
import Poplar.Proxy.Acts
import Poplar.Proxy.Simulation

/-!
# What a dispatch does after a teardown

A handler that tears its peer down says so in its return value, which its caller drops. A
message that tears its peer down leaves the read loop running.
-/
namespace Poplar.Proxy

open Effects Traces Poplar.Domain Poplar.Http

/-- How one turn of the read loop goes on. -/
inductive ReadOutcome where
  | out | broken | message
  deriving DecidableEq, Repr

/-- One turn of the read loop up to the handling of what was read. -/
def readOnce (p : Nat) : Daemon ReadOutcome := do
  let answer ← ask
  let peer ← load p
  let bytes := if peer.sockfd < 0 then [] else answer.read.take MAX_RECV_PACKET_SIZE
  store p fun peer => { peer with recvBuffer := bytes }
  if bytes = [] then
    if 0 ≤ peer.sockfd ∧ answer.retry then return .out
    return .broken
  note fun s => .chunk p bytes (s.partnerOf p)
  return .message

/-- A write fails for good before the fifo is drained or has to wait. -/
def writeFails (answers : Nat → Answer) (sockfd : Int) : Nat → List (List UInt8) → Prop
  | _, [] => False
  | calls, stream :: rest =>
    match if sockfd < 0 then none else (answers calls).write with
    | none => ¬ (0 ≤ sockfd ∧ (answers calls).retry = true)
    | some num => stream.length ≤ num ∧ writeFails answers sockfd (calls + 1) rest

/-- What `pop_check_whether_msg_forward` asks of the two. -/
def Peer.Forwards (peer paired : Peer) : Prop :=
  peer.tcpPeerType = .client ∧ paired.tcpPeerType = .server ∧ paired.tcpClientStatus = .establish ∨
    peer.tcpPeerType = .server ∧ paired.tcpPeerType = .client ∧
      paired.tcpServerStatus = .established

/-- The host the request line in `bytes` names. -/
def hostNamed (bytes : List UInt8) : Except Fault (Option HostPort) := do
  match ← httpRequestStartLineParse (received bytes).data with
  | none => return none
  | some sline => getHostIpPostFromURI sline.uri

/-- The methods whose callback looks for a host. -/
def asksForHost : HttpMethod → Bool
  | .get | .head | .put | .post | .connect => true
  | .trace | .options | .delete | .lock | .mkcol | .copy | .move => false

namespace Popd

variable (s : Popd) (p : Nat)

/-- The host is no address, no fresh record tells its address, and no query can be sent. -/
def Unresolved (host : HostPort) : Prop :=
  (inetAton host.ipAddr).getD 0 = 0 ∧
    (∀ result, dnsCacheLookupByHostname s.dnsCache host.ipAddr = some result →
      result.validityEndTime < (s.answers s.calls).time) ∧
    (s.answers (s.calls + 1)).sendto = false

/-- The request names no host, or one whose address cannot be had. -/
def HostMissing (bytes : List UInt8) : Prop :=
  hostNamed bytes = .ok none ∨ ∃ host, hostNamed bytes = .ok (some host) ∧ s.Unresolved host

/-- What the peer has read is a request for a new connection, and its host is not found. -/
def Refuses (peer : Peer) : Prop :=
  (∀ q paired, peer.pairedPeer = some q → s.peers q = some paired →
    paired.tcpClientStatus = .idle) ∧
  ∃ method, popHttpProxyMethodMatch peer.recvBuffer = some method ∧ asksForHost method = true ∧
    s.HostMissing peer.recvBuffer

/-- The partner of `p` that `p`'s messages go to cannot be written to, and is paired with `p`. -/
def PartnerBreaks (peer : Peer) : Prop :=
  ∃ q paired, peer.pairedPeer = some q ∧ s.peers q = some paired ∧ peer.Forwards paired ∧
    paired.pairedPeer = some p ∧
    writeFails s.answers paired.sockfd s.calls (paired.writeFifo ++ [peer.recvBuffer])

/-- The message `p` has read tears `p` down: the partner it goes to cannot be written to, or it
is a request for a new connection that has to be refused. -/
inductive Rejects : Prop
  | forward {peer : Peer} : s.peers p = some peer → peer.serviceType = .httpProxy →
      s.PartnerBreaks p peer → Rejects
  | request {peer : Peer} : s.peers p = some peer → peer.serviceType = .httpProxy →
      peer.tcpPeerType = .client → s.Refuses peer → Rejects

/-- None of the messages the read loop handles, with `n` turns left, tears `p` down. -/
def KeepsMessages : Nat → Popd → Prop
  | 0, _ => True
  | n + 1, s => ∀ s₁, readOnce p s = .ok (.message, s₁) → ¬ s₁.Rejects p ∧
      ∀ s₂, popHttpProxyMessageDeal p s₁ = .ok ((), s₂) → KeepsMessages n s₂

/-- A read of the loop fails for good. -/
def ReadBreaks : Nat → Popd → Prop
  | 0, _ => False
  | n + 1, s => (∃ s₁, readOnce p s = .ok (.broken, s₁)) ∨
      ∃ s₁ s₂, readOnce p s = .ok (.message, s₁) ∧ popHttpProxyMessageDeal p s₁ = .ok ((), s₂) ∧
        ReadBreaks n s₂

/-- A write to `p` fails for good. -/
def WriteBreaks : Prop :=
  ∃ peer, s.peers p = some peer ∧ writeFails s.answers peer.sockfd s.calls peer.writeFifo

end Popd

/-- No message tears the peer down, a failing read is the last thing reported, and so is a
failing write. -/
structure Popd.Calm (s : Popd) (p : Nat) (listenWrite read write error : Bool) : Prop where
  messages : read = true → Popd.KeepsMessages p POP_PACKET_READ_TIMES s
  broken : read = true → Popd.ReadBreaks p POP_PACKET_READ_TIMES s → write = false ∧ error = false
  written : ∀ s₁, (if read then popHttpProxyTcpRead p listenWrite else return ()) s = .ok ((), s₁) →
    write = true → s₁.WriteBreaks p → error = false
  errors : ∀ s₁ s₂, (if read then popHttpProxyTcpRead p listenWrite else return ()) s =
      .ok ((), s₁) → (if write then popHttpProxyTcpWrite p else return ()) s₁ = .ok ((), s₂) →
    error = true → Popd.KeepsMessages p POP_PACKET_READ_TIMES s₂

/-- Nothing follows a teardown. -/
def Spared (trace : List Act) : Prop := Act.teardown ∉ trace.dropLast

section ReadLoop

variable {s : Popd} {p : Nat}

theorem lift_bind {α β : Type} (y : Daemon α) (g : α → Daemon β) :
    (liftM (y >>= g) : Tracing β) = liftM y >>= fun a => liftM (g a) := by
  funext trace s
  rw [traced_bind, traced_lift, traced_lift]
  show ((y s >>= fun result => g result.1 result.2) >>= _) = _
  cases y s with
  | error fault => rfl
  | ok result => rfl

/-- The read loop of the peer whose acts are traced, turn by turn. -/
theorem readLoop_succ (n : Nat) : Tracing.readLoop p p (n + 1) = (do
    Tracing.actOn p p .read
    let outcome ← readOnce p
    match outcome with
    | .out => return true
    | .broken => do
      Tracing.popTcpClosePairedPeer p p
      return false
    | .message => do
      Tracing.popHttpProxyMessageDeal p p
      Tracing.readLoop p p n) := by
  rw [Tracing.readLoop, readOnce]
  simp only [lift_bind, bind_assoc]
  congr 1
  funext _
  congr 1
  funext answer
  congr 1
  funext peer
  generalize (if peer.sockfd < 0 then [] else answer.read.take MAX_RECV_PACKET_SIZE) = bytes
  congr 1
  funext _
  by_cases empty : bytes = []
  · rw [if_pos empty, if_pos empty]
    by_cases retry : 0 ≤ peer.sockfd ∧ answer.retry = true
    · rw [if_pos retry, if_pos retry]
      rfl
    · rw [if_neg retry, if_neg retry]
      rfl
  · rw [if_neg empty, if_neg empty, lift_bind, bind_assoc]
    rfl

end ReadLoop

section Writes

variable {α : Type} {s : Popd} {subject p : Nat} {peer : Peer}

theorem adds_acts {x : Tracing α} {S : α → List Act → Popd → Prop} (a : Act)
    (rest : Adds x s fun b acts s' => S b ((if p = subject then [a] else []) ++ acts) s') :
    Adds (Tracing.actOn subject p a >>= fun _ => x) s S := by
  have first : Adds (Tracing.actOn subject p a) s fun _ acts s' =>
      acts = (if p = subject then [a] else []) ∧ s' = s := by
    unfold Tracing.actOn
    split
    · exact Adds.act ⟨rfl, rfl⟩
    · exact Adds.pure ⟨rfl, rfl⟩
  apply Adds.bind first
  rintro _ acts m ⟨rfl, rfl⟩
  exact rest

/-- Whether a teardown of `p` reaches the subject. -/
def Peer.Reaches (peer : Peer) (p subject : Nat) : Prop :=
  p = subject ∨ peer.pairedPeer = some subject

instance (peer : Peer) (p subject : Nat) : Decidable (peer.Reaches p subject) :=
  inferInstanceAs (Decidable (_ ∨ _))

theorem closePairedPeer_adds (found : s.peers p = some peer) :
    Adds (Tracing.popTcpClosePairedPeer subject p) s fun _ acts _ =>
      acts = if peer.Reaches p subject then [.teardown] else [] := by
  have closes : Adds (liftM (popTcpClosePairedPeer p) : Tracing Unit) s fun _ acts _ => acts = [] :=
    Adds.lift fun _ _ _ => rfl
  apply Adds.step
  intro same m loaded
  rw [load_found found] at loaded
  cases loaded
  by_cases reaches : peer.Reaches p subject
  · rw [if_pos reaches, if_pos (show p = subject ∨ peer.pairedPeer = some subject from reaches)]
    apply Adds.bind (Adds.act (R := fun _ acts m => acts = [Act.teardown] ∧ m = s) ⟨rfl, rfl⟩)
    rintro _ acts m ⟨rfl, rfl⟩
    exact closes.mono fun _ later _ none_ => by rw [none_]; rfl
  · rw [if_neg reaches, if_neg (show ¬ (p = subject ∨ peer.pairedPeer = some subject) from reaches)]
    exact closes

/-- The writes of the subject, and a teardown behind them if they fail. -/
theorem writeLoop_adds {n : Nat} (found : s.peers p = some peer)
    (turns : n = peer.writeFifo.length) :
    Adds (Tracing.writeLoop subject p n) s fun broken acts s' =>
      (broken = true ↔ writeFails s.answers peer.sockfd s.calls peer.writeFifo) ∧
      (broken = false → (s'.peers p).isSome) ∧
      ∃ writes, acts = writes ++
          (if broken = true ∧ peer.Reaches p subject then [.teardown] else []) ∧
        ∀ a ∈ writes, a = .write ∧ p = subject := by
  have write_only : ∀ a ∈ (if p = subject then [Act.write] else []), a = .write ∧ p = subject := by
    intro a member
    split at member
    next same => exact ⟨List.mem_singleton.mp member, same⟩
    next => cases member
  induction n generalizing s peer with
  | zero =>
      have empty : peer.writeFifo = [] := List.length_eq_zero_iff.mp turns.symm
      rw [empty]
      apply Adds.pure
      exact ⟨by simp [writeFails], fun _ => by rw [found]; rfl, [], by simp, by simp⟩
  | succ n ih =>
      cases fifo : peer.writeFifo with
      | nil =>
          rw [fifo] at turns
          cases turns
      | cons stream rest =>
          rw [Tracing.writeLoop]
          apply Adds.step
          intro same m loaded
          rw [load_found found] at loaded
          cases loaded
          rw [fifo]
          dsimp only
          apply adds_acts
          apply Adds.step
          intro answer m asked
          cases asked
          rw [writeFails]
          cases wrote : if peer.sockfd < 0 then none else (s.answers s.calls).write with
          | none =>
              dsimp only
              by_cases retry : 0 ≤ peer.sockfd ∧ (s.answers s.calls).retry = true
              · rw [if_pos retry]
                apply Adds.pure
                refine ⟨by simp [retry], fun _ => by rw [show _ = some peer from found]; rfl, _, ?_,
                  write_only⟩
                simp
              · rw [if_neg retry]
                apply Adds.bind (closePairedPeer_adds (s := { s with calls := s.calls + 1 }) found)
                rintro _ acts m rfl
                apply Adds.pure
                refine ⟨by simp [retry], by simp, _, ?_, write_only⟩
                simp
          | some num =>
              dsimp only
              by_cases part : num < stream.length
              · rw [if_pos part]
                apply Adds.step
                intro _ m stored
                rw [store_found (s := { s with calls := s.calls + 1 }) found] at stored
                cases stored
                apply Adds.pure
                refine ⟨by simp [Nat.not_le.mpr part], fun _ => by rw [put_self]; rfl, _, ?_,
                  write_only⟩
                simp
              · rw [if_neg part]
                apply Adds.step
                intro _ m stored
                rw [store_found (s := { s with calls := s.calls + 1 }) found] at stored
                cases stored
                have length : n = rest.length := by
                  rw [fifo, List.length_cons] at turns
                  exact Nat.succ_inj.mp turns
                apply (ih (put_self _ _) length).mono
                rintro broken acts s' ⟨fails, stays, writes, rfl, only⟩
                refine ⟨?_, stays, (if p = subject then [Act.write] else []) ++ writes, ?_, ?_⟩
                · rw [fails]
                  simp only [Nat.not_lt.mp part, true_and]
                  rfl
                · rw [List.append_assoc]
                  rfl
                · intro a member
                  rcases List.mem_append.mp member with first | later
                  · exact write_only a first
                  · exact only a later

/-- The last of these acts, and only that, is a teardown if `torn`. -/
def EndsTorn (torn : Prop) (acts : List Act) : Prop :=
  ∃ front last, acts = front ++ [last] ∧ Act.teardown ∉ front ∧ (last = .teardown ↔ torn)

theorem write_adds :
    Adds (Tracing.popHttpProxyTcpWrite p p) s fun _ acts _ => EndsTorn (s.WriteBreaks p) acts := by
  have plain : ∀ {writes : List Act}, (∀ a ∈ writes, a = .write ∧ p = p) → Act.teardown ∉ writes := by
    intro writes only member
    cases (only _ member).1
  apply Adds.step
  intro peer m loaded
  obtain ⟨found, unmoved⟩ := load_runs loaded
  rw [unmoved]
  have breaks : s.WriteBreaks p ↔ writeFails s.answers peer.sockfd s.calls peer.writeFifo := by
    constructor
    · rintro ⟨other, there, fails⟩
      cases found.symm.trans there
      exact fails
    · exact fun fails => ⟨peer, found, fails⟩
  apply Adds.bind (writeLoop_adds found rfl)
  rintro broken _ m ⟨fails, -, writes, rfl, only⟩
  cases broken with
  | true =>
      apply Adds.pure
      refine ⟨writes, .teardown, ?_, plain only, iff_of_true rfl (breaks.mpr (fails.mp rfl))⟩
      simp [Peer.Reaches]
  | false =>
      have stays : ¬ s.WriteBreaks p := fun torn => by cases fails.mpr (breaks.mp torn)
      apply adds_acts
      apply Adds.step
      intro _ _ _
      apply Adds.lift
      intro _ _ _
      exact ⟨writes, .register, by simp, plain only, iff_of_false (by simp) stays⟩

/-- Writing to the partner tears the subject down if the partner is still paired with it. -/
theorem partner_write_adds (found : s.peers p = some peer) (different : p ≠ subject) :
    Adds (Tracing.popHttpProxyTcpWrite subject p) s fun _ acts _ =>
      (peer.pairedPeer = some subject ∧ writeFails s.answers peer.sockfd s.calls peer.writeFifo ∧
        acts = [.teardown]) ∨
      (¬ (peer.pairedPeer = some subject ∧
        writeFails s.answers peer.sockfd s.calls peer.writeFifo) ∧ acts = []) := by
  apply Adds.step
  intro same m loaded
  rw [load_found found] at loaded
  cases loaded
  apply Adds.bind (writeLoop_adds found rfl)
  rintro broken _ m ⟨fails, -, writes, rfl, only⟩
  have none_ : writes = [] := by
    cases writes with
    | nil => rfl
    | cons a writes => exact absurd (only a List.mem_cons_self).2 different
  cases broken with
  | true =>
      apply Adds.pure
      rw [← fails]
      by_cases paired : peer.pairedPeer = some subject
      · exact .inl ⟨paired, rfl, by simp [none_, Peer.Reaches, paired]⟩
      · exact .inr ⟨fun both => paired both.1, by simp [none_, Peer.Reaches, paired, different]⟩
  | false =>
      apply adds_acts
      apply Adds.step
      intro _ _ _
      apply Adds.lift
      intro _ _ _
      rw [← fails]
      exact .inr ⟨by simp, by simp [none_, different]⟩

end Writes

section Messages

variable {s s' : Popd} {p q : Nat} {peer paired : Peer}

theorem ownClose_adds :
    Adds (Tracing.popTcpClosePairedPeer p p) s fun _ acts _ => acts = [.teardown] := by
  apply Adds.step
  intro peer m loaded
  rw [if_pos (show p = p ∨ peer.pairedPeer = some p from .inl rfl)]
  apply Adds.bind (Adds.act (R := fun _ acts _ => acts = [Act.teardown]) rfl)
  rintro _ acts m rfl
  exact Adds.lift fun _ _ _ => rfl

theorem requestError_adds : Adds (Tracing.requestError p p) s fun _ acts _ => acts = [.teardown] := by
  apply Adds.bind ownClose_adds
  rintro _ acts m rfl
  exact Adds.pure rfl

theorem check_forward {answer : Bool} (found : s.peers p = some peer)
    (runs : popCheckWhetherMsgForward p s = .ok (answer, s')) : s' = s ∧
      (answer = true ↔ ∃ q paired, peer.pairedPeer = some q ∧ s.peers q = some paired ∧
        peer.Forwards paired) := by
  obtain ⟨same, m, loaded, rest⟩ := runs_bind runs
  rw [load_found found] at loaded
  cases loaded
  cases partner : peer.pairedPeer with
  | none =>
      simp only [partner] at rest
      obtain ⟨rfl, rfl⟩ := runs_pure rest
      exact ⟨rfl, by simp⟩
  | some q =>
      simp only [partner] at rest
      obtain ⟨paired, m, other, rest⟩ := runs_bind rest
      obtain ⟨there, unchanged⟩ := load_runs other
      rw [unchanged] at rest
      have only : (∃ r other, some q = some r ∧ s.peers r = some other ∧ peer.Forwards other) ↔
          peer.Forwards paired := by
        constructor
        · rintro ⟨r, other, same, live, forwards⟩
          cases same
          cases there.symm.trans live
          exact forwards
        · exact fun forwards => ⟨q, paired, rfl, there, forwards⟩
      rw [only]
      by_cases first : peer.tcpPeerType = .client ∧ paired.tcpPeerType = .server ∧
          paired.tcpClientStatus = .establish
      · rw [if_pos first] at rest
        obtain ⟨rfl, rfl⟩ := runs_pure rest
        exact ⟨rfl, iff_of_true rfl (.inl first)⟩
      · rw [if_neg first] at rest
        by_cases second : peer.tcpPeerType = .server ∧ paired.tcpPeerType = .client ∧
            paired.tcpServerStatus = .established
        · rw [if_pos second] at rest
          obtain ⟨rfl, rfl⟩ := runs_pure rest
          exact ⟨rfl, iff_of_true rfl (.inr second)⟩
        · rw [if_neg second] at rest
          obtain ⟨rfl, rfl⟩ := runs_pure rest
          exact ⟨rfl, iff_of_false (by simp) fun either => either.elim first second⟩

theorem transpond_adds (found : s.peers p = some peer) (there : s.peers q = some paired)
    (different : q ≠ p) :
    Adds (Tracing.popTcpPacketTranspond p q p) s fun _ acts _ =>
      (paired.pairedPeer = some p ∧ writeFails s.answers paired.sockfd s.calls
          (paired.writeFifo ++ [peer.recvBuffer]) ∧ acts = [.teardown]) ∨
      (¬ (paired.pairedPeer = some p ∧ writeFails s.answers paired.sockfd s.calls
          (paired.writeFifo ++ [peer.recvBuffer])) ∧ acts = []) := by
  have pushed : ∀ u m, streamFifoPushDup q p s = .ok (u, m) → m.answers = s.answers ∧
      m.calls = s.calls ∧ m.peers q = some { paired with
        writeFifo := paired.writeFifo ++ [peer.recvBuffer] } := by
    intro u m runs
    obtain ⟨same, m₁, loaded, rest⟩ := runs_bind runs
    rw [load_found found] at loaded
    cases loaded
    obtain ⟨_, m₂, stored, noted⟩ := runs_bind rest
    rw [store_found there] at stored
    cases stored
    rw [runs_modify noted]
    exact ⟨rfl, rfl, put_self _ (s.inside there)⟩
  apply Adds.step
  intro u m runs
  obtain ⟨answers, calls, live⟩ := pushed u m runs
  have writes := partner_write_adds live different
  rw [answers, calls] at writes
  exact writes

/-- What is left of a host the cache or the name server is asked for. -/
theorem domainParseHost_refuses {ret : Int} {dropExpired : Bool} (found : s.peers p = some peer)
    (runs : domainParseHost p dropExpired s = .ok (ret, s')) :
    ret < 0 ↔ peer.remoteHostip = 0 ∧
      (∀ result, dnsCacheLookupByHostname s.dnsCache peer.remoteHostname = some result →
        result.validityEndTime < (s.answers s.calls).time) ∧
      (s.answers (s.calls + 1)).sendto = false := by
  -- a query is sent from a state in which the time was asked for and nothing else happened
  have queried : ∀ {m : Popd}, popGetHostByNameUnblock p m = .ok (ret, s') → m.peers = s.peers →
      m.answers = s.answers → m.calls = s.calls + 1 →
        (ret < 0 ↔ (s.answers (s.calls + 1)).sendto = false) := by
    intro m asks peers answers calls
    obtain ⟨same, m₁, loaded, rest⟩ := runs_bind asks
    rw [load_found (show m.peers p = some peer by rw [peers, found])] at loaded
    cases loaded
    obtain ⟨state, m₂, got, rest⟩ := runs_bind rest
    cases got
    obtain ⟨answer, m₃, asked, rest⟩ := runs_bind rest
    cases asked
    obtain ⟨⟨code, next, packet⟩, m₄, sent, rest⟩ := runs_bind rest
    have result := call_result sent
    simp only [getHostByNameUnblock, dnsQueryPacket_eq, ok_bind, answers, calls] at result
    obtain ⟨_, m₅, _, last⟩ := runs_bind rest
    cases sends : (s.answers (s.calls + 1)).sendto with
    | false =>
        have failed : code = -1 := by
          rw [sends] at result
          cases result
          rfl
        rw [failed, if_pos (by decide)] at last
        rw [(runs_pure last).1]
        decide
    | true =>
        have succeeded : code = 0 := by
          rw [sends] at result
          cases result
          rfl
        rw [succeeded, if_neg (by decide)] at last
        obtain ⟨_, m₆, _, last⟩ := runs_bind last
        obtain ⟨_, m₇, _, last⟩ := runs_bind last
        obtain ⟨_, m₈, _, last⟩ := runs_bind last
        rw [(runs_pure last).1]
        decide
  have started : ∀ {m : Popd}, (do
      popTcpClientEvent p .start
      return (0 : Int)) m = .ok (ret, s') → ret = 0 := by
    intro m starts
    obtain ⟨_, m₁, _, rest⟩ := runs_bind starts
    exact (runs_pure rest).1
  obtain ⟨same, m, loaded, rest⟩ := runs_bind runs
  rw [load_found found] at loaded
  cases loaded
  by_cases known : peer.remoteHostip = 0
  · rw [if_neg (by simpa using known)] at rest
    obtain ⟨answer, m, asked, rest⟩ := runs_bind rest
    cases asked
    obtain ⟨state, m, got, rest⟩ := runs_bind rest
    cases got
    cases cached : dnsCacheLookupByHostname s.dnsCache peer.remoteHostname with
    | none =>
        simp only [cached] at rest
        rw [queried rest rfl rfl rfl]
        simp [known]
    | some result =>
        simp only [cached] at rest
        by_cases fresh : (s.answers s.calls).time ≤ result.validityEndTime
        · rw [if_pos fresh] at rest
          obtain ⟨_, m₁, _, rest⟩ := runs_bind rest
          obtain ⟨_, m₂, _, rest⟩ := runs_bind rest
          rw [started rest]
          simp [Nat.not_lt.mpr fresh]
        · rw [if_neg fresh] at rest
          have expired : ret < 0 ↔ (s.answers (s.calls + 1)).sendto = false := by
            by_cases drops : dropExpired = true
            · rw [if_pos drops] at rest
              obtain ⟨_, m₁, dropped, rest⟩ := runs_bind rest
              cases dropped
              exact queried rest rfl rfl rfl
            · rw [if_neg drops] at rest
              exact queried rest rfl rfl rfl
          rw [expired]
          simp [known, Nat.not_le.mp fresh]
  · rw [if_pos known] at rest
    rw [started rest]
    simp [known]

/-- The host a request names is a matter of its bytes. -/
theorem requestHost_reads {host : Option HostPort} (found : s.peers p = some peer)
    (runs : requestHost p s = .ok (host, s')) :
    s' = s ∧ hostNamed peer.recvBuffer = .ok host := by
  obtain ⟨same, m, loaded, rest⟩ := runs_bind runs
  rw [load_found found] at loaded
  cases loaded
  obtain ⟨sline, m, parsed, rest⟩ := runs_bind rest
  have unmoved := call_runs parsed
  rw [unmoved] at rest
  rw [hostNamed, call_result parsed, ok_bind]
  cases sline with
  | none =>
      obtain ⟨rfl, rfl⟩ := runs_pure rest
      exact ⟨rfl, rfl⟩
  | some sline => exact ⟨call_runs rest, call_result rest⟩

/-- The peer is asked to find this host, and nobody has asked the system for anything yet. -/
structure Asking (s : Popd) (host : HostPort) (server : Nat) (m : Popd) : Prop where
  dnsCache : m.dnsCache = s.dnsCache
  answers : m.answers = s.answers
  calls : m.calls = s.calls
  there : ∃ peer, m.peers server = some peer ∧ peer.remoteHostname = host.ipAddr ∧
    peer.remoteHostip = (inetAton host.ipAddr).getD 0

section Asking

variable {host : HostPort} {server : Nat} {m m' : Popd} {u : Unit}

theorem asking_made (runs : popRemoteServerPeerMake host s = .ok (server, m)) :
    Asking s host server m := by
  obtain ⟨made, m₁, new, rest⟩ := runs_bind runs
  cases new
  obtain ⟨_, m₂, stored, last⟩ := runs_bind rest
  obtain ⟨rfl, rfl⟩ := runs_pure last
  rw [store_found (Function.update_self _ _ _)] at stored
  cases stored
  exact ⟨rfl, rfl, rfl, _, put_self _ _, rfl, rfl⟩

theorem Asking.store {f : Peer → Peer} (asking : Asking s host server m)
    (runs : store q f m = .ok (u, m')) (name : ∀ peer, (f peer).remoteHostname = peer.remoteHostname)
    (ip : ∀ peer, (f peer).remoteHostip = peer.remoteHostip) : Asking s host server m' := by
  obtain ⟨peer, there, named, placed⟩ := asking.there
  unfold Proxy.store at runs
  split at runs
  next other found =>
    cases runs
    refine ⟨asking.dnsCache, asking.answers, asking.calls, ?_⟩
    by_cases same : server = q
    · subst same
      cases found.symm.trans there
      exact ⟨_, put_self _ _, (name peer).trans named, (ip peer).trans placed⟩
    · exact ⟨peer, (put_of_ne _ same).trans there, named, placed⟩
  next => cases runs

theorem Asking.note {call : Popd → Call} (asking : Asking s host server m)
    (runs : note call m = .ok (u, m')) : Asking s host server m' := by
  rw [runs_modify runs]
  exact ⟨asking.dnsCache, asking.answers, asking.calls, asking.there⟩

theorem Asking.joined {p1 p2 : Nat} (asking : Asking s host server m)
    (runs : popPeersPaired p1 p2 m = .ok (u, m')) : Asking s host server m' := by
  obtain ⟨_, m₁, noted, rest⟩ := runs_bind runs
  obtain ⟨_, m₂, first, second⟩ := runs_bind rest
  have both := (asking.note noted).store first (fun _ => rfl) fun _ => rfl
  exact both.store second (fun _ => rfl) fun _ => rfl

theorem Asking.pushed {bytes : List UInt8} {origin : Option Nat} (asking : Asking s host server m)
    (runs : streamFifoPush q bytes origin m = .ok (u, m')) : Asking s host server m' := by
  obtain ⟨_, m₁, stored, noted⟩ := runs_bind runs
  exact (asking.store stored (fun _ => rfl) fun _ => rfl).note noted

theorem Asking.refuses {ret : Int} {dropExpired : Bool} (asking : Asking s host server m)
    (runs : domainParseHost server dropExpired m = .ok (ret, m')) : ret < 0 ↔ s.Unresolved host := by
  obtain ⟨peer, there, named, placed⟩ := asking.there
  rw [domainParseHost_refuses there runs, named, placed, asking.dnsCache, asking.answers,
    asking.calls]
  rfl

/-- The end of both callbacks. -/
theorem Asking.adds {dropExpired : Bool} (asking : Asking s host server m) :
    Adds (do
      let ret ← domainParseHost server dropExpired
      if ret < 0 then Tracing.requestError p p else return 0 : Tracing Int) m fun _ acts _ =>
        (s.Unresolved host ∧ acts = [.teardown]) ∨ (¬ s.Unresolved host ∧ acts = []) := by
  apply Adds.step
  intro ret m₁ parsed
  have refuses := asking.refuses parsed
  by_cases failed : ret < 0
  · rw [if_pos failed]
    exact requestError_adds.mono fun _ acts _ torn => .inl ⟨refuses.mp failed, torn⟩
  · rw [if_neg failed]
    exact Adds.pure (.inr ⟨fun unresolved => failed (refuses.mpr unresolved), rfl⟩)

end Asking

theorem hostMissing_iff {bytes : List UInt8} {host : HostPort}
    (named : hostNamed bytes = .ok (some host)) : s.HostMissing bytes ↔ s.Unresolved host := by
  constructor
  · rintro (none_ | ⟨other, same, unresolved⟩)
    · cases named.symm.trans none_
    · cases named.symm.trans same
      exact unresolved
  · exact fun unresolved => .inr ⟨host, named, unresolved⟩

theorem requestGet_adds (found : s.peers p = some peer) :
    Adds (Tracing.popHttpProxyRequestGet p p) s fun _ acts _ =>
      (s.HostMissing peer.recvBuffer ∧ acts = [.teardown]) ∨
        (¬ s.HostMissing peer.recvBuffer ∧ acts = []) := by
  apply Adds.step
  intro host m asked
  obtain ⟨unmoved, named⟩ := requestHost_reads found asked
  rw [unmoved]
  cases host with
  | none => exact requestError_adds.mono fun _ acts _ torn => .inl ⟨.inl named, torn⟩
  | some host =>
      rw [hostMissing_iff named]
      apply Adds.step
      intro server m₁ made
      apply Adds.step
      intro _ m₂ joined
      apply Adds.step
      intro _ m₃ pushes
      have asking := (asking_made made).joined joined
      obtain ⟨_, m₄, loaded, pushed⟩ := runs_bind pushes
      rw [(load_runs loaded).2] at pushed
      apply Adds.step
      intro _ m₅ again
      rw [(load_runs again).2]
      apply Adds.step
      intro _ m₆ noted
      exact ((asking.pushed pushed).note noted).adds

theorem requestConnect_adds (found : s.peers p = some peer) :
    Adds (Tracing.popHttpProxyRequestConnect p p) s fun _ acts _ =>
      (s.HostMissing peer.recvBuffer ∧ acts = [.teardown]) ∨
        (¬ s.HostMissing peer.recvBuffer ∧ acts = []) := by
  apply Adds.step
  intro host m asked
  obtain ⟨unmoved, named⟩ := requestHost_reads found asked
  rw [unmoved]
  cases host with
  | none => exact requestError_adds.mono fun _ acts _ torn => .inl ⟨.inl named, torn⟩
  | some host =>
      rw [hostMissing_iff named]
      apply Adds.step
      intro server m₁ made
      apply Adds.step
      intro _ m₂ joined
      apply Adds.step
      intro _ m₃ pushed
      have asking := ((asking_made made).joined joined).pushed pushed
      apply Adds.step
      intro _ m₄ tunneled
      exact (asking.store tunneled (fun _ => rfl) fun _ => rfl).adds

theorem partnerBusy_reads {busy : Bool} (found : s.peers p = some peer)
    (runs : partnerBusy p s = .ok (busy, s')) : s' = s ∧ (busy = false ↔
      ∀ q paired, peer.pairedPeer = some q → s.peers q = some paired →
        paired.tcpClientStatus = .idle) := by
  obtain ⟨same, m, loaded, rest⟩ := runs_bind runs
  rw [load_found found] at loaded
  cases loaded
  cases partner : peer.pairedPeer with
  | none =>
      simp only [partner] at rest
      obtain ⟨rfl, rfl⟩ := runs_pure rest
      exact ⟨rfl, by simp⟩
  | some q =>
      simp only [partner] at rest
      obtain ⟨paired, m, other, last⟩ := runs_bind rest
      obtain ⟨there, unchanged⟩ := load_runs other
      rw [unchanged] at last
      obtain ⟨answer, moved⟩ := runs_pure last
      refine ⟨moved, ?_⟩
      rw [answer, decide_eq_false_iff_not, not_not]
      constructor
      · intro idle r peer' same live
        cases same
        cases there.symm.trans live
        exact idle
      · exact fun every => every q paired rfl there

theorem requestEvent_adds (found : s.peers p = some peer) :
    Adds (Tracing.popHttpProxyRequestEvent p p) s fun _ acts _ =>
      (s.Refuses peer ∧ acts = [.teardown]) ∨ (¬ s.Refuses peer ∧ acts = []) := by
  have pushes : ¬ s.Refuses peer → Adds (do
      streamFifoPushDup p p
      return 0 : Tracing Int) s fun _ acts _ =>
        (s.Refuses peer ∧ acts = [.teardown]) ∨ (¬ s.Refuses peer ∧ acts = []) := by
    intro accepted
    apply Adds.step
    intro _ _ _
    exact Adds.pure (.inr ⟨accepted, rfl⟩)
  apply Adds.step
  intro busy m asked
  obtain ⟨unmoved, idle⟩ := partnerBusy_reads found asked
  rw [unmoved]
  cases busy with
  | true =>
      apply pushes
      rintro ⟨spare, _⟩
      cases idle.mpr spare
  | false =>
      apply Adds.step
      intro same m loaded
      rw [load_found found] at loaded
      cases loaded
      have spare := idle.mp rfl
      cases known : popHttpProxyMethodMatch peer.recvBuffer with
      | none =>
          apply pushes
          rintro ⟨_, method, there, _⟩
          cases known.symm.trans there
      | some method =>
          have refuses : s.Refuses peer ↔
              asksForHost method = true ∧ s.HostMissing peer.recvBuffer := by
            constructor
            · rintro ⟨_, other, there, asks, missing⟩
              cases known.symm.trans there
              exact ⟨asks, missing⟩
            · rintro ⟨asks, missing⟩
              exact ⟨spare, method, known, asks, missing⟩
          rw [refuses]
          cases method with
          | get | head | put | post =>
              simp only [asksForHost, true_and]
              exact requestGet_adds found
          | connect =>
              simp only [asksForHost, true_and]
              exact requestConnect_adds found
          | trace | options | delete | lock | mkcol | copy | move =>
              exact Adds.pure (.inr ⟨by simp [asksForHost], rfl⟩)

theorem forward_adds (found : s.peers p = some peer)
    (forwards : ∃ q paired, peer.pairedPeer = some q ∧ s.peers q = some paired ∧
      peer.Forwards paired) :
    Adds (match peer.pairedPeer with
      | some q => Tracing.popTcpPacketTranspond p q p
      | none => return ()) s fun _ acts _ =>
        (s.PartnerBreaks p peer ∧ acts = [.teardown]) ∨
          (¬ s.PartnerBreaks p peer ∧ acts = []) := by
  obtain ⟨q, paired, partner, live, forwards⟩ := forwards
  have different : q ≠ p := by
    rintro rfl
    cases found.symm.trans live
    rcases forwards with ⟨client, server, _⟩ | ⟨server, client, _⟩
    · cases client.symm.trans server
    · cases client.symm.trans server
  have breaks : s.PartnerBreaks p peer ↔ paired.pairedPeer = some p ∧
      writeFails s.answers paired.sockfd s.calls (paired.writeFifo ++ [peer.recvBuffer]) := by
    constructor
    · rintro ⟨r, other, same, there, _, back, fails⟩
      cases partner.symm.trans same
      cases live.symm.trans there
      exact ⟨back, fails⟩
    · rintro ⟨back, fails⟩
      exact ⟨q, paired, partner, live, forwards, back, fails⟩
  rw [partner, breaks]
  apply (transpond_adds found live different).mono
  rintro _ acts _ (⟨back, fails, torn⟩ | quiet)
  · exact .inl ⟨⟨back, fails⟩, torn⟩
  · exact .inr quiet

/-- A message tears the peer down exactly if it is rejected. -/
theorem messageDeal_adds :
    Adds (Tracing.popHttpProxyMessageDeal p p) s fun _ acts _ =>
      (s.Rejects p ∧ acts = [.teardown]) ∨ (¬ s.Rejects p ∧ acts = []) := by
  apply Adds.step
  intro peer m loaded
  obtain ⟨found, unmoved⟩ := load_runs loaded
  rw [unmoved]
  have rejects : s.Rejects p ↔ peer.serviceType = .httpProxy ∧
      (s.PartnerBreaks p peer ∨ peer.tcpPeerType = .client ∧ s.Refuses peer) := by
    constructor
    · intro rejected
      cases rejected with
      | forward there service breaks =>
          cases found.symm.trans there
          exact ⟨service, .inl breaks⟩
      | request there service side refuses =>
          cases found.symm.trans there
          exact ⟨service, .inr ⟨side, refuses⟩⟩
    · rintro ⟨service, breaks | ⟨side, refuses⟩⟩
      · exact .forward found service breaks
      · exact .request found service side refuses
  rw [rejects]
  by_cases service : peer.serviceType = .httpProxy
  · rw [if_pos service]
    cases side : peer.tcpPeerType with
    | client =>
        apply Adds.step
        intro forward m checked
        obtain ⟨unmoved, forwards⟩ := check_forward found checked
        rw [unmoved]
        by_cases yes : forward = true
        · rw [if_pos yes]
          have accepts : ¬ s.Refuses peer := by
            rintro ⟨idle, _⟩
            obtain ⟨q, paired, partner, live, ⟨_, _, busy⟩ | ⟨server, _⟩⟩ := forwards.mp yes
            · cases (idle q paired partner live).symm.trans busy
            · cases side.symm.trans server
          apply (forward_adds found (forwards.mp yes)).mono
          rintro _ acts _ (⟨breaks, torn⟩ | ⟨holds, quiet⟩)
          · exact .inl ⟨⟨service, .inl breaks⟩, torn⟩
          · exact .inr ⟨fun rejected => rejected.2.elim holds fun refused => accepts refused.2, quiet⟩
        · rw [if_neg yes]
          have holds : ¬ s.PartnerBreaks p peer := by
            rintro ⟨q, paired, partner, live, goes, _⟩
            exact yes (forwards.mpr ⟨q, paired, partner, live, goes⟩)
          apply Adds.bind (requestEvent_adds found)
          rintro _ acts m (⟨refused, rfl⟩ | ⟨accepted, rfl⟩)
          · exact Adds.pure (.inl ⟨⟨service, .inr ⟨rfl, refused⟩⟩, rfl⟩)
          · exact Adds.pure (.inr ⟨fun rejected => rejected.2.elim holds fun refused =>
              accepted refused.2, rfl⟩)
    | server =>
        apply Adds.step
        intro forward m checked
        obtain ⟨unmoved, forwards⟩ := check_forward found checked
        rw [unmoved]
        by_cases yes : forward = true
        · rw [if_pos yes]
          apply (forward_adds found (forwards.mp yes)).mono
          rintro _ acts _ (⟨breaks, torn⟩ | ⟨holds, quiet⟩)
          · exact .inl ⟨⟨service, .inl breaks⟩, torn⟩
          · exact .inr ⟨fun rejected => rejected.2.elim holds fun refused => (by cases refused.1), quiet⟩
        · rw [if_neg yes]
          refine Adds.pure (.inr ⟨?_, rfl⟩)
          rintro ⟨_, ⟨q, paired, partner, live, goes, _⟩ | ⟨other, _⟩⟩
          · exact yes (forwards.mpr ⟨q, paired, partner, live, goes⟩)
          · cases other
    | unknown =>
        refine Adds.pure (.inr ⟨?_, rfl⟩)
        rintro ⟨_, ⟨q, paired, partner, live, ⟨other, _⟩ | ⟨other, _⟩, _⟩ | ⟨other, _⟩⟩
        · cases side.symm.trans other
        · cases side.symm.trans other
        · cases other
  · rw [if_neg service]
    exact Adds.pure (.inr ⟨fun both => service both.1, rfl⟩)

end Messages

section Phases

variable {s s₁ s₂ : Popd} {p n : Nat}

theorem keepsMessages_succ (read : readOnce p s = .ok (.message, s₁))
    (deals : popHttpProxyMessageDeal p s₁ = .ok ((), s₂)) :
    Popd.KeepsMessages p (n + 1) s ↔ ¬ s₁.Rejects p ∧ Popd.KeepsMessages p n s₂ := by
  rw [Popd.KeepsMessages]
  constructor
  · intro keeps
    obtain ⟨accepted, later⟩ := keeps s₁ read
    exact ⟨accepted, later s₂ deals⟩
  · rintro ⟨accepted, later⟩ m again
    cases read.symm.trans again
    refine ⟨accepted, fun m' again' => ?_⟩
    cases deals.symm.trans again'
    exact later

theorem readBreaks_succ (read : readOnce p s = .ok (.message, s₁))
    (deals : popHttpProxyMessageDeal p s₁ = .ok ((), s₂)) :
    Popd.ReadBreaks p (n + 1) s ↔ Popd.ReadBreaks p n s₂ := by
  rw [Popd.ReadBreaks]
  constructor
  · rintro (⟨m, other⟩ | ⟨m, m', again, again', breaks⟩)
    · cases read.symm.trans other
    · cases read.symm.trans again
      cases deals.symm.trans again'
      exact breaks
  · exact fun breaks => .inr ⟨s₁, s₂, read, deals, breaks⟩

/-- What the read loop leaves in the trace. -/
structure ReadTrace (keeps breaks : Prop) (out : Bool) (acts : List Act) : Prop where
  quiet : keeps → out = true → .teardown ∉ acts ∧ ¬ breaks
  torn : keeps → out = false → EndsTorn True acts ∧ breaks
  spoiled : ¬ keeps → .teardown ∈ acts ∧ (out = false → ¬ Spared acts)
  acts : out = false → acts ≠ []

theorem spared_append {f later : List Act} (torn : Act.teardown ∈ f) (more : later ≠ []) :
    ¬ Spared (f ++ later) := by
  intro spared
  apply spared
  rw [List.dropLast_append_of_ne_nil more]
  exact List.mem_append_left _ torn

theorem spared_left {f later : List Act} (spared : Spared (f ++ later)) : Spared f := by
  intro member
  apply spared
  by_cases more : later = []
  · rw [more, List.append_nil]
    exact member
  · rw [List.dropLast_append_of_ne_nil more]
    exact List.mem_append_left _ (List.dropLast_subset f member)

theorem spared_right {f later : List Act} (spared : Spared (f ++ later)) : Spared later := by
  intro member
  have more : later ≠ [] := by
    rintro rfl
    cases member
  apply spared
  rw [List.dropLast_append_of_ne_nil more]
  exact List.mem_append_right _ member

theorem readLoop_adds (n : Nat) :
    Adds (Tracing.readLoop p p n) s fun out acts _ =>
      ReadTrace (Popd.KeepsMessages p n s) (Popd.ReadBreaks p n s) out acts := by
  induction n generalizing s with
  | zero =>
      apply Adds.pure
      constructor
      · intro _ _
        exact ⟨by simp, id⟩
      · intro _ left
        cases left
      · intro spoiled
        exact absurd trivial spoiled
      · intro left
        cases left
  | succ n ih =>
      rw [readLoop_succ]
      apply adds_acts
      rw [if_pos rfl]
      apply Adds.step
      intro outcome s₁ read
      cases outcome with
      | out =>
          have keeps : Popd.KeepsMessages p (n + 1) s := by
            intro m again
            cases read.symm.trans again
          have holds : ¬ Popd.ReadBreaks p (n + 1) s := by
            rintro (⟨m, again⟩ | ⟨m, _, again, _⟩)
            · cases read.symm.trans again
            · cases read.symm.trans again
          apply Adds.pure
          constructor
          · intro _ _
            exact ⟨by simp, holds⟩
          · intro _ left
            cases left
          · intro spoiled
            exact absurd keeps spoiled
          · intro left
            cases left
      | broken =>
          have keeps : Popd.KeepsMessages p (n + 1) s := by
            intro m again
            cases read.symm.trans again
          apply Adds.bind ownClose_adds
          rintro _ acts m rfl
          apply Adds.pure
          constructor
          · intro _ stays
            cases stays
          · intro _ _
            exact ⟨⟨[.read], .teardown, rfl, by simp, by simp⟩, .inl ⟨s₁, read⟩⟩
          · intro spoiled
            exact absurd keeps spoiled
          · intro _
            simp
      | message =>
          apply Adds.bind (messageDeal_adds.erased (popHttpProxyMessageDeal_erases p))
          rintro _ acts s₂ ⟨deals, dealt⟩
          rw [keepsMessages_succ read deals, readBreaks_succ read deals]
          apply ih.mono
          intro out later s' trace
          rcases dealt with ⟨rejected, rfl⟩ | ⟨accepted, rfl⟩
          · constructor
            · intro keeps
              exact absurd rejected keeps.1
            · intro keeps
              exact absurd rejected keeps.1
            · intro _
              refine ⟨by simp, fun left => ?_⟩
              exact spared_append (f := [.read, .teardown]) (by simp) (trace.acts left)
            · intro _
              simp
          · constructor
            · intro keeps stays
              obtain ⟨quiet, holds⟩ := trace.quiet keeps.2 stays
              exact ⟨by simpa using quiet, holds⟩
            · intro keeps left
              obtain ⟨⟨front, last, rfl, clean, torn⟩, breaks⟩ := trace.torn keeps.2 left
              exact ⟨⟨.read :: front, last, rfl, by simpa using clean, torn⟩, breaks⟩
            · intro spoiled
              have later_spoiled : ¬ Popd.KeepsMessages p n s₂ := fun keeps =>
                spoiled ⟨accepted, keeps⟩
              obtain ⟨member, torn⟩ := trace.spoiled later_spoiled
              refine ⟨by simpa using member, fun left spared => torn left ?_⟩
              exact spared_right (f := [.read]) spared
            · intro _
              simp

/-- A read phase ends with a teardown or with the registration for the next event. -/
structure PhaseTrace (keeps breaks : Prop) (acts : List Act) : Prop where
  ends : keeps → EndsTorn breaks acts
  spoiled : ¬ keeps → ¬ Spared acts
  acts : acts ≠ []

theorem read_adds (write : Bool) :
    Adds (Tracing.popHttpProxyTcpRead p p write) s fun _ acts _ =>
      PhaseTrace (Popd.KeepsMessages p POP_PACKET_READ_TIMES s)
        (Popd.ReadBreaks p POP_PACKET_READ_TIMES s) acts := by
  apply Adds.bind (readLoop_adds POP_PACKET_READ_TIMES)
  intro out acts m trace
  cases out with
  | true =>
      rw [if_pos rfl]
      apply adds_acts
      rw [if_pos rfl]
      apply Adds.lift
      intro _ _ _
      constructor
      · intro keeps
        obtain ⟨quiet, holds⟩ := trace.quiet keeps rfl
        exact ⟨acts, .register, by simp, quiet, iff_of_false (by simp) holds⟩
      · intro spoiled
        exact spared_append (trace.spoiled spoiled).1 (by simp)
      · simp
  | false =>
      rw [if_neg (by decide)]
      apply Adds.pure
      rw [List.append_nil]
      constructor
      · intro keeps
        obtain ⟨⟨f, last, ended, clean, torn⟩, breaks⟩ := trace.torn keeps rfl
        exact ⟨f, last, ended, clean, torn.trans (iff_of_true trivial breaks)⟩
      · exact fun spoiled => (trace.spoiled spoiled).2 rfl
      · exact trace.acts rfl

theorem EndsTorn.spared {torn : Prop} {acts : List Act} (ends : EndsTorn torn acts) :
    Spared acts := by
  obtain ⟨f, last, rfl, clean, _⟩ := ends
  rwa [Spared, List.dropLast_concat]

theorem EndsTorn.quiet {torn : Prop} {acts : List Act} (ends : EndsTorn torn acts)
    (holds : ¬ torn) : Act.teardown ∉ acts := by
  obtain ⟨f, last, rfl, clean, iff⟩ := ends
  intro member
  rcases List.mem_append.mp member with early | late
  · exact clean early
  · exact holds (iff.mp (List.mem_singleton.mp late).symm)

theorem EndsTorn.torn {torn : Prop} {acts : List Act} (ends : EndsTorn torn acts) (holds : torn) :
    Act.teardown ∈ acts := by
  obtain ⟨f, last, rfl, _, iff⟩ := ends
  rw [iff.mpr holds]
  exact List.mem_append_right _ (List.mem_singleton.mpr rfl)

theorem EndsTorn.ne_nil {torn : Prop} {acts : List Act} (ends : EndsTorn torn acts) : acts ≠ [] := by
  obtain ⟨f, last, rfl, _⟩ := ends
  simp

theorem spared_after {f later : List Act} (quiet : Act.teardown ∉ f) :
    Spared (f ++ later) ↔ Spared later := by
  constructor
  · exact spared_right
  · intro spared member
    by_cases more : later = []
    · rw [more, List.append_nil] at member
      exact quiet (List.dropLast_subset f member)
    · rw [List.dropLast_append_of_ne_nil more] at member
      exact (List.mem_append.mp member).elim quiet spared

theorem readPhase_adds (listenWrite happened : Bool) :
    Adds (if happened then Tracing.popHttpProxyTcpRead p p listenWrite else return ()) s
      fun _ acts s₁ =>
        (if happened then popHttpProxyTcpRead p listenWrite else return ()) s = .ok ((), s₁) ∧
        (happened = false → acts = []) ∧
        (happened = true → PhaseTrace (Popd.KeepsMessages p POP_PACKET_READ_TIMES s)
          (Popd.ReadBreaks p POP_PACKET_READ_TIMES s) acts) := by
  cases happened with
  | false =>
      apply Adds.pure
      exact ⟨rfl, fun _ => rfl, fun impossible => by cases impossible⟩
  | true =>
      apply ((read_adds listenWrite).erased (popHttpProxyTcpRead_erases p listenWrite)).mono
      rintro _ acts s₁ ⟨ran, trace⟩
      exact ⟨ran, by simp, fun _ => trace⟩

theorem writePhase_adds (happened : Bool) :
    Adds (if happened then Tracing.popHttpProxyTcpWrite p p else return ()) s
      fun _ acts s₁ =>
        (if happened then popHttpProxyTcpWrite p else return ()) s = .ok ((), s₁) ∧
        (happened = false → acts = []) ∧ (happened = true → EndsTorn (s.WriteBreaks p) acts) := by
  cases happened with
  | false =>
      apply Adds.pure
      exact ⟨rfl, fun _ => rfl, fun impossible => by cases impossible⟩
  | true =>
      apply (write_adds.erased (popHttpProxyTcpWrite_erases p)).mono
      rintro _ acts s₁ ⟨ran, ends⟩
      exact ⟨ran, by simp, fun _ => ends⟩

theorem epollEvent_adds (listenWrite read write error : Bool) :
    Adds (Tracing.popHttpProxyTcpEpollEvent p p listenWrite read write error) s fun _ acts _ =>
      (Spared acts ↔ s.Calm p listenWrite read write error) := by
  apply Adds.bind (readPhase_adds listenWrite read)
  rintro _ reads s₁ ⟨ran₁, unread, readTrace⟩
  apply Adds.bind (writePhase_adds write)
  rintro _ writes s₂ ⟨ran₂, unwritten, writeTrace⟩
  apply (readPhase_adds listenWrite error).mono
  rintro _ errors s₃ ⟨_, calm, errorTrace⟩
  constructor
  · intro spared
    have behind := spared_right spared
    have messages : read = true → Popd.KeepsMessages p POP_PACKET_READ_TIMES s := by
      intro happened
      by_contra spoiled
      exact (readTrace happened).spoiled spoiled (spared_left spared)
    constructor
    · exact messages
    · intro happened breaks
      have ends := (readTrace happened).ends (messages happened)
      have nothing : writes ++ errors = [] := by
        by_contra more
        exact spared_append (ends.torn breaks) more spared
      obtain ⟨noWrites, noErrors⟩ := List.append_eq_nil_iff.mp nothing
      constructor
      · apply Bool.eq_false_iff.mpr
        intro wrote
        exact (writeTrace wrote).ne_nil noWrites
      · apply Bool.eq_false_iff.mpr
        intro failed
        exact (errorTrace failed).acts noErrors
    · intro m again wrote breaks
      cases ran₁.symm.trans again
      have nothing : errors = [] := by
        by_contra more
        exact spared_append ((writeTrace wrote).torn breaks) more behind
      apply Bool.eq_false_iff.mpr
      intro failed
      exact (errorTrace failed).acts nothing
    · intro m m' again again' failed
      cases ran₁.symm.trans again
      cases ran₂.symm.trans again'
      by_contra spoiled
      exact (errorTrace failed).spoiled spoiled (spared_right behind)
  · intro held
    have last : Spared errors := by
      cases failed : error with
      | false =>
          rw [calm failed]
          simp [Spared]
      | true =>
          exact ((errorTrace failed).ends (held.errors s₁ s₂ ran₁ ran₂ failed)).spared
    have behind : Spared (writes ++ errors) := by
      cases wrote : write with
      | false =>
          rw [unwritten wrote]
          exact last
      | true =>
          by_cases breaks : s₁.WriteBreaks p
          · rw [calm (held.written s₁ ran₁ wrote breaks), List.append_nil]
            exact (writeTrace wrote).spared
          · exact (spared_after ((writeTrace wrote).quiet breaks)).mpr last
    cases happened : read with
    | false =>
        rw [unread happened]
        exact behind
    | true =>
        have ends := (readTrace happened).ends (held.messages happened)
        by_cases breaks : Popd.ReadBreaks p POP_PACKET_READ_TIMES s
        · obtain ⟨noWrite, noError⟩ := held.broken happened breaks
          rw [unwritten noWrite, calm noError, List.append_nil, List.append_nil]
          exact ends.spared
        · exact (spared_after (ends.quiet breaks)).mpr behind

end Phases

/-- In a dispatch nothing is done for the peer after its teardown if and only if no message of
the peer tears it down and a read or a write that fails for good is the last thing reported. -/
theorem nothing_after_teardown_iff {s s' : Popd} {p : Nat} {listenWrite read write error : Bool}
    (runs : popHttpProxyTcpEpollEvent p listenWrite read write error s = .ok ((), s')) :
    Spared (traceOf (Tracing.popHttpProxyTcpEpollEvent p p listenWrite read write error) s) ↔
      s.Calm p listenWrite read write error := by
  have erases : Erases (Tracing.popHttpProxyTcpEpollEvent p p listenWrite read write error)
      (popHttpProxyTcpEpollEvent p listenWrite read write error) :=
    popHttpProxyTcpEpollEvent_erases p listenWrite read write error
  have traced := erases.runs runs
  obtain ⟨acts, grown, same⟩ := epollEvent_adds listenWrite read write error _ _ _ _ traced
  rw [grown]
  exact same

/-- What the handler of a socket is called with: the watch of the peer and the state in which
the watch is disarmed. -/
def Popd.delivered (s : Popd) (p : Nat) : Option (Watch × Popd) := do
  let watch ← (← s.peers p).tEvent
  let ran ← (store p (fun peer => { peer with tEvent := some { watch with armed := false } })
    s).toOption
  return (watch, ran.2)

section Samples

/-- The events, then `read` and `write` for the client that has asked for an unknown scheme. -/
def refusing (read write : Bool) : Option (Popd × Watch × Popd × List Act × Option (Unit × Popd)) := do
  let s ← replay
    (fun n => if n = 1 then { read := ascii "GET ftp://a/ HTTP/1.0\r\n\r\n" } else {})
    [.accept [(5, 1, 2)] false]
  let (watch, m) ← s.delivered 1
  return (s, watch, m,
    traceOf (Tracing.popHttpProxyTcpEpollEvent 1 1 watch.write read write false) m,
    (popHttpProxyTcpEpollEvent 1 watch.write read write false m).toOption)

theorem refusing_reaches {read write : Bool} {s m : Popd} {watch : Watch} {acts : List Act}
    {ran : Option (Unit × Popd)} (found : refusing read write = some (s, watch, m, acts, ran)) :
    system.Reachable s ∧ s.delivered 1 = some (watch, m) ∧
      acts = traceOf (Tracing.popHttpProxyTcpEpollEvent 1 1 watch.write read write false) m ∧
      ran = (popHttpProxyTcpEpollEvent 1 watch.write read write false m).toOption := by
  rw [refusing] at found
  obtain ⟨s₀, replayed, rest⟩ := Option.bind_eq_some_iff.mp found
  obtain ⟨⟨watch₀, m₀⟩, delivers, made⟩ := Option.bind_eq_some_iff.mp rest
  cases made
  exact ⟨replay_reachable replayed, delivers, rfl, rfl⟩

theorem nothing_after_teardown_sample : ∃ s watch m s', system.Reachable s ∧
    s.delivered 1 = some (watch, m) ∧
    popHttpProxyTcpEpollEvent 1 watch.write false true false m = .ok ((), s') ∧
    (Spared (traceOf (Tracing.popHttpProxyTcpEpollEvent 1 1 watch.write false true false) m) ↔
      m.Calm 1 watch.write false true false) := by
  have finishes : ((refusing false true).map fun found => found.2.2.2.2.isSome) = some true := by
    decide +kernel
  obtain ⟨⟨s, watch, m, acts, ran⟩, found, returned⟩ := Option.map_eq_some_iff.mp finishes
  obtain ⟨reachable, delivers, _, handled⟩ := refusing_reaches found
  obtain ⟨⟨u, s'⟩, result⟩ := Option.isSome_iff_exists.mp returned
  have runs := toOption_some (handled.symm.trans result)
  exact ⟨s, watch, m, s', reachable, delivers, runs, nothing_after_teardown_iff runs⟩

/-- The refused client is closed, read again and closed again. -/
theorem refused_closed_twice : ∃ s watch m s', system.Reachable s ∧
    s.enabled (.socket 1 true false false) ∧ s.delivered 1 = some (watch, m) ∧
    popHttpProxyTcpEpollEvent 1 watch.write true false false m = .ok ((), s') ∧
    ¬ Spared (traceOf (Tracing.popHttpProxyTcpEpollEvent 1 1 watch.write true false false) m) := by
  have finishes : ((refusing true false).map fun found =>
      (found.1.enabled (.socket 1 true false false), found.2.2.2.1, found.2.2.2.2.isSome)) =
      some (true, [.read, .teardown, .read, .teardown], true) := by
    decide +kernel
  obtain ⟨⟨s, watch, m, acts, ran⟩, found, facts⟩ := Option.map_eq_some_iff.mp finishes
  obtain ⟨reachable, delivers, trace, handled⟩ := refusing_reaches found
  simp only [Prod.mk.injEq] at facts
  obtain ⟨armed, done, returned⟩ := facts
  obtain ⟨⟨u, s'⟩, result⟩ := Option.isSome_iff_exists.mp returned
  have runs := toOption_some (handled.symm.trans result)
  refine ⟨s, watch, m, s', reachable, armed, delivers, runs, ?_⟩
  rw [← trace, done]
  simp [Spared]

end Samples

end Poplar.Proxy
