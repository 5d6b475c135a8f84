import Poplar.Proxy.Outgoing
import Poplar.Proxy.Routines

/-!
# The send queue of the daemon refined

The daemon has the unread parts of the queued streams in a list. Here a peer it sends to
runs beside the queue in memory, and `write` gives both the same answers.
-/
namespace Poplar.Proxy

open Poplar.EventCtl Effects Outgoing

/-- What `write` on the socket answers. -/
def resultOf (sockfd : Int) (answer : Answer) : WriteResult :=
  if sockfd < 0 then .error
  else match answer.write with
    | some n => .wrote n
    | none => if answer.retry then .retry else .error

/-- The answers of `write` that `p` is about to get. -/
def Popd.results (s : Popd) (p i : Nat) : WriteResult :=
  resultOf (((s.peers p).map Peer.sockfd).getD (-1)) (s.answers (s.calls + i))

/-- The calls of `stream_fifo_push`, `_pop_http_proxy_tcp_write` and
`pop_tcp_packet_transpond` for a peer; a copy is of what `origin` read. -/
inductive SendCall where
  | push (stream : Stream) (origin : Option Nat)
  | write
  | packet (stream : Stream) (origin : Nat)

namespace SendCall

def writes : SendCall → Bool
  | push _ _ => false
  | write | packet _ _ => true

def send (results : Nat → WriteResult) : SendCall → Send
  | push stream _ => .push stream
  | write => .write results
  | packet stream _ => .packet stream results

def daemon (p : Nat) : SendCall → Daemon Unit
  | push stream origin => streamFifoPush p stream.unread origin
  | write => popHttpProxyTcpWrite p
  | packet _ origin => popTcpPacketTranspond p origin

/-- An `int` holds the length of what is pushed, and a copy is what its origin read. -/
def Fits (s : Popd) : SendCall → Prop
  | push stream _ => stream.unread.length < 2 ^ 31
  | write => True
  | packet stream origin => stream.unread.length < 2 ^ 31 ∧
    (s.peers origin).map Peer.recvBuffer = some stream.unread

instance (s : Popd) : (op : SendCall) → Decidable (op.Fits s)
  | push stream _ => inferInstanceAs (Decidable (stream.unread.length < 2 ^ 31))
  | write => inferInstanceAs (Decidable True)
  | packet stream origin => inferInstanceAs (Decidable (stream.unread.length < 2 ^ 31 ∧
      (s.peers origin).map Peer.recvBuffer = some stream.unread))

end SendCall

/-- `write` does not fail for good, and a registration succeeds. -/
def Answer.Serves (answer : Answer) : Prop :=
  (answer.write = none → answer.retry = true) ∧ answer.epollCtl = true

/-- The socket is open, and the event of the peer is one of it. -/
def Peer.Open (peer : Peer) : Prop :=
  0 ≤ peer.sockfd ∧ ∀ watch ∈ peer.tEvent, watch.fd = peer.sockfd

structure Mirror where
  sent : Sending
  popd : Popd

def mirrored (p : Nat) : Runs.System Mirror SendCall Fault where
  start m := sending.start m.sent ∧ (∀ i, (m.popd.answers i).Serves) ∧
    ∃ peer, m.popd.peers p = some peer ∧ peer.sockfd = m.sent.out.sockfd ∧ peer.writeFifo = [] ∧
      peer.sent = [] ∧ peer.Open
  guard m op := op.Fits m.popd ∧ (op.writes = true → m.sent.out.Registers)
  exec op m := do
    let sent ← m.sent.exec (op.send (m.popd.results p))
    let (_, popd) ← op.daemon p m.popd
    return ⟨sent, popd⟩

/-! ## The queue in memory -/

section Memory

variable {out out' : Outgoing} {cells : List (Nat × Stream)} {results : Nat → WriteResult}

theorem eventSet_kept {epEvents : Nat} {ctlOk : Bool}
    (set : out.eventSet epEvents ctlOk = .ok out') :
    out'.writeFifo = out.writeFifo ∧ out'.socket = out.socket := by
  unfold Outgoing.eventSet at set
  split at set
  next event _ =>
    obtain ⟨⟨node, master⟩, _, set⟩ := bind_eq_ok set
    dsimp only at set
    split at set
    next =>
      cases set
      exact ⟨rfl, rfl⟩
    next => cases set
  next =>
    cases set
    exact ⟨rfl, rfl⟩

theorem push_blocks (holds : out.writeFifo.Holds cells) {stream : Stream}
    (pushed : out.push stream = .ok out') :
    out'.writeFifo.blocks = out.writeFifo.blocks ++ [stream.unread] ∧
      out'.socket = out.socket := by
  obtain ⟨fifo, pushes, holds'⟩ := holds.push stream
  simp only [Outgoing.push] at pushed
  rw [pushes] at pushed
  cases pushed
  refine ⟨?_, rfl⟩
  rw [holds'.blocks, holds.blocks, List.map_append]
  rfl

/-- What a send gives the socket and leaves in the queue. -/
theorem write_drains (holds : out.writeFifo.Holds cells) (small : Counted cells)
    (noError : ∀ i, results i ≠ .error) {ret : Int}
    (wrote : out.popHttpProxyTcpWrite results true = .ok (ret, out')) :
    out'.socket = out.socket ++ (Drain.drain (took results) 0 out.writeFifo.blocks).1 ∧
      out'.writeFifo.blocks = (Drain.drain (took results) 0 out.writeFifo.blocks).2 := by
  obtain ⟨fifo, cells', holds', _, blocks, ran⟩ :=
    writeLoop_drains holds small noError holds.enough (i := 0)
  have offers : blocksOf cells = out.writeFifo.blocks := holds.blocks.symm
  rw [offers] at blocks ran
  have left : fifo.blocks = (Drain.drain (took results) 0 out.writeFifo.blocks).2 :=
    holds'.blocks.trans blocks
  simp only [Outgoing.popHttpProxyTcpWrite, ran, ok_bind, Bool.false_eq_true, if_false] at wrote
  split at wrote
  next =>
    obtain ⟨final, set, wrote⟩ := bind_eq_ok wrote
    cases wrote
    obtain ⟨kept, given⟩ := eventSet_kept set
    exact ⟨given, kept ▸ left⟩
  next =>
    obtain ⟨final, set, wrote⟩ := bind_eq_ok wrote
    cases wrote
    obtain ⟨kept, given⟩ := eventSet_kept set
    exact ⟨given, kept ▸ left⟩

end Memory

/-! ## The daemon -/

section Daemon

variable {p : Nat} {s : Popd} {peer : Peer}

theorem took_results (found : s.peers p = some peer) :
    took (s.results p) = offered s.answers s.calls peer.sockfd := by
  funext i
  rw [took, Popd.results, found, Option.map_some, Option.getD_some, resultOf, offered]
  by_cases closed : peer.sockfd < 0
  · rw [if_pos closed, if_pos closed]
  · rw [if_neg closed, if_neg closed]
    cases (s.answers (s.calls + i)).write with
    | none => cases (s.answers (s.calls + i)).retry <;> rfl
    | some num => rfl

theorem results_ne_error (found : s.peers p = some peer) (opened : 0 ≤ peer.sockfd)
    (serves : ∀ i, (s.answers i).Serves) (i : Nat) : s.results p i ≠ .error := by
  rw [Popd.results, found, Option.map_some, Option.getD_some, resultOf,
    if_neg (Int.not_lt.mpr opened)]
  cases wrote : (s.answers (s.calls + i)).write with
  | none => simp [(serves (s.calls + i)).1 wrote]
  | some num => simp

theorem writeLoop_returns {n : Nat} (found : s.peers p = some peer) (opened : 0 ≤ peer.sockfd)
    (serves : ∀ i, (s.answers i).Serves) :
    ∃ s', writeLoop p n s = .ok (false, s') ∧ s'.answers = s.answers := by
  induction n generalizing s peer with
  | zero => exact ⟨s, rfl, rfl⟩
  | succ n ih =>
      unfold writeLoop
      rw [bind_runs (load_found found)]
      cases fifo : peer.writeFifo with
      | nil => exact ⟨s, rfl, rfl⟩
      | cons stream streams =>
          dsimp only
          rw [bind_runs (rfl : ask s = .ok (s.answers s.calls, { s with calls := s.calls + 1 })),
            if_neg (Int.not_lt.mpr opened)]
          have there : ({ s with calls := s.calls + 1 } : Popd).peers p = some peer := found
          cases wrote : (s.answers s.calls).write with
          | none =>
              dsimp only
              rw [if_pos ⟨opened, (serves s.calls).1 wrote⟩]
              exact ⟨_, rfl, rfl⟩
          | some num =>
              dsimp only
              split
              next =>
                rw [bind_runs (store_found there _)]
                exact ⟨_, rfl, rfl⟩
              next =>
                rw [bind_runs (store_found there _)]
                exact ih (put_self _ _) opened serves

theorem eventSet_sets (func : EventFunc) (write : Bool) (found : s.peers p = some peer)
    (opened : peer.Open) (serves : ∀ i, (s.answers i).Serves) :
    ∃ s', eventSet p func write s = .ok ((), s') ∧ s'.answers = s.answers ∧
      s'.peers p = some { peer with tEvent := some ⟨func, write, peer.sockfd, true⟩ } := by
  unfold eventSet
  rw [bind_runs (load_found found)]
  cases event : peer.tEvent with
  | some watch =>
      dsimp only
      rw [if_pos (opened.2 watch event)]
      exact ⟨_, store_found found _, rfl, put_self _ _⟩
  | none =>
      dsimp only
      rw [bind_runs (rfl : ask s = .ok (s.answers s.calls, { s with calls := s.calls + 1 })),
        if_pos ⟨opened.1, (serves s.calls).2⟩]
      exact ⟨_, store_found (s := { s with calls := s.calls + 1 }) found _, rfl, put_self _ _⟩

/-- A send of the daemon drains the list, and watches for room exactly while bytes wait. -/
theorem popHttpProxyTcpWrite_serves (found : s.peers p = some peer) (opened : peer.Open)
    (serves : ∀ i, (s.answers i).Serves) :
    ∃ s' peer' watch, popHttpProxyTcpWrite p s = .ok ((), s') ∧ s'.answers = s.answers ∧
      s'.peers p = some peer' ∧ peer'.Open ∧ peer'.tEvent = some watch ∧
      peer'.sent = peer.sent ++ (Drain.drain (took (s.results p)) 0 peer.writeFifo).1 ∧
      peer'.writeFifo = (Drain.drain (took (s.results p)) 0 peer.writeFifo).2 ∧
      (watch.write = true ↔ peer'.writeFifo ≠ []) := by
  obtain ⟨m, ran, answers⟩ := writeLoop_returns (n := peer.writeFifo.length) found opened.1 serves
  have left := writeLoop_drained ran found (Nat.le_refl _) (Nat.add_zero s.calls).symm
  rw [← took_results found] at left
  obtain ⟨s', set, kept, there⟩ := eventSet_sets .httpProxyTcpEpollEvent
    (decide ((Drain.drain (took (s.results p)) 0 peer.writeFifo).2 ≠ [])) left
    opened (answers ▸ serves)
  refine ⟨s', _, _, ?_, kept.trans answers, there, ⟨opened.1, ?_⟩, rfl, rfl, rfl,
    decide_eq_true_iff⟩
  · unfold popHttpProxyTcpWrite
    rw [bind_runs (load_found found), bind_runs ran, if_neg Bool.false_ne_true,
      bind_runs (load_found left)]
    exact set
  · rintro watch ⟨⟩
    rfl

end Daemon

/-! ## Runs -/

namespace Mirror

variable {p : Nat} {m m' : Mirror}

/-- The list of the daemon is the unread parts of the queue in memory, and the sockets were
given the same. -/
def Agrees (p : Nat) (m : Mirror) : Prop :=
  m.sent.Sound ∧ (∀ i, (m.popd.answers i).Serves) ∧
    ∃ peer, m.popd.peers p = some peer ∧ peer.Open ∧
      peer.writeFifo = m.sent.out.writeFifo.blocks ∧ peer.sent = m.sent.out.socket

theorem blocks_waiting {cells : List (Nat × Stream)} {fifo : StreamFifo} (holds : fifo.Holds cells) :
    fifo.blocks ≠ [] ↔ fifo.head ≠ none := by
  rw [holds.blocks, holds.head]
  cases cells <;> simp

theorem push_daemon {s : Popd} {peer : Peer} (found : s.peers p = some peer) (bytes : List UInt8)
    (origin : Option Nat) :
    ∃ s', streamFifoPush p bytes origin s = .ok ((), s') ∧ s'.answers = s.answers ∧
      s'.calls = s.calls ∧ s'.peers p = some { peer with writeFifo := peer.writeFifo ++ [bytes] } := by
  unfold streamFifoPush
  rw [bind_runs (store_found found _)]
  exact ⟨_, rfl, rfl, rfl, put_self _ (s.inside found)⟩

/-- A send takes the same of both queues. -/
theorem writes_agree {out out' : Outgoing} {cells : List (Nat × Stream)} {s : Popd} {peer : Peer}
    {ret : Int} (holds : out.writeFifo.Holds cells) (small : Counted cells)
    (wrote : out.popHttpProxyTcpWrite (s.results p) true = .ok (ret, out'))
    (found : s.peers p = some peer) (opened : peer.Open) (serves : ∀ i, (s.answers i).Serves)
    (same : peer.writeFifo = out.writeFifo.blocks) (given : peer.sent = out.socket) :
    ∃ s' peer' watch, popHttpProxyTcpWrite p s = .ok ((), s') ∧ s'.answers = s.answers ∧
      s'.peers p = some peer' ∧ peer'.Open ∧ peer'.tEvent = some watch ∧
      (peer'.writeFifo = out'.writeFifo.blocks ∧ peer'.sent = out'.socket) ∧
      (watch.write = true ↔ peer'.writeFifo ≠ []) := by
  obtain ⟨s', peer', watch, ran, answers, there, opened', event, sent, left, waits⟩ :=
    popHttpProxyTcpWrite_serves found opened serves
  obtain ⟨socket, blocks⟩ :=
    write_drains holds small (results_ne_error found opened.1 serves) wrote
  refine ⟨s', peer', watch, ran, answers, there, opened', event, ⟨?_, ?_⟩, waits⟩
  · rw [left, blocks, same]
  · rw [sent, socket, same, given]

theorem Agrees.step (agrees : m.Agrees p) {op : SendCall} (guard : (mirrored p).guard m op) :
    ∃ m', (mirrored p).exec op m = .ok m' ∧ m'.Agrees p ∧
      (op.writes = true → ∃ peer watch, m'.popd.peers p = some peer ∧ peer.tEvent = some watch ∧
        (watch.write = true ↔ m'.sent.out.ListensWrite)) := by
  obtain ⟨sound, serves, peer, found, opened, same, given⟩ := agrees
  obtain ⟨fits, registers⟩ := guard
  have noError := results_ne_error found opened.1 serves
  have runs : ∀ {sent : Sending} {s : Popd},
      m.sent.exec (op.send (m.popd.results p)) = .ok sent → op.daemon p m.popd = .ok ((), s) →
      (mirrored p).exec op m = .ok ⟨sent, s⟩ := by
    intro sent s inMemory inDaemon
    simp only [mirrored, inMemory, inDaemon, ok_bind, pure_ok]
  obtain ⟨cells, holds, small, _⟩ := id sound
  cases op with
  | push stream origin =>
      have allowed : m.sent.Guard (.push stream) := fits
      obtain ⟨sent, inMemory, sound', _⟩ := sound.step allowed
      obtain ⟨s, inDaemon, answers, _, there⟩ := push_daemon found stream.unread origin
      refine ⟨_, runs inMemory inDaemon, ⟨sound', answers ▸ serves, _, there, opened, ?_⟩,
        by simp [SendCall.writes]⟩
      obtain ⟨out, pushed, same'⟩ := bind_eq_ok inMemory
      cases same'
      obtain ⟨blocks, socket⟩ := push_blocks holds pushed
      exact ⟨by rw [same, blocks], given.trans socket.symm⟩
  | write =>
      have allowed : m.sent.Guard (.write (m.popd.results p)) := ⟨noError, registers rfl⟩
      obtain ⟨sent, inMemory, sound', listens⟩ := sound.step allowed
      obtain ⟨⟨ret, out⟩, wrote, same'⟩ := bind_eq_ok inMemory
      cases same'
      obtain ⟨s, peer', watch, inDaemon, answers, there, opened', event, left, waits⟩ :=
        writes_agree holds small wrote found opened serves same given
      refine ⟨_, runs inMemory inDaemon, ⟨sound', answers ▸ serves, peer', there, opened', left⟩,
        fun _ => ⟨peer', watch, there, event, ?_⟩⟩
      obtain ⟨cells', holds', _⟩ := sound'
      rw [waits, left.1, blocks_waiting holds', listens rfl]
  | packet stream origin =>
      obtain ⟨length, copies⟩ := fits
      obtain ⟨source, read, bytes⟩ := Option.map_eq_some_iff.mp copies
      have allowed : m.sent.Guard (.packet stream (m.popd.results p)) :=
        ⟨length, noError, registers rfl⟩
      obtain ⟨sent, inMemory, sound', listens⟩ := sound.step allowed
      obtain ⟨⟨ret, out⟩, packet, same'⟩ := bind_eq_ok inMemory
      cases same'
      obtain ⟨pushedOut, pushed, packet⟩ := bind_eq_ok packet
      obtain ⟨⟨ret', out'⟩, wrote, same'⟩ := bind_eq_ok packet
      cases same'
      obtain ⟨fifo, mid, pushes, holdsMid, smallMid, _⟩ := push_ok holds stream
      obtain ⟨more, socket⟩ := push_blocks holds pushed
      cases pushes.symm.trans pushed
      obtain ⟨s₁, pushing, answers₁, calls₁, there₁⟩ :=
        push_daemon found stream.unread (some origin)
      have results : s₁.results p = m.popd.results p := by
        funext i
        rw [Popd.results, Popd.results, there₁, found, answers₁, calls₁]
        rfl
      obtain ⟨s, peer', watch, writing, answers, there, opened', event, left, waits⟩ :=
        writes_agree (s := s₁) holdsMid (smallMid small length) (results ▸ wrote) there₁ opened
          (answers₁ ▸ serves) (by rw [more, ← same]) (given.trans socket.symm)
      have inDaemon : SendCall.daemon p (.packet stream origin) m.popd = .ok ((), s) := by
        have copied : streamFifoPushDup p origin m.popd = .ok ((), s₁) := by
          unfold streamFifoPushDup
          rw [bind_runs (load_found read), bytes]
          exact pushing
        exact (bind_runs copied).trans writing
      refine ⟨_, runs inMemory inDaemon,
        ⟨sound', (answers.trans answers₁) ▸ serves, peer', there, opened', left⟩,
        fun _ => ⟨peer', watch, there, event, ?_⟩⟩
      obtain ⟨cells', holds', _⟩ := sound'
      rw [waits, left.1, blocks_waiting holds', listens rfl]

theorem reachable_agrees (reachable : (mirrored p).Reachable m) : m.Agrees p := by
  apply reachable.invariant
  · rintro m ⟨starts, serves, peer, found, _, empty, unsent, opened⟩
    refine ⟨Sending.reachable_sound (.start starts), serves, peer, found, opened, ?_, ?_⟩
    · rw [empty, starts.1]
      rfl
    · rw [unsent, starts.2.1]
  · intro m op m' agrees guard ran
    obtain ⟨final, ran', agrees', _⟩ := agrees.step guard
    exact Except.ok.inj (ran'.symm.trans ran) ▸ agrees'

/-- In every run of the calls on both, the list of the daemon is what waits in memory, the
sockets were given the same, and that with the list is what was pushed. Every call returns, and
one that sends makes both watch for room in the same case. -/
theorem reachable_mirrored (reachable : (mirrored p).Reachable m) :
    ∃ peer, m.popd.peers p = some peer ∧
      peer.writeFifo = m.sent.out.writeFifo.blocks ∧ peer.sent = m.sent.out.socket ∧
      peer.sent ++ peer.writeFifo.flatten = m.sent.pushed ∧
      ∀ op, (mirrored p).guard m op → ∃ m', (mirrored p).exec op m = .ok m' ∧
        (op.writes = true → ∃ peer watch, m'.popd.peers p = some peer ∧ peer.tEvent = some watch ∧
          (watch.write = true ↔ m'.sent.out.ListensWrite)) := by
  have agrees := reachable_agrees reachable
  obtain ⟨⟨cells, holds, _, kept⟩, _, peer, found, _, same, given⟩ := id agrees
  refine ⟨peer, found, same, given, ?_, fun op guard => ?_⟩
  · rw [same, given, holds.blocks]
    exact kept
  · obtain ⟨m', ran, _, watches⟩ := agrees.step guard
    exact ⟨m', ran, watches⟩

def admitsCall (m : Mirror) (op : SendCall) : Bool :=
  decide (op.Fits m.popd) && (!op.writes || m.sent.out.registersNow)

theorem admitsCall_guard (m : Mirror) (op : SendCall) (admitted : admitsCall m op = true) :
    (mirrored p).guard m op := by
  simp only [admitsCall, Bool.and_eq_true, Bool.or_eq_true, Bool.not_eq_true', decide_eq_true_eq]
    at admitted
  refine ⟨admitted.1, fun writes => Outgoing.registers_of_now ?_⟩
  rcases admitted.2 with not | now
  · cases not.symm.trans writes
  · exact now

/-- Two clients of the daemon, of which the second has sent something; from there on each
`write` takes two bytes. -/
def twoClients : Option Popd :=
  (replay (fun _ => { read := Http.ascii "abc" })
    [.accept [(5, 1, 2), (6, 1, 3)] false, .socket 2 true false false]).map
      fun s => { s with answers := fun _ => { write := some 2 } }

def sentTo5 : Sending where
  out := ⟨streamFifoNew, 5, none, eventMasterCreate 3 1 true, 11, 12, []⟩
  pushed := []

def someCalls : List SendCall :=
  [.push (Sending.streamOf [1, 2, 3]) none, .packet (Sending.streamOf (Http.ascii "abc")) 2, .write]

theorem reachable_mirrored_sample : ∃ m peer, (mirrored 1).Reachable m ∧
    m.popd.peers 1 = some peer ∧ m.sent.out.writeFifo.blocks = [Http.ascii "c"] ∧
    peer.writeFifo = m.sent.out.writeFifo.blocks ∧ peer.sent = m.sent.out.socket ∧
    peer.sent ++ peer.writeFifo.flatten = m.sent.pushed := by
  have accepted : twoClients.map (fun s => (s.peers 1).map fun peer =>
      decide (peer.sockfd = 5 ∧ peer.writeFifo = [] ∧ peer.sent = [] ∧
        peer.tEvent.map Watch.fd = some 5)) = some (some true) := by
    decide +kernel
  obtain ⟨s, made, facts⟩ := Option.map_eq_some_iff.mp accepted
  obtain ⟨client, found, facts⟩ := Option.map_eq_some_iff.mp facts
  obtain ⟨fd, empty, unsent, event⟩ := of_decide_eq_true facts
  obtain ⟨before, _, same⟩ := Option.map_eq_some_iff.mp made
  have start : (mirrored 1).Reachable ⟨sentTo5, s⟩ := by
    apply Runs.System.Reachable.start
    refine ⟨⟨rfl, rfl, rfl⟩, ?_, client, found, fd, empty, unsent, ?_, ?_⟩
    · intro i
      rw [← same]
      simp [Answer.Serves]
    · rw [fd]
      decide
    · intro watch there
      rw [Option.mem_def.mp there, Option.map_some, Option.some.injEq] at event
      rw [event, fd]
  have ran : (twoClients.bind fun s =>
      (mirrored 1).replay admitsCall id someCalls ⟨sentTo5, s⟩).map
        (fun m => m.sent.out.writeFifo.blocks) = some [Http.ascii "c"] := by
    decide +kernel
  rw [made, Option.bind_some] at ran
  obtain ⟨m, replayed, waits⟩ := Option.map_eq_some_iff.mp ran
  have reachable := start.replay admitsCall_guard replayed
  obtain ⟨peer, there, same, given, sent, _⟩ := reachable_mirrored reachable
  exact ⟨m, peer, reachable, there, waits, same, given, sent⟩

end Mirror

end Poplar.Proxy
