import Poplar.Apps.StreamFifo
import Poplar.EventCtl.Engine
import Poplar.Lib.Drain
import Poplar.Proxy.Refine
import Poplar.Proxy.Network

/-!
# Sending to a connected peer: _pop_http_proxy_tcp_write of apps/pop_network.c

The queue of the peer is a list in memory and its event a node of the event engine.
-/
namespace Poplar.Proxy

open Poplar.EventCtl

def EVENT_READ : Nat := 0x001
def EVENT_WRITE : Nat := 0x004
def EVENT_ONESHOT : Nat := 2 ^ 30

/-- One answer of `write`; `retry` and `error` tell whether `errno` is one of
`ERRNO_IO_RETRY`. A count beyond what was asked for stands for all of it. -/
inductive WriteResult where
  | wrote (num : Nat)
  | retry
  | error
  deriving DecidableEq, Repr

/-- What the function reads and writes of a peer, the event master, and what the socket was
given so far. `handler` and `self` are the words it registers: the function
`pop_http_proxy_tcp_epoll_event` and the peer. -/
structure Outgoing where
  writeFifo : StreamFifo
  sockfd : Int
  tEvent : Option NodePtr
  master : Engine
  handler : Nat
  self : Nat
  socket : List UInt8

namespace Outgoing

/-- `EVENT_SET(peer->t_event, …, peer->sockfd)` -/
def eventSet (out : Outgoing) (epEvents : Nat) (ctlOk : Bool) : Except Fault Outgoing :=
  match out.tEvent with
  | some event => do
    let (node, master) ← eventEpollMod out.master out.handler out.self epEvents out.sockfd ctlOk
    if node = some event then return { out with tEvent := node, master := master }
    else .error .assertFail
  | none =>
    let (node, master) := eventEpollAdd out.master out.handler out.self epEvents out.sockfd ctlOk
    .ok { out with tEvent := node, master := master }

/-- The loop, and whether it was left by an error; `results` are the answers of `write` in
call order. `writenum` is an `int`, and a negative one asks for more than there is. -/
def writeLoop (results : Nat → WriteResult) : Nat → Nat → Outgoing → Except Fault (Bool × Outgoing)
  | fuel, i, out =>
    match streamFifoHead out.writeFifo, fuel with
    | none, _ => .ok (false, out)
    | some _, 0 => .error .diverge
    | some s, fuel + 1 => do
      let node ← out.writeFifo.load s
      let stream := node.stream
      let writenum := (stream.endp - stream.getp) % 2 ^ 32
      if 2 ^ 31 ≤ writenum then .error .outOfObject
      else match results i with
        | .retry => return (false, out)
        | .error => return (true, out)
        | .wrote n =>
          let num := min n writenum
          let out := { out with socket := out.socket ++ (stream.data.drop stream.getp).take num }
          if num ≠ writenum then
            let stream ← streamForwardGetp stream num
            return (false, { out with
              writeFifo := out.writeFifo.put s (some { node with stream := stream }) })
          else
            let (popped, fifo) ← streamFifoPop out.writeFifo
            let fifo ← streamFree fifo popped
            writeLoop results fuel (i + 1) { out with writeFifo := fifo }

/-- After an error the pair is closed, which ends the peer. -/
def popHttpProxyTcpWrite (out : Outgoing) (results : Nat → WriteResult) (ctlOk : Bool) :
    Except Fault (Int × Outgoing) := do
  let (failed, out) ← writeLoop results out.writeFifo.brk 0 out
  if failed then return (-1, out)
  else if (streamFifoHead out.writeFifo).isSome then
    return (0, ← out.eventSet (EVENT_READ ||| EVENT_ONESHOT ||| EVENT_WRITE) ctlOk)
  else
    return (0, ← out.eventSet (EVENT_READ ||| EVENT_ONESHOT) ctlOk)

/-- `stream_fifo_push` of a stream just made -/
def push (out : Outgoing) (stream : Stream) : Except Fault Outgoing := do
  let (s, fifo) := out.writeFifo.alloc stream
  return { out with writeFifo := ← Poplar.streamFifoPush fifo s }

/-- `_pop_tcp_packet_to_write_fifo` -/
def popTcpPacketToWriteFifo (out : Outgoing) (stream : Stream) (results : Nat → WriteResult)
    (ctlOk : Bool) : Except Fault (Int × Outgoing) := do
  let out ← out.push stream
  let (_, out) ← out.popHttpProxyTcpWrite results ctlOk
  return (0, out)

/-- The kernel watches the socket for room to write. -/
def ListensWrite (out : Outgoing) : Prop :=
  ∃ registration, out.master.epoll out.sockfd = some registration ∧
    registration.events &&& EVENT_WRITE ≠ 0

/-- The registration call succeeds, whatever events it asks for. -/
def Registers (out : Outgoing) : Prop :=
  ∀ epEvents, ∃ event master,
    out.eventSet epEvents true = .ok { out with tEvent := some event, master := master }

end Outgoing

/-- A peer that is sent to, and all that was pushed on its queue. -/
structure Sending where
  out : Outgoing
  pushed : List UInt8

inductive Send where
  | push (stream : Stream)
  | write (results : Nat → WriteResult)
  | packet (stream : Stream) (results : Nat → WriteResult)

def Send.writes : Send → Bool
  | .push _ => false
  | .write _ | .packet _ _ => true

def Sending.exec : Send → Sending → Except Fault Sending
  | .push stream, r => do
    return { out := ← r.out.push stream, pushed := r.pushed ++ stream.unread }
  | .write results, r => do
    let (_, out) ← r.out.popHttpProxyTcpWrite results true
    return { r with out := out }
  | .packet stream results, r => do
    let (_, out) ← r.out.popTcpPacketToWriteFifo stream results true
    return { out := out, pushed := r.pushed ++ stream.unread }

/-- Streams are copies of a receive buffer or of a fixed text, far below what an `int`
counts. No `write` fails for good, and the registrations succeed. -/
def Sending.Guard (r : Sending) : Send → Prop
  | .push stream => stream.unread.length < 2 ^ 31
  | .write results => (∀ i, results i ≠ .error) ∧ r.out.Registers
  | .packet stream results => stream.unread.length < 2 ^ 31 ∧ (∀ i, results i ≠ .error) ∧
    r.out.Registers

def sending : Runs.System Sending Send Fault where
  start r := r.out.writeFifo = streamFifoNew ∧ r.out.socket = [] ∧ r.pushed = []
  guard := Sending.Guard
  exec := Sending.exec

namespace Outgoing

variable {out out' : Outgoing} {cells : List (Nat × Stream)} {results : Nat → WriteResult}
variable {epEvents : Nat}

/-- What the answers of `write` take of the blocks they are offered. -/
def took (results : Nat → WriteResult) (i : Nat) : Option Nat :=
  match results i with
  | .wrote n => some n
  | .retry | .error => none

/-- An `int` holds the length of each unread part. -/
def Counted (cells : List (Nat × Stream)) : Prop :=
  ∀ cell ∈ cells, cell.2.unread.length < 2 ^ 31

def blocksOf (cells : List (Nat × Stream)) : List (List UInt8) :=
  cells.map fun cell => cell.2.unread

theorem blocksOf_cons (cell : Nat × Stream) (cells : List (Nat × Stream)) :
    blocksOf (cell :: cells) = cell.2.unread :: blocksOf cells := rfl

/-- The loop drains the queue. -/
theorem writeLoop_drains (holds : out.writeFifo.Holds cells) (small : Counted cells)
    (noError : ∀ i, results i ≠ .error) {fuel i : Nat} (enough : cells.length ≤ fuel) :
    ∃ fifo cells', fifo.Holds cells' ∧ Counted cells' ∧
      blocksOf cells' = (Drain.drain (took results) i (blocksOf cells)).2 ∧
      writeLoop results fuel i out = .ok (false, { out with
        writeFifo := fifo
        socket := out.socket ++ (Drain.drain (took results) i (blocksOf cells)).1 }) := by
  induction cells generalizing out fuel i with
  | nil =>
      have head : streamFifoHead out.writeFifo = none := holds.head
      refine ⟨out.writeFifo, [], holds, small, rfl, ?_⟩
      unfold writeLoop
      simp [head, blocksOf, Drain.drain]
  | cons cell cells ih =>
      cases fuel with
      | zero => simp at enough
      | succ fuel =>
          have head : streamFifoHead out.writeFifo = some cell.1 := holds.head
          have node := StreamFifo.load_ok holds.linked.1
          have length := small cell (by simp)
          have writenum : (cell.2.endp - cell.2.getp) % 2 ^ 32 = cell.2.unread.length := by
            rw [← Stream.unread_length]
            omega
          have notNegative : ¬ 2 ^ 31 ≤ cell.2.unread.length := Nat.not_le.mpr length
          have smallRest : Counted cells := fun c member => small c (List.mem_cons_of_mem cell member)
          unfold writeLoop
          simp only [head, node, ok_bind, writenum, if_neg notNegative]
          cases answer : results i with
          | retry =>
              have fails : took results i = none := by rw [took, answer]
              have stays := Drain.drain_fails fails cell.2.unread (blocksOf cells)
              refine ⟨out.writeFifo, cell :: cells, holds, small, ?_, ?_⟩
              · rw [blocksOf_cons, stays]
              · rw [blocksOf_cons, stays, List.append_nil]
                rfl
          | error => exact absurd answer (noError i)
          | wrote n =>
              have takes : took results i = some n := by rw [took, answer]
              by_cases short : n < cell.2.unread.length
              · have split := Drain.drain_short takes short (blocksOf cells)
                have room : cell.2.getp + n ≤ cell.2.endp := by
                  rw [Stream.unread_length] at short
                  omega
                have moved := holds.put (cell.2.advance n room)
                refine ⟨_, _, moved, ?_, ?_, ?_⟩
                · intro c member
                  rcases List.mem_cons.mp member with rfl | later
                  · dsimp only
                    rw [Stream.unread_advance, List.length_drop]
                    omega
                  · exact smallRest c later
                · rw [blocksOf_cons, blocksOf_cons, split]
                  dsimp only
                  rw [Stream.unread_advance]
                · rw [blocksOf_cons, split]
                  have bytes : (cell.2.data.drop cell.2.getp).take n = cell.2.unread.take n := by
                    rw [Stream.data_drop, List.take_append_of_le_length (Nat.le_of_lt short)]
                  simp only [Nat.min_eq_left (Nat.le_of_lt short), bytes, streamForwardGetp, dif_pos room,
                    ne_eq, Nat.ne_of_lt short, not_false_eq_true, if_true, ok_bind]
                  rfl
              · have split := Drain.drain_whole takes short (blocksOf cells)
                obtain ⟨popped, freed, popping, freeing, rest⟩ := holds.pop
                have bytes : (cell.2.data.drop cell.2.getp).take cell.2.unread.length =
                    cell.2.unread := by
                  rw [Stream.data_drop, List.take_left]
                set out' : Outgoing := { out with
                  writeFifo := freed, socket := out.socket ++ cell.2.unread } with hout
                have again : out'.writeFifo.Holds cells := rest
                obtain ⟨fifo, cells', holds', small', blocks, ran⟩ :=
                  ih (i := i + 1) again smallRest (Nat.le_of_succ_le_succ enough)
                refine ⟨fifo, cells', holds', small', ?_, ?_⟩
                · rw [blocksOf_cons, split, blocks]
                · rw [blocksOf_cons, split]
                  simp only [Nat.min_eq_right (Nat.not_lt.mp short), bytes, ne_eq,
                    not_true_eq_false, if_false, popping, freeing, ok_bind]
                  refine ran.trans ?_
                  rw [hout, List.append_assoc]

theorem epollCtl_registers {set set' : Int → Option EpollEvent} {op : EpollCtl} {fd : Int}
    {ev : EpollEvent} {ok : Bool} (adds : op ≠ .del) (succeeds : epollCtl set op fd ev ok = some set') :
    set' fd = some ev := by
  cases op with
  | del => exact absurd rfl adds
  | add =>
      simp only [epollCtl, Option.ite_none_right_eq_some, Option.some.injEq] at succeeds
      rw [← succeeds.2, Function.update_self]
  | mod =>
      simp only [epollCtl, Option.ite_none_right_eq_some, Option.some.injEq] at succeeds
      rw [← succeeds.2, Function.update_self]

theorem eventEpollAdd_registers {s s' : Engine} {func arg : Nat} {fd : Int} {ok : Bool}
    {node : NodePtr} (succeeds : eventEpollAdd s func arg epEvents fd ok = (some node, s')) :
    ∃ registration, s'.epoll fd = some registration ∧ registration.events = epEvents := by
  unfold eventEpollAdd at succeeds
  dsimp only at succeeds
  split at succeeds
  next => cases succeeds
  next set added =>
    cases succeeds
    exact ⟨_, epollCtl_registers (by decide) added, rfl⟩

theorem eventEpollMod_registers {s s' : Engine} {func arg : Nat} {fd : Int} {ok : Bool}
    {node : NodePtr} (succeeds : eventEpollMod s func arg epEvents fd ok = .ok (some node, s')) :
    ∃ registration, s'.epoll fd = some registration ∧ registration.events = epEvents := by
  unfold eventEpollMod at succeeds
  obtain ⟨found, looked, succeeds⟩ := bind_eq_ok succeeds
  cases found with
  | none => cases succeeds
  | some node =>
      dsimp only at succeeds
      split at succeeds
      next => cases succeeds
      next set modified =>
        cases succeeds
        exact ⟨_, epollCtl_registers (by decide) modified, rfl⟩

theorem eventSet_registers {event : NodePtr} {master : Engine}
    (succeeds : out.eventSet epEvents true =
      .ok { out with tEvent := some event, master := master }) :
    ∃ registration, master.epoll out.sockfd = some registration ∧
      registration.events = epEvents := by
  unfold eventSet at succeeds
  cases before : out.tEvent with
  | none =>
      simp only [before] at succeeds
      cases added : eventEpollAdd out.master out.handler out.self epEvents out.sockfd true with
      | mk node master' =>
          rw [added] at succeeds
          simp only [Except.ok.injEq, Outgoing.mk.injEq] at succeeds
          obtain ⟨_, _, rfl, rfl, _⟩ := succeeds
          exact eventEpollAdd_registers added
  | some old =>
      simp only [before] at succeeds
      obtain ⟨⟨node, master'⟩, modified, succeeds⟩ := bind_eq_ok succeeds
      dsimp only at succeeds
      split at succeeds
      next =>
        simp only [pure_ok, Except.ok.injEq, Outgoing.mk.injEq] at succeeds
        obtain ⟨_, _, rfl, rfl, _⟩ := succeeds
        exact eventEpollMod_registers modified
      next => cases succeeds

/-- A registration looks at no queue and no socket. -/
theorem Registers.congr (registers : out.Registers) (fifo : StreamFifo) (socket : List UInt8) :
    { out with writeFifo := fifo, socket := socket }.Registers := by
  intro epEvents
  obtain ⟨event, master, succeeds⟩ := registers epEvents
  refine ⟨event, master, ?_⟩
  unfold eventSet at succeeds ⊢
  cases before : out.tEvent with
  | none =>
      simp only [before, Except.ok.injEq, Outgoing.mk.injEq, true_and] at succeeds ⊢
      exact succeeds
  | some old =>
      simp only [before] at succeeds ⊢
      obtain ⟨⟨node, master'⟩, modified, succeeds⟩ := bind_eq_ok succeeds
      simp only [modified, ok_bind]
      dsimp only at succeeds
      split at succeeds
      next same =>
        simp only [pure_ok, Except.ok.injEq, Outgoing.mk.injEq, true_and] at succeeds
        rw [if_pos same, pure_ok, succeeds.1, succeeds.2.1]
      next => cases succeeds

theorem popHttpProxyTcpWrite_sends (holds : out.writeFifo.Holds cells) (small : Counted cells)
    (noError : ∀ i, results i ≠ .error) (registers : out.Registers) :
    ∃ out' cells', out.popHttpProxyTcpWrite results true = .ok (0, out') ∧
      out'.writeFifo.Holds cells' ∧ Counted cells' ∧
      out'.socket ++ (blocksOf cells').flatten = out.socket ++ (blocksOf cells).flatten ∧
      (out'.ListensWrite ↔ out'.writeFifo.head ≠ none) := by
  obtain ⟨fifo, cells', holds', small', blocks, ran⟩ :=
    writeLoop_drains holds small noError holds.enough (i := 0)
  set taken := (Drain.drain (took results) 0 (blocksOf cells)).1
  have conserved : (out.socket ++ taken) ++ (blocksOf cells').flatten =
      out.socket ++ (blocksOf cells).flatten := by
    rw [List.append_assoc, blocks, Drain.drain_conserves]
  have again := registers.congr fifo (out.socket ++ taken)
  have asks : ∀ epEvents, ∃ out', { out with
      writeFifo := fifo, socket := out.socket ++ taken }.eventSet epEvents true = .ok out' ∧
      out'.writeFifo = fifo ∧ out'.socket = out.socket ++ taken ∧
      (out'.ListensWrite ↔ epEvents &&& EVENT_WRITE ≠ 0) := by
    intro epEvents
    obtain ⟨event, master, succeeds⟩ := again epEvents
    refine ⟨_, succeeds, rfl, rfl, ?_⟩
    obtain ⟨registration, registered, events⟩ := eventSet_registers succeeds
    constructor
    · rintro ⟨other, same, write⟩
      cases registered.symm.trans same
      exact events ▸ write
    · exact fun write => ⟨registration, registered, events ▸ write⟩
  simp only [popHttpProxyTcpWrite, ran, ok_bind]
  cases head : fifo.head with
  | none =>
      obtain ⟨out', set, rfl, sent, listens⟩ := asks (EVENT_READ ||| EVENT_ONESHOT)
      refine ⟨out', cells', ?_, holds', small', sent ▸ conserved, ?_⟩
      · simp only [Bool.false_eq_true, if_false, streamFifoHead, head, Option.isSome_none, set,
          ok_bind, pure_ok]
      · rw [listens, head]
        decide
  | some s =>
      obtain ⟨out', set, rfl, sent, listens⟩ := asks (EVENT_READ ||| EVENT_ONESHOT ||| EVENT_WRITE)
      refine ⟨out', cells', ?_, holds', small', sent ▸ conserved, ?_⟩
      · simp only [Bool.false_eq_true, if_false, streamFifoHead, head, Option.isSome_some, if_true,
          set, ok_bind, pure_ok]
      · rw [listens, head]
        simp [EVENT_READ, EVENT_WRITE, EVENT_ONESHOT]

theorem push_ok (holds : out.writeFifo.Holds cells) (stream : Stream) :
    ∃ fifo cells', out.push stream = .ok { out with writeFifo := fifo } ∧ fifo.Holds cells' ∧
      (Counted cells → stream.unread.length < 2 ^ 31 → Counted cells') ∧
      (blocksOf cells').flatten = (blocksOf cells).flatten ++ stream.unread := by
  obtain ⟨fifo, pushed, holds'⟩ := holds.push stream
  refine ⟨fifo, _, ?_, holds', ?_, ?_⟩
  · simp only [push]
    rw [pushed]
    rfl
  · intro small length c member
    rcases List.mem_append.mp member with old | new
    · exact small c old
    · rw [List.mem_singleton.mp new]
      exact length
  · simp [blocksOf]

end Outgoing

namespace Sending

open Outgoing

/-- Nothing pushed is lost: it was sent or waits in the queue. -/
def Sound (r : Sending) : Prop :=
  ∃ cells, r.out.writeFifo.Holds cells ∧ Counted cells ∧
    r.out.socket ++ (blocksOf cells).flatten = r.pushed

variable {r r' : Sending}

theorem Sound.step (sound : r.Sound) {op : Send} (guard : r.Guard op) :
    ∃ r', r.exec op = .ok r' ∧ r'.Sound ∧
      (op.writes = true → (r'.out.ListensWrite ↔ r'.out.writeFifo.head ≠ none)) := by
  obtain ⟨cells, holds, small, kept⟩ := sound
  cases op with
  | push stream =>
      obtain ⟨fifo, cells', pushed, holds', small', blocks⟩ := push_ok holds stream
      refine ⟨⟨{ r.out with writeFifo := fifo }, r.pushed ++ stream.unread⟩, ?_,
        ⟨cells', holds', small' small guard, ?_⟩, by simp [Send.writes]⟩
      · simp only [exec, pushed, ok_bind, pure_ok]
      · rw [blocks, ← List.append_assoc, kept]
  | write results =>
      obtain ⟨noError, registers⟩ := guard
      obtain ⟨out', cells', wrote, holds', small', sent, listens⟩ :=
        popHttpProxyTcpWrite_sends holds small noError registers
      refine ⟨⟨out', r.pushed⟩, ?_, ⟨cells', holds', small', sent.trans kept⟩, fun _ => listens⟩
      simp only [exec, wrote, ok_bind, pure_ok]
  | packet stream results =>
      obtain ⟨length, noError, registers⟩ := guard
      obtain ⟨fifo, mid, pushed, holdsMid, smallMid, blocks⟩ := push_ok holds stream
      have pushes : ({ r.out with writeFifo := fifo } : Outgoing).writeFifo.Holds mid := holdsMid
      obtain ⟨out', cells', wrote, holds', small', sent, listens⟩ :=
        popHttpProxyTcpWrite_sends pushes
          (smallMid small length) noError (registers.congr fifo r.out.socket)
      refine ⟨⟨out', r.pushed ++ stream.unread⟩, ?_,
        ⟨cells', holds', small', ?_⟩, fun _ => listens⟩
      · simp only [exec, popTcpPacketToWriteFifo, pushed, wrote, ok_bind, pure_ok]
      · rw [sent, blocks, ← List.append_assoc, kept]

theorem reachable_sound (reachable : sending.Reachable r) : r.Sound := by
  apply reachable.invariant
  · rintro r ⟨empty, sent, pushed⟩
    refine ⟨[], empty ▸ StreamFifo.new_holds, by simp [Counted], ?_⟩
    rw [sent, pushed]
    rfl
  · intro r op r' sound guard ran
    obtain ⟨final, ran', sound', _⟩ := sound.step guard
    exact Except.ok.inj (ran'.symm.trans ran) ▸ sound'

end Sending

namespace Outgoing

/-- What makes a registration succeed: the descriptor of the peer is not registered yet, or
it is registered with the node the peer has. -/
def registersNow (out : Outgoing) : Bool :=
  match out.tEvent with
  | none => (out.master.epoll out.sockfd).isNone
  | some event => (out.master.epoll out.sockfd).isSome &&
    decide ((eventEpollLookupByFd out.master out.sockfd).toOption = some (some event))

theorem eventNodeGet_epoll (s : Engine) (type : EventType) (func arg : Nat) :
    (eventNodeGet s type func arg).2.epoll = s.epoll := by
  unfold eventNodeGet eventListTrimHead
  cases (s.list .unuse).head with
  | none => rfl
  | some head =>
      simp only [Option.map_some, Option.getD_some, eventListDelete]
      cases Chain.next s.heap head <;> dsimp only <;> split <;> rfl

theorem registers_of_now {out : Outgoing} (now : out.registersNow = true) : out.Registers := by
  intro epEvents
  unfold registersNow at now
  unfold eventSet
  cases before : out.tEvent with
  | none =>
      simp only [before, Option.isNone_iff_eq_none] at now
      have free := now
      rw [← eventNodeGet_epoll out.master .event out.handler out.self] at free
      simp only [eventEpollAdd, Engine.modify_epoll, epollCtl, free, and_self, if_true]
      exact ⟨_, _, rfl⟩
  | some event =>
      simp only [before, Bool.and_eq_true, decide_eq_true_eq, Option.isSome_iff_ne_none] at now
      obtain ⟨registered, looked⟩ := now
      simp only [eventEpollMod, toOption_some looked, ok_bind, Engine.modify_epoll, epollCtl,
        registered, not_false_eq_true, ne_eq, and_self, if_true, pure_ok]
      exact ⟨event, _, rfl⟩

end Outgoing

namespace Sending

variable {r : Sending}

/-- In every run the bytes sent and the bytes waiting are the bytes pushed, in order; and
every call that writes returns, listening for room to write exactly while bytes wait. -/
theorem reachable_sends (reachable : sending.Reachable r) :
    r.out.socket ++ r.out.writeFifo.blocks.flatten = r.pushed ∧
      ∀ op, sending.guard r op → op.writes = true → ∃ r', sending.exec op r = .ok r' ∧
        (r'.out.ListensWrite ↔ streamFifoHead r'.out.writeFifo ≠ none) := by
  have sound := reachable_sound reachable
  constructor
  · obtain ⟨cells, holds, _, kept⟩ := sound
    rw [holds.blocks]
    exact kept
  · intro op guard writes
    obtain ⟨r', ran, _, listens⟩ := sound.step guard
    exact ⟨r', ran, listens writes⟩

theorem getp_unread (bytes : List UInt8) : 0 ≤ bytes.length := Nat.zero_le _

theorem endp_full (bytes : List UInt8) : bytes.length ≤ bytes.length := Nat.le_refl _

/-- A stream that holds exactly these bytes. -/
def streamOf (bytes : List UInt8) : Stream where
  data := bytes
  getp := 0
  endp := bytes.length
  getpValid := getp_unread bytes
  endpValid := endp_full bytes

/-- Streams to push and calls to make; a call that has used up its answers has to retry. -/
def someSends : List (List UInt8 ⊕ List WriteResult) :=
  [.inl [1, 2, 3], .inr [.wrote 2], .inl [4, 5], .inr [.wrote 1, .retry]]

def toSend : List UInt8 ⊕ List WriteResult → Send
  | .inl bytes => .push (streamOf bytes)
  | .inr results => .write fun i => results.getD i .retry

def admitsSend (r : Sending) : List UInt8 ⊕ List WriteResult → Bool
  | .inl bytes => decide ((streamOf bytes).unread.length < 2 ^ 31)
  | .inr results => decide (WriteResult.error ∉ results) && r.out.registersNow

theorem admitsSend_guard (r : Sending) (k : List UInt8 ⊕ List WriteResult)
    (admitted : admitsSend r k = true) : sending.guard r (toSend k) := by
  cases k with
  | inl bytes =>
      simp only [admitsSend, decide_eq_true_eq] at admitted
      exact admitted
  | inr results =>
      simp only [admitsSend, Bool.and_eq_true, decide_eq_true_eq] at admitted
      refine ⟨fun i same => ?_, Outgoing.registers_of_now admitted.2⟩
      dsimp only at same
      rw [List.getD_eq_getElem?_getD] at same
      cases found : results[i]? with
      | none => simp [found] at same
      | some result =>
          simp only [found, Option.getD_some] at same
          exact admitted.1 (same ▸ List.mem_of_getElem? found)

/-- A peer on socket 7 of a new event master. -/
def connected : Sending where
  out := ⟨streamFifoNew, 7, none, eventMasterCreate 3 1 true, 11, 12, []⟩
  pushed := []

theorem someSends_sent : ∃ r, sending.Reachable r ∧ r.out.socket = [1, 2, 3] ∧
    r.out.socket ++ r.out.writeFifo.blocks.flatten = r.pushed ∧ r.pushed = [1, 2, 3, 4, 5] := by
  have ran : (sending.replay admitsSend toSend someSends connected).map
      (fun r => (r.out.socket, r.pushed)) = some ([1, 2, 3], [1, 2, 3, 4, 5]) := by
    decide +kernel
  obtain ⟨r, replayed, same⟩ := Option.map_eq_some_iff.mp ran
  rw [Prod.mk.injEq] at same
  have start : sending.Reachable connected := .start ⟨rfl, rfl, rfl⟩
  have reachable := start.replay admitsSend_guard replayed
  exact ⟨r, reachable, same.1, (reachable_sends reachable).1, same.2⟩

end Sending

/-! ## The daemon -/

section Daemon

open Effects

variable {p : Nat} {s s' : Popd} {peer : Peer}

/-- What the answers of the operating system take of the blocks `p` offers. -/
def offered (answers : Nat → Answer) (base : Nat) (sockfd : Int) (i : Nat) : Option Nat :=
  if sockfd < 0 then none else (answers (base + i)).write

theorem store_peers {f : Peer → Peer} {u : Unit} (runs : store p f s = .ok (u, s'))
    (found : s.peers p = some peer) :
    s'.peers p = some (f peer) ∧ s'.answers = s.answers ∧ s'.calls = s.calls := by
  unfold store at runs
  split at runs
  next other there =>
    cases runs
    cases there.symm.trans found
    exact ⟨Function.update_self _ _ _, rfl, rfl⟩
  next => cases runs

/-- The peer with its fifo drained. -/
def Peer.drained (peer : Peer) (took : Nat → Option Nat) (i : Nat) : Peer :=
  { peer with
    writeFifo := (Drain.drain took i peer.writeFifo).2
    sent := peer.sent ++ (Drain.drain took i peer.writeFifo).1 }

theorem Peer.drained_kept {took : Nat → Option Nat} {i : Nat}
    (kept : Drain.drain took i peer.writeFifo = ([], peer.writeFifo)) :
    peer.drained took i = peer := by
  rw [Peer.drained, kept, List.append_nil]

/-- The loop over the list of unread parts drains it in the same way. -/
theorem writeLoop_drained {n i base : Nat}
    (runs : writeLoop p n s = .ok (false, s')) (found : s.peers p = some peer)
    (enough : peer.writeFifo.length ≤ n) (calls : s.calls = base + i) :
    s'.peers p = some (peer.drained (offered s.answers base peer.sockfd) i) := by
  induction n generalizing s peer i with
  | zero =>
      have empty : peer.writeFifo = [] := List.length_eq_zero_iff.mp (Nat.le_zero.mp enough)
      rw [(runs_pure runs).2, found, Peer.drained_kept (by rw [empty, Drain.drain])]
  | succ n ih =>
      unfold writeLoop at runs
      obtain ⟨loaded, s₁, loads, rest⟩ := runs_bind runs
      obtain ⟨there, rfl⟩ := load_runs loads
      cases there.symm.trans found
      cases fifo : peer.writeFifo with
      | nil =>
          simp only [fifo] at rest
          rw [(runs_pure rest).2, there, Peer.drained_kept (by rw [fifo, Drain.drain])]
      | cons stream streams =>
          simp only [fifo] at rest
          obtain ⟨answer, s₂, asked, rest⟩ := runs_bind rest
          cases asked
          have takes : offered s₁.answers base peer.sockfd i =
              if peer.sockfd < 0 then none else (s₁.answers s₁.calls).write := by
            rw [offered, calls]
          cases took : if peer.sockfd < 0 then none else (s₁.answers s₁.calls).write with
          | none =>
              rw [took] at takes
              simp only [took] at rest
              split at rest
              next =>
                have kept := Drain.drain_fails takes stream streams
                rw [(runs_pure rest).2, Peer.drained_kept (by rw [fifo, kept])]
                exact there
              next =>
                obtain ⟨_, s₃, closed, rest⟩ := runs_bind rest
                cases (runs_pure rest).1
          | some num =>
              rw [took] at takes
              simp only [took] at rest
              split at rest
              next short =>
                obtain ⟨_, s₃, stored, rest⟩ := runs_bind rest
                rw [(runs_pure rest).2, Peer.drained, fifo, Drain.drain_short takes short]
                exact (store_peers stored there).1
              next whole =>
                obtain ⟨_, s₃, stored, rest⟩ := runs_bind rest
                obtain ⟨left, answers, advanced⟩ := store_peers stored there
                have final := ih (i := i + 1) rest left
                  (by rw [fifo] at enough; exact Nat.le_of_succ_le_succ enough)
                  (by rw [advanced]; exact congrArg Nat.succ calls)
                rw [answers] at final
                rw [Peer.drained, fifo, Drain.drain_whole takes whole, ← List.append_assoc]
                exact final

end Daemon

end Poplar.Proxy
