import Poplar.EventCtl.Types
import Poplar.Fault

/-!
# The operations of eventsCtl/event_ctl.c

Each system call takes its outcome as an argument: the clock value read, whether
`timerfd_settime` and `epoll_ctl` succeed, what `epoll_wait` reports. A loop over
a list is given as much fuel as there are addresses in use; running out of it
means the links are cyclic and the loop of the source never ends.
-/
namespace Poplar.EventCtl
open Chain (next prev setNext setPrev)

/-- One second in nanoseconds, under the name the source gives it. -/
def TIMER_SECOND_MICRO : Int := 1000000000

/-- The difference of two `long` seconds does not overflow: clock values and the
expiries made of them are not negative. -/
def timespecCmp (a b : Timespec) : Int :=
  if a.tvSec = b.tvSec then a.tvNsec - b.tvNsec else a.tvSec - b.tvSec

/-- `while(a.tv_nsec >= TIMER_SECOND_MICRO)` -/
def carryNsec : Nat → Timespec → Timespec
  | 0, a => a
  | fuel + 1, a =>
    if TIMER_SECOND_MICRO ≤ a.tvNsec then
      carryNsec fuel ⟨a.tvSec + 1, a.tvNsec - TIMER_SECOND_MICRO⟩
    else a

/-- `while(a.tv_nsec < 0)` -/
def borrowNsec : Nat → Timespec → Timespec
  | 0, a => a
  | fuel + 1, a =>
    if a.tvNsec < 0 then borrowNsec fuel ⟨a.tvSec - 1, a.tvNsec + TIMER_SECOND_MICRO⟩
    else a

/-- Neither loop can run more often than the nanoseconds hold whole seconds. -/
def timespecAdjust (a : Timespec) : Timespec :=
  let a := carryNsec (a.tvNsec / TIMER_SECOND_MICRO).toNat a
  let a := borrowNsec (-(a.tvNsec / TIMER_SECOND_MICRO)).toNat a
  if a.tvSec < 0 then ⟨0, 0⟩ else a

def eventTimerGet (s : Engine) : Option NodePtr :=
  let firstTimer := (s.list .timer).head
  let firstRear := (s.list .rear).head
  match firstRear, firstTimer with
  | some firstRear, some firstTimer =>
    if timespecCmp (s.heap firstRear).time.itValue (s.heap firstTimer).time.itValue > 0 then
      some firstTimer
    else some firstRear
  | some firstRear, none => some firstRear
  | none, firstTimer => firstTimer

/-- `_timerfd_settime`; every caller drops its return value. -/
def eventTimerSet (s : Engine) (node : NodePtr) (settimeOk : Bool) : Engine :=
  if settimeOk then { s with settime := (s.heap node).time }.setArmed (some node) else s

/-- `_timerfd_cancel` -/
def eventTimerCancel (s : Engine) (settimeOk : Bool) : Engine :=
  match s.master.eventTimer.event with
  | none => s
  | some _ => if settimeOk then { s with settime := .zero }.setArmed none else s

def eventTimerReset (s : Engine) (settimeOk : Bool) : Engine :=
  match eventTimerGet s with
  | some node => eventTimerSet s node settimeOk
  | none => eventTimerCancel s settimeOk

def eventListAdd (s : Engine) (list : ListName) (event : NodePtr) : Engine :=
  let l := s.list list
  let heap := setPrev (setNext s.heap event none) event l.tail
  match l.tail with
  | some tail => { s with heap := setNext heap tail (some event) }.setList list
      { head := l.head, tail := some event, length := l.length + 1 }
  | none => { s with heap := heap }.setList list
      { head := some event, tail := some event, length := l.length + 1 }

def eventListAddBefore (s : Engine) (list : ListName) (point event : NodePtr) : Engine :=
  let l := s.list list
  let heap := setNext s.heap event (some point)
  let heap := setPrev heap event (prev heap point)
  match prev heap point with
  | some before => { s with heap := setPrev (setNext heap before (some event)) point (some event) }.setList list
      { l with length := l.length + 1 }
  | none => { s with heap := setPrev heap point (some event) }.setList list
      { l with head := some event, length := l.length + 1 }

def eventListDelete (s : Engine) (list : ListName) (event : NodePtr) : Engine :=
  let l := s.list list
  let (heap, tail) := match next s.heap event with
    | some n => (setPrev s.heap n (prev s.heap event), l.tail)
    | none => (s.heap, prev s.heap event)
  let (heap, head) := match prev heap event with
    | some p => (setNext heap p (next heap event), l.head)
    | none => (heap, next heap event)
  { s with heap := setPrev (setNext heap event none) event none }.setList list
    { head := head, tail := tail, length := l.length - 1 }

def eventListAddUnuse (s : Engine) (event : NodePtr) : Except Fault Engine :=
  if prev s.heap event = none ∧ next s.heap event = none ∧ (s.heap event).type = .unused then
    .ok (eventListAdd s .unuse event)
  else .error .assertFail

/-- `event_list_empty` fused in: `none` is the NULL of an empty list. -/
def eventListTrimHead (s : Engine) (list : ListName) : Option (NodePtr × Engine) :=
  (s.list list).head.map fun head => (head, eventListDelete s list head)

def eventListLookupFrom (heap : Chain.Heap EventNode) (fd : Int) (type : EventType) :
    Nat → Option NodePtr → Except Fault (Option NodePtr)
  | _, none => .ok none
  | 0, some _ => .error .diverge
  | fuel + 1, some tmp =>
    if (heap tmp).fd = fd ∧ (heap tmp).type = type then .ok (some tmp)
    else eventListLookupFrom heap fd type fuel (next heap tmp)

/-- `event_list_lookup` reads the fields `fd` and `type` of its key node only. -/
def eventListLookup (s : Engine) (list : ListName) (fd : Int) (type : EventType) :
    Except Fault (Option NodePtr) :=
  eventListLookupFrom s.heap fd type s.brk (s.list list).head

/-- `calloc` answers the next address never used. -/
def allocNode (s : Engine) : NodePtr × Engine :=
  (s.brk, { s with
    heap := Function.update s.heap s.brk .zero
    brk := s.brk + 1
    master := { s.master with eventsAlloc := s.master.eventsAlloc + 1 } })

def eventNodeGet (s : Engine) (type : EventType) (func arg : Nat) : NodePtr × Engine :=
  let (event, s) := (eventListTrimHead s .unuse).getD (allocNode s)
  (event, s.modify event fun e =>
    { e with type := type, addType := type, func := func, arg := arg })

/-- `for(tt = list->head; tt; tt = tt->next) if(...) break;` -/
def firstLater (heap : Chain.Heap EventNode) (value : Timespec) :
    Nat → Option NodePtr → Except Fault (Option NodePtr)
  | _, none => .ok none
  | 0, some _ => .error .diverge
  | fuel + 1, some tt =>
    if timespecCmp value (heap tt).time.itValue < 0 then .ok (some tt)
    else firstLater heap value fuel (next heap tt)

/-- Arm the timer for a new node that is due before the armed one. -/
def armFor (s : Engine) (ev : NodePtr) (settimeOk : Bool) : Engine :=
  match s.master.eventTimer.event with
  | none => eventTimerSet s ev settimeOk
  | some armed =>
    if timespecCmp (s.heap armed).time.itValue (s.heap ev).time.itValue > 0 then
      eventTimerSet s ev settimeOk
    else s

/-- Find the place of `ev` in a list and link it in there. -/
def eventListAddDue (s : Engine) (list : ListName) (ev : NodePtr) : Except Fault Engine := do
  match ← firstLater s.heap (s.heap ev).time.itValue s.brk (s.list list).head with
  | some tt => return eventListAddBefore s list tt ev
  | none => return eventListAdd s list ev

def eventTimerAddItimerspec (s : Engine) (func : Nat) (type : EventType) (arg : Nat)
    (ts : Itimerspec) (settimeOk : Bool) : Except Fault (NodePtr × Engine) := do
  unless type = .timer ∨ type = .rear do throw .assertFail
  let list := if type = .timer then ListName.timer else ListName.rear
  let (ev, s) := eventNodeGet s type func arg
  let s := s.modify ev fun e => { e with time := ⟨⟨0, 0⟩, ts.itValue⟩ }
  let s ← eventListAddDue s list ev
  return (ev, armFor s ev settimeOk)

/-- The four public adders read the clock (`none` is a failing `clock_gettime`) and
differ in the unit of the delay and in the type of the node. -/
def eventAddAt (s : Engine) (now : Option Timespec) (func : Nat) (type : EventType) (arg : Nat)
    (sec nsec : Int) (settimeOk : Bool) : Except Fault (Option NodePtr × Engine) :=
  match now with
  | none => .ok (none, s)
  | some now => do
    let ts : Itimerspec :=
      ⟨⟨0, 0⟩, timespecAdjust ⟨now.tvSec + sec, now.tvNsec + nsec⟩⟩
    let (ev, s) ← eventTimerAddItimerspec s func type arg ts settimeOk
    return (some ev, s)

def eventTimerAdd (s : Engine) (now : Option Timespec) (func arg : Nat) (time : Int)
    (settimeOk : Bool) : Except Fault (Option NodePtr × Engine) :=
  eventAddAt s now func .timer arg time 0 settimeOk

def eventTimerAddMsec (s : Engine) (now : Option Timespec) (func arg : Nat) (time : Int)
    (settimeOk : Bool) : Except Fault (Option NodePtr × Engine) :=
  eventAddAt s now func .timer arg (time.tdiv 1000) (time.tmod 1000 * 1000000) settimeOk

def eventRearAdd (s : Engine) (now : Option Timespec) (func arg : Nat) (time : Int)
    (settimeOk : Bool) : Except Fault (Option NodePtr × Engine) :=
  eventAddAt s now func .rear arg time 0 settimeOk

def eventRearAddMsec (s : Engine) (now : Option Timespec) (func arg : Nat) (time : Int)
    (settimeOk : Bool) : Except Fault (Option NodePtr × Engine) :=
  eventAddAt s now func .rear arg (time.tdiv 1000) (time.tmod 1000 * 1000000) settimeOk

inductive EpollCtl where
  | add | mod | del
  deriving DecidableEq, Repr

/-- The kernel refuses to add a registered descriptor and to modify or delete one
that is not; it may refuse for other reasons (`ok` false). -/
def epollCtl (set : Int → Option EpollEvent) (op : EpollCtl) (fd : Int) (ev : EpollEvent)
    (ok : Bool) : Option (Int → Option EpollEvent) :=
  match op with
  | .add => if ok ∧ set fd = none then some (Function.update set fd (some ev)) else none
  | .mod => if ok ∧ set fd ≠ none then some (Function.update set fd (some ev)) else none
  | .del => if ok ∧ set fd ≠ none then some (Function.update set fd none) else none

/-- `hash_get` with `event_ref`, whose result both callers drop. -/
def hashInsert (s : Engine) (node : NodePtr) : Engine :=
  s.setHash (hashGet (hashFuncs s.heap) s.master.event (s.heap node) (some node)).2

def eventEpollAdd (s : Engine) (func arg epEvents : Nat) (fd : Int) (ctlOk : Bool) :
    Option NodePtr × Engine :=
  let (node, s) := eventNodeGet s .event func arg
  let ev : EpollEvent := ⟨epEvents, node⟩
  let s := s.modify node fun e => { e with listenEvent := ev, fd := fd }
  match epollCtl s.epoll .add fd ev ctlOk with
  | none => (none, s)
  | some set => (some node, hashInsert { s with epoll := set } node)

/-- Add a node's descriptor again; nothing in the daemon calls it. -/
def eventEpollReset (s : Engine) (node : NodePtr) (ctlOk : Bool) : Option NodePtr × Engine :=
  let s := s.modify node fun e => { e with type := .event }
  match epollCtl s.epoll .add (s.heap node).fd (s.heap node).listenEvent ctlOk with
  | none => (none, s)
  | some set => (some node, hashInsert { s with epoll := set } node)

def eventEpollLookupByFd (s : Engine) (fd : Int) : Except Fault (Option NodePtr) :=
  let tmp : EventNode := { EventNode.zero with fd := fd, type := .event }
  match hashLookup (hashFuncs s.heap) s.master.event tmp with
  | some node => .ok (some node)
  | none => eventListLookup s .ready fd .ready

def eventEpollMod (s : Engine) (func arg epEvents : Nat) (fd : Int) (ctlOk : Bool) :
    Except Fault (Option NodePtr × Engine) := do
  match ← eventEpollLookupByFd s fd with
  | none => return (none, s)
  | some node =>
    let ev : EpollEvent := ⟨epEvents, node⟩
    let s := s.modify node fun e => { e with listenEvent := ev, func := func, arg := arg }
    match epollCtl s.epoll .mod fd ev ctlOk with
    | none => return (none, s)
    | some set => return (some node, { s with epoll := set })

/-- `_event_epoll_del_node`; its return value is dropped. -/
def eventEpollDelNode (s : Engine) (node : NodePtr) (ctlOk : Bool) : Engine :=
  match epollCtl s.epoll .del (s.heap node).fd ⟨0, 0⟩ ctlOk with
  | none => s
  | some set => { s with epoll := set }

/-- Cancelling the armed node arms the next one. -/
def disarm (s : Engine) (event : NodePtr) (settimeOk : Bool) : Engine :=
  if s.master.eventTimer.event = some event then eventTimerReset s settimeOk else s

def retire (s : Engine) (event : NodePtr) : Except Fault Engine :=
  eventListAddUnuse (s.modify event fun e => { e with type := .unused }) event

def eventCancel (s : Engine) (event : NodePtr) (settimeOk ctlOk : Bool) : Except Fault Engine :=
  match (s.heap event).type with
  | .timer => retire (disarm (eventListDelete s .timer event) event settimeOk) event
  | .rear => retire (disarm (eventListDelete s .rear event) event settimeOk) event
  | .event =>
    let s := s.setHash (hashRelease (hashFuncs s.heap) s.master.event (s.heap event)).2
    retire (eventEpollDelNode s event ctlOk) event
  | .ready => retire (disarm (eventListDelete s .ready event) event settimeOk) event
  | .immediate => .ok s
  | .unused => .ok s

/-- The loop of `event_timer_process` from `timer` on. The step to the next node
reads `timer->next` after the node was moved to the ready list. -/
def eventTimerProcessFrom (list : ListName) (timenow : Timespec) :
    Nat → Option NodePtr → Nat → Engine → Except Fault (Nat × Engine)
  | _, none, ready, s => .ok (ready, s)
  | 0, some _, _, _ => .error .diverge
  | fuel + 1, some timer, ready, s =>
    if timespecCmp timenow (s.heap timer).time.itValue < 0 then .ok (ready, s)
    else
      let s := eventListDelete s list timer
      let s := s.modify timer fun e => { e with type := .ready }
      let s := eventListAdd s .ready timer
      eventTimerProcessFrom list timenow fuel (next s.heap timer) (ready + 1) s

def eventTimerProcess (s : Engine) (list : ListName) (timenow : Timespec) :
    Except Fault (Nat × Engine) :=
  eventTimerProcessFrom list timenow s.brk (s.list list).head 0 s

/-- `*fetch = *ev`, then the node goes back to where it came from. -/
def eventRun (s : Engine) (ev fetch : NodePtr) : Except Fault Engine :=
  let s := s.modify fetch fun _ => s.heap ev
  if (s.heap ev).addType = .event then
    .ok (hashInsert (s.modify ev fun e => { e with type := .event }) ev)
  else retire s ev

/-- One turn of the loop over the reported events. -/
def queueReported (s : Engine) (event : EpollEvent) : Engine :=
  let ev := event.ptr
  if (s.heap ev).type = .timer ∨ (s.heap ev).type = .rear ∨
      (s.heap ev).fd = s.master.eventTimer.timerfd then s
  else
    let s := s.modify ev fun e => { e with events := event.events }
    let s := s.setHash (hashRelease (hashFuncs s.heap) s.master.event (s.heap ev)).2
    let s := s.modify ev fun e => { e with type := .ready }
    eventListAdd s .ready ev

/-- The part of the loop of `event_waiting_process` between `epoll_wait` and the
second look at the ready list. -/
def eventWaitingPoll (s : Engine) (events : List EpollEvent) (now : Timespec)
    (settimeOk : Bool) : Except Fault Engine := do
  let s ← if 0 < events.length then do
      let (_, s) ← eventTimerProcess s .timer now
      let s := events.foldl queueReported s
      let (_, s) ← eventTimerProcess s .rear now
      pure s
    else pure s
  return eventTimerReset s settimeOk

/-- What one call of `epoll_wait` and the clock reading after it answer. -/
inductive EpollWait where
  | error
  | reported (events : List EpollEvent) (now : Option Timespec) (settimeOk : Bool)
  deriving DecidableEq, Repr

/-- Whether the loop has returned: with an event copied to `fetch`, with NULL, or not
yet. -/
inductive Waited where
  | fetched (ev : NodePtr)
  | null
  | waiting
  deriving DecidableEq, Repr

def runReady (s : Engine) (fetch : NodePtr) : Except Fault (Waited × Engine) :=
  match eventListTrimHead s .ready with
  | some (ev, s) => do return (.fetched ev, ← eventRun s ev fetch)
  | none => .ok (.waiting, s)

/-- One turn of `while(1)`. -/
def eventWaitingPass (s : Engine) (fetch : NodePtr) (wait : EpollWait) :
    Except Fault (Waited × Engine) :=
  match eventListTrimHead s .ready with
  | some (ev, s) => do return (.fetched ev, ← eventRun s ev fetch)
  | none =>
    match wait with
    | .error => .ok (.waiting, s)
    | .reported [] _ settimeOk => do
      runReady (← eventWaitingPoll s [] .zero settimeOk) fetch
    | .reported (_ :: _) none _ => .ok (.null, s)
    | .reported (event :: events) (some now) settimeOk => do
      runReady (← eventWaitingPoll s (event :: events) now settimeOk) fetch

/-- `waits` are the answers of `epoll_wait` in call order; with all of them used up the
process is still waiting. -/
def eventWaitingProcess (s : Engine) (fetch : NodePtr) :
    List EpollWait → Except Fault (Waited × Engine)
  | [] =>
    match eventListTrimHead s .ready with
    | some (ev, s) => do return (.fetched ev, ← eventRun s ev fetch)
    | none => .ok (.waiting, s)
  | wait :: waits => do
    match ← eventWaitingPass s fetch wait with
    | (.waiting, s) => eventWaitingProcess s fetch waits
    | result => return result

/-- A master that is all zeros but for its timer descriptor and its table. -/
def Engine.blank (timerfd : Int) : Engine :=
  { heap := fun _ => .zero
    brk := Engine.fetchPtr + 1
    master :=
      { eventsAlloc := 0
        eventTimer := ⟨timerfd, none⟩
        lists := fun _ => ⟨none, none, 0⟩
        event := hashCreateSize NodePtr EVENT_HASH_TABLE_SIZE }
    epoll := fun _ => none
    settime := .zero }

/-- The result of the registration is dropped. -/
def eventMasterCreate (timerfd : Int) (epEvents : Nat) (ctlOk : Bool) : Engine :=
  (eventEpollAdd (Engine.blank timerfd) 0 0 epEvents timerfd ctlOk).2

end Poplar.EventCtl
