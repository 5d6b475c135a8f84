import Poplar.Common.Hash
import Poplar.Lib.Chain

/-!
# Nodes, lists and the master of eventsCtl/event_ctl.h
-/
namespace Poplar.EventCtl

/-- Addresses of event nodes. -/
abbrev NodePtr := Nat

/-- `EVENT_TYPE_UNUSED` to `EVENT_TYPE_READY` -/
inductive EventType where
  | unused | timer | rear | event | immediate | ready
  deriving DecidableEq, Repr

structure Timespec where
  tvSec : Int
  tvNsec : Int
  deriving DecidableEq, Repr

structure Itimerspec where
  itInterval : Timespec
  itValue : Timespec
  deriving DecidableEq, Repr

def Timespec.zero : Timespec := ⟨0, 0⟩
def Itimerspec.zero : Itimerspec := ⟨.zero, .zero⟩

/-- `data` is the pointer member of the union, the only one the engine uses. -/
structure EpollEvent where
  events : Nat
  ptr : NodePtr
  deriving DecidableEq, Repr

/-- The single master a node belongs to is left out. `func` and `arg` are opaque
words, 0 being NULL. -/
structure EventNode where
  next : Option NodePtr
  prev : Option NodePtr
  type : EventType
  addType : EventType
  func : Nat
  events : Nat
  arg : Nat
  fd : Int
  listenEvent : EpollEvent
  time : Itimerspec
  deriving DecidableEq, Repr

/-- A cell as `calloc` answers it. Its two type words are written before anything
reads them; the zero there is no `EVENT_TYPE` and is shown as `unused`. -/
def EventNode.zero : EventNode :=
  { next := none, prev := none, type := .unused, addType := .unused, func := 0, events := 0,
    arg := 0, fd := 0, listenEvent := ⟨0, 0⟩, time := .zero }

instance : Chain.Linked EventNode where
  next := EventNode.next
  prev := EventNode.prev
  setNext node o := { node with next := o }
  setPrev node o := { node with prev := o }
  next_setNext _ _ := rfl
  prev_setNext _ _ := rfl
  next_setPrev _ _ := rfl
  prev_setPrev _ _ := rfl

structure EventList where
  head : Option NodePtr
  tail : Option NodePtr
  length : Int
  deriving DecidableEq, Repr

/-- The list members of the master; an `event_list *` argument is one of these. -/
inductive ListName where
  | timer | rear | unuse | ready
  deriving DecidableEq, Repr

structure EventTimer where
  timerfd : Int
  event : Option NodePtr

structure EventMaster where
  eventsAlloc : Nat
  eventTimer : EventTimer
  lists : ListName → EventList
  event : Hash NodePtr

/-- The master, the nodes it allocated, and the two kernel objects it drives: the
registrations of its epoll set and the setting of its timer descriptor. Addresses
from `brk` on were never answered by an allocation. -/
structure Engine where
  heap : Chain.Heap EventNode
  brk : Nat
  master : EventMaster
  epoll : Int → Option EpollEvent
  settime : Itimerspec

def EVENT_HASH_TABLE_SIZE : Nat := 2048

/-- `ev->fd`, converted to `unsigned int` -/
def eventHashKey (ev : EventNode) : Nat := (ev.fd % 2 ^ 32).toNat

def eventHashCmp (ev1 ev2 : EventNode) : Bool := ev1.fd == ev2.fd && ev1.type == ev2.type

def hashFuncs (heap : Chain.Heap EventNode) : HashFuncs NodePtr EventNode :=
  ⟨heap, eventHashKey, eventHashCmp⟩

namespace Engine

def list (s : Engine) (name : ListName) : EventList := s.master.lists name

def setList (s : Engine) (name : ListName) (list : EventList) : Engine :=
  { s with master := { s.master with lists := Function.update s.master.lists name list } }

/-- Assign fields of the node at `p`. -/
def modify (s : Engine) (p : NodePtr) (f : EventNode → EventNode) : Engine :=
  { s with heap := Function.update s.heap p (f (s.heap p)) }

def setArmed (s : Engine) (event : Option NodePtr) : Engine :=
  { s with master := { s.master with eventTimer := { s.master.eventTimer with event := event } } }

def setHash (s : Engine) (hash : Hash NodePtr) : Engine :=
  { s with master := { s.master with event := hash } }

/-- Where the daemon's main function keeps the event it fetched last. -/
def fetchPtr : Nat := 0

/-- The nodes ever allocated. -/
def Allocated (s : Engine) (p : Nat) : Prop := fetchPtr < p ∧ p < s.brk

instance (s : Engine) (p : Nat) : Decidable (s.Allocated p) :=
  inferInstanceAs (Decidable (_ ∧ _))

section Fields

variable (s : Engine) (p q : NodePtr) (f : EventNode → EventNode) (armed : Option NodePtr)
variable (hash : Hash NodePtr)

theorem modify_heap : (s.modify p f).heap = Function.update s.heap p (f (s.heap p)) := rfl
@[simp] theorem modify_self : (s.modify p f).heap p = f (s.heap p) := by simp [modify]
@[simp] theorem modify_brk : (s.modify p f).brk = s.brk := rfl
@[simp] theorem modify_master : (s.modify p f).master = s.master := rfl
@[simp] theorem modify_list : (s.modify p f).list = s.list := rfl
@[simp] theorem modify_epoll : (s.modify p f).epoll = s.epoll := rfl
@[simp] theorem modify_allocated : (s.modify p f).Allocated q ↔ s.Allocated q := Iff.rfl

theorem modify_of_ne (different : q ≠ p) : (s.modify p f).heap q = s.heap q := by
  simp [modify, different]

@[simp] theorem setHash_heap : (s.setHash hash).heap = s.heap := rfl
@[simp] theorem setHash_brk : (s.setHash hash).brk = s.brk := rfl
@[simp] theorem setHash_list : (s.setHash hash).list = s.list := rfl
@[simp] theorem setHash_epoll : (s.setHash hash).epoll = s.epoll := rfl
@[simp] theorem setHash_event : (s.setHash hash).master.event = hash := rfl
@[simp] theorem setHash_eventTimer :
    (s.setHash hash).master.eventTimer = s.master.eventTimer := rfl
@[simp] theorem setHash_allocated : (s.setHash hash).Allocated q ↔ s.Allocated q := Iff.rfl

@[simp] theorem setArmed_heap : (s.setArmed armed).heap = s.heap := rfl
@[simp] theorem setArmed_brk : (s.setArmed armed).brk = s.brk := rfl
@[simp] theorem setArmed_list : (s.setArmed armed).list = s.list := rfl
@[simp] theorem setArmed_epoll : (s.setArmed armed).epoll = s.epoll := rfl

end Fields

/-- The nodes of a list, from its head along the next links. -/
def nodes (s : Engine) (name : ListName) : List NodePtr :=
  Chain.walk s.heap s.brk (s.list name).head

end Engine

end Poplar.EventCtl
