import Poplar.EventCtl.Engine

/-!
# What the five containers hold

`Rep s queues hand` says that the four lists of the master are the chains of the
given nodes, that the hash holds the rest, and that each node is where its type
word says. At most one node, the one an operation has `hand` on, is in none of
them. Each list or hash operation is one lemma; the operations of the engine are
composed of these.
-/
namespace Poplar.EventCtl
open Chain (next prev setNext setPrev)

/-- A node without its links. -/
def EventNode.payload (e : EventNode) : EventNode := { e with next := none, prev := none }

theorem payload_blind : Chain.Blind EventNode.payload := ⟨fun _ _ => rfl, fun _ _ => rfl⟩

/-- Only links differ. -/
def SamePayload (h h' : Chain.Heap EventNode) : Prop :=
  ∀ q, (h' q).payload = (h q).payload

section Payload

variable {a b : EventNode} (same : a.payload = b.payload)
include same

theorem payload_type : a.type = b.type := by
  simpa only [EventNode.payload] using congrArg EventNode.type same

theorem payload_addType : a.addType = b.addType := by
  simpa only [EventNode.payload] using congrArg EventNode.addType same

theorem payload_fd : a.fd = b.fd := by
  simpa only [EventNode.payload] using congrArg EventNode.fd same

theorem payload_time : a.time = b.time := by
  simpa only [EventNode.payload] using congrArg EventNode.time same

end Payload

namespace SamePayload
variable {h h' : Chain.Heap EventNode} (same : SamePayload h h') (q : NodePtr)
include same

theorem type : (h' q).type = (h q).type := payload_type (same q)
theorem addType : (h' q).addType = (h q).addType := payload_addType (same q)
theorem fd : (h' q).fd = (h q).fd := payload_fd (same q)
theorem time : (h' q).time = (h q).time := payload_time (same q)

end SamePayload

/-- The type word of the nodes a list holds. -/
def ListName.type : ListName → EventType
  | .timer => .timer
  | .rear => .rear
  | .unuse => .unused
  | .ready => .ready

theorem ListName.type_injective {l l' : ListName} (same : l.type = l'.type) : l = l' := by
  cases l <;> cases l' <;> first | rfl | cases same

theorem ListName.type_ne_event (l : ListName) : l.type ≠ .event := by cases l <;> decide

/-- The lists of the master as plain lists of nodes. -/
abbrev Queues := ListName → List NodePtr

structure Rep (s : Engine) (queues : Queues) (hand : Option NodePtr) : Prop where
  chain : ∀ l, Chain.Holds s.heap (s.list l).head (s.list l).tail (queues l)
  length : ∀ l, (s.list l).length = (queues l).length
  listed : ∀ l n, n ∈ queues l ↔ (s.Allocated n ∧ hand ≠ some n) ∧ (s.heap n).type = l.type
  hashed : ∀ n, n ∈ s.master.event.datas ↔
    (s.Allocated n ∧ hand ≠ some n) ∧ (s.heap n).type = .event
  nodup : s.master.event.datas.Nodup
  keyed : s.master.event.Keyed (hashFuncs s.heap)
  typed : ∀ n, s.Allocated n → hand ≠ some n → (s.heap n).type ≠ .immediate
  loose : ∀ n, n ∈ s.master.event.datas ∨ hand = some n → next s.heap n = none ∧ prev s.heap n = none
  inHand : ∀ n, hand = some n → s.Allocated n
  alloc : s.brk = s.master.eventsAlloc + (Engine.fetchPtr + 1)

section Shape

variable (s : Engine) (l : ListName) (n q : NodePtr)

/-- What no list operation touches. -/
structure SameOutside (s s' : Engine) : Prop where
  payload : SamePayload s.heap s'.heap
  brk : s'.brk = s.brk
  event : s'.master.event = s.master.event
  eventsAlloc : s'.master.eventsAlloc = s.master.eventsAlloc
  eventTimer : s'.master.eventTimer = s.master.eventTimer
  epoll : s'.epoll = s.epoll
  settime : s'.settime = s.settime

theorem eventListAdd_heap :
    (eventListAdd s l n).heap = Chain.append s.heap (s.list l).tail n := by
  simp only [eventListAdd, Chain.append]
  cases (s.list l).tail <;> rfl

theorem eventListAdd_list :
    (eventListAdd s l n).list = Function.update s.list l
      { head := (s.list l).tail.elim (some n) fun _ => (s.list l).head
        tail := some n, length := (s.list l).length + 1 } := by
  simp only [eventListAdd]
  cases (s.list l).tail <;> rfl

theorem eventListAdd_outside : SameOutside s (eventListAdd s l n) := by
  refine ⟨fun q => ?_, ?_, ?_, ?_, ?_, ?_, ?_⟩
  · rw [eventListAdd_heap]; exact payload_blind.append _ _ _ _
  all_goals simp only [eventListAdd]; cases (s.list l).tail <;> rfl

theorem eventListAddBefore_heap :
    (eventListAddBefore s l q n).heap = Chain.insertBefore s.heap q n := by
  unfold eventListAddBefore Chain.insertBefore
  cases before : prev (setPrev (setNext s.heap n (some q)) n
    (prev (setNext s.heap n (some q)) q)) q <;> simp only [before] <;> rfl

theorem eventListAddBefore_list (different : n ≠ q) :
    (eventListAddBefore s l q n).list = Function.update s.list l
      { head := if prev s.heap q = none then some n else (s.list l).head
        tail := (s.list l).tail, length := (s.list l).length + 1 } := by
  have kept : prev (setPrev (setNext s.heap n (some q)) n
      (prev (setNext s.heap n (some q)) q)) q = prev s.heap q := by
    simp [Ne.symm different]
  simp only [eventListAddBefore, kept]
  cases prev s.heap q <;> rfl

theorem eventListAddBefore_outside : SameOutside s (eventListAddBefore s l q n) := by
  refine ⟨fun r => ?_, ?_, ?_, ?_, ?_, ?_, ?_⟩
  · rw [eventListAddBefore_heap]; exact payload_blind.insertBefore _ _ _ _
  all_goals simp only [eventListAddBefore]; split <;> rfl

theorem eventListDelete_heap : (eventListDelete s l n).heap = Chain.unlink s.heap n := by
  simp only [eventListDelete, Chain.unlink]
  cases next s.heap n <;> split <;> rename_i before <;> simp only [before] <;> rfl

theorem eventListDelete_list (apart : next s.heap n ≠ some n) :
    (eventListDelete s l n).list = Function.update s.list l
      { head := if prev s.heap n = none then next s.heap n else (s.list l).head
        tail := if next s.heap n = none then prev s.heap n else (s.list l).tail
        length := (s.list l).length - 1 } := by
  simp only [eventListDelete]
  cases hnext : next s.heap n with
  | none => cases hprev : prev s.heap n <;> simp [hnext] <;> rfl
  | some r =>
      have other : n ≠ r := fun same => apart (hnext.trans (congrArg some same.symm))
      have kept : prev (setPrev s.heap r (prev s.heap n)) n = prev s.heap n := by simp [other]
      simp only [kept]
      cases hprev : prev s.heap n <;> simp [hnext] <;> rfl

theorem eventListDelete_outside : SameOutside s (eventListDelete s l n) := by
  refine ⟨fun r => ?_, ?_, ?_, ?_, ?_, ?_, ?_⟩
  · rw [eventListDelete_heap]; exact payload_blind.unlink _ _ _
  all_goals simp only [eventListDelete]; cases next s.heap n <;> split <;> rfl

end Shape

theorem SameOutside.allocated {s s' : Engine} (same : SameOutside s s') (q : NodePtr) :
    s'.Allocated q ↔ s.Allocated q := by
  simp only [Engine.Allocated, same.brk]

namespace Rep

variable {s s' : Engine} {queues : Queues} {hand : Option NodePtr} {l l' : ListName} {n q : NodePtr}

theorem disjoint (rep : Rep s queues hand) (different : l' ≠ l) (r : NodePtr)
    (member : r ∈ queues l') : r ∉ queues l := fun also =>
  different (ListName.type_injective
    (((rep.listed l' r).mp member).2.symm.trans ((rep.listed l r).mp also).2))

theorem hashed_unlisted (rep : Rep s queues hand) (member : n ∈ s.master.event.datas)
    (l : ListName) : n ∉ queues l := fun also =>
  l.type_ne_event (((rep.listed l n).mp also).2.symm.trans ((rep.hashed n).mp member).2)

theorem hand_unlisted (rep : Rep s queues (some n)) (l : ListName) : n ∉ queues l := fun also =>
  ((rep.listed l n).mp also).1.2 rfl

/-- A node in no list is a chain of its own. -/
theorem single (rep : Rep s queues hand) (loose : n ∈ s.master.event.datas ∨ hand = some n) :
    Chain.Holds s.heap (some n) (some n) [n] :=
  Chain.holds_single.mpr (rep.loose n loose)

/-- Changes of other state, of words that place no node, and of memory that is no node. -/
theorem congr (rep : Rep s queues hand) (lists : s'.list = s.list) (brk : s'.brk = s.brk)
    (event : s'.master.event = s.master.event)
    (eventsAlloc : s'.master.eventsAlloc = s.master.eventsAlloc)
    (links : ∀ q, s.Allocated q → next s'.heap q = next s.heap q ∧ prev s'.heap q = prev s.heap q)
    (kept : ∀ q, s.Allocated q → hand ≠ some q →
      (s'.heap q).type = (s.heap q).type ∧ (s'.heap q).fd = (s.heap q).fd) :
    Rep s' queues hand := by
  have allocated : ∀ q, s'.Allocated q ↔ s.Allocated q := fun q => by
    simp only [Engine.Allocated, brk]
  have typeEq : ∀ q t, ((s.Allocated q ∧ hand ≠ some q) ∧ (s'.heap q).type = t) ↔
      ((s.Allocated q ∧ hand ≠ some q) ∧ (s.heap q).type = t) := fun q t =>
    and_congr_right fun here => by rw [(kept q here.1 here.2).1]
  refine ⟨fun l => ?_, fun l => ?_, fun l q => ?_, fun q => ?_, ?_, ?_, fun q here free => ?_,
    fun q loose => ?_, fun q held => (allocated q).mpr (rep.inHand q held), ?_⟩
  · rw [lists]
    exact (rep.chain l).congr fun q member => links q ((rep.listed l q).mp member).1.1
  · rw [lists]; exact rep.length l
  · rw [allocated, typeEq]; exact rep.listed l q
  · rw [event, allocated, typeEq]; exact rep.hashed q
  · rw [event]; exact rep.nodup
  · rw [event]
    refine rep.keyed.congr fun i backet member => ?_
    have stored : backet.data ∈ s.master.event.datas :=
      rep.keyed.mem_datas.mpr ⟨backet, by
        rw [← rep.keyed.key i backet member, rep.keyed.bucket i backet member]; exact member, rfl⟩
    obtain ⟨⟨here, free⟩, _⟩ := (rep.hashed _).mp stored
    simp only [hashFuncs, eventHashKey, (kept _ here free).2]
  · rw [(kept q ((allocated q).mp here) free).1]
    exact rep.typed q ((allocated q).mp here) free
  · rw [event] at loose
    have here : s.Allocated q := loose.elim (fun m => ((rep.hashed q).mp m).1.1) (rep.inHand q)
    obtain ⟨sameNext, samePrev⟩ := links q here
    rw [sameNext, samePrev]
    exact rep.loose q loose
  · rw [brk, eventsAlloc]; exact rep.alloc

theorem delete {xs ys : List NodePtr} (rep : Rep s queues none) (split : queues l = xs ++ n :: ys) :
    Rep (eventListDelete s l n) (Function.update queues l (xs ++ ys)) (some n) := by
  have chain := rep.chain l
  rw [split] at chain
  obtain ⟨notXs, notYs, _, _, _⟩ := chain.apart
  obtain ⟨hprev, hnext⟩ := chain.middle
  have apart : next s.heap n ≠ some n := by
    rw [hnext]; exact fun same => notYs (List.mem_of_mem_head? same)
  have here : (s.Allocated n ∧ none ≠ some n) ∧ (s.heap n).type = l.type :=
    (rep.listed l n).mp (by simp [split])
  have outside := eventListDelete_outside s l n
  have allocated := outside.allocated
  have type := outside.payload.type
  refine ⟨fun l' => ?_, fun l' => ?_, fun l' q => ?_, fun q => ?_, ?_, ?_, fun q there free => ?_,
    fun q loose => ?_, fun q held => ?_, ?_⟩
  · rw [eventListDelete_heap, eventListDelete_list _ _ _ apart]
    by_cases same : l' = l
    · subst same
      simp only [Function.update_self]
      exact chain.unlink
    · simp only [Function.update_of_ne same]
      exact (rep.chain l').unlink_frame chain (split ▸ rep.disjoint same)
  · rw [eventListDelete_list _ _ _ apart]
    by_cases same : l' = l
    · subst same
      simp only [Function.update_self, rep.length, split, List.length_append, List.length_cons]
      omega
    · simp only [Function.update_of_ne same, rep.length]
  · rw [allocated, type]
    by_cases same : l' = l
    · subst same
      have old := rep.listed l' q
      simp only [split, List.mem_append, List.mem_cons] at old
      simp only [Function.update_self, List.mem_append]
      by_cases own : q = n
      · subst own; simp [notXs, notYs]
      · simp only [own, false_or] at old
        rw [old]
        simp [Ne.symm own]
    · rw [Function.update_of_ne same, rep.listed l' q]
      have other : (s.heap q).type = l'.type → n ≠ q := fun its own =>
        same (ListName.type_injective (its.symm.trans (own ▸ here.2)))
      simpa using fun its _ => other its
  · rw [outside.event, allocated, type, rep.hashed q]
    have other : (s.heap q).type = .event → n ≠ q := fun its own =>
      l.type_ne_event (here.2.symm.trans (own ▸ its))
    simpa using fun its _ => other its
  · rw [outside.event]; exact rep.nodup
  · rw [outside.event]
    exact rep.keyed.congr fun i backet _ => by
      simp only [hashFuncs, eventHashKey, outside.payload.fd]
  · rw [type]; exact rep.typed q ((allocated q).mp there) (by simp)
  · rw [outside.event] at loose
    rw [eventListDelete_heap]
    by_cases own : q = n
    · subst own
      simp [Chain.unlink_next, Chain.unlink_prev _ _ _ apart]
    · have stored : q ∈ s.master.event.datas := loose.resolve_right fun held =>
        own (Option.some.inj held).symm
      have single := (rep.single (.inl stored)).unlink_frame chain fun r member => by
        rw [List.mem_singleton] at member
        rw [← split, member]
        exact rep.hashed_unlisted stored l
      exact Chain.holds_single.mp single
  · rw [allocated]
    exact Option.some.inj held ▸ here.1.1
  · rw [outside.brk, outside.eventsAlloc]; exact rep.alloc

/-- The node in hand enters the list of its type, whichever place it gets there. -/
theorem enter {queue : List NodePtr} (rep : Rep s queues (some n)) (outside : SameOutside s s')
    (typed : (s.heap n).type = l.type) (others : ∀ l', l' ≠ l → s'.list l' = s.list l')
    (chain : Chain.Holds s'.heap (s'.list l).head (s'.list l).tail queue)
    (length : (s'.list l).length = queue.length)
    (members : ∀ q, q ∈ queue ↔ q = n ∨ q ∈ queues l)
    (frame : ∀ head tail qs, Chain.Holds s.heap head tail qs → n ∉ qs →
      (∀ r ∈ qs, r ∉ queues l) → Chain.Holds s'.heap head tail qs) :
    Rep s' (Function.update queues l queue) none := by
  have here := rep.inHand n rfl
  have allocated := outside.allocated
  have type := outside.payload.type
  refine ⟨fun l' => ?_, fun l' => ?_, fun l' q => ?_, fun q => ?_, ?_, ?_, fun q there _ => ?_,
    fun q loose => ?_, fun q held => (by cases held), ?_⟩
  · by_cases same : l' = l
    · subst same
      rwa [Function.update_self]
    · rw [Function.update_of_ne same, others l' same]
      exact frame _ _ _ (rep.chain l') (rep.hand_unlisted l') (rep.disjoint same)
  · by_cases same : l' = l
    · subst same
      rwa [Function.update_self]
    · rw [Function.update_of_ne same, others l' same]
      exact rep.length l'
  · rw [allocated, type]
    by_cases same : l' = l
    · subst same
      rw [Function.update_self, members, rep.listed]
      by_cases own : q = n
      · subst own; simp [here, typed]
      · simp [own, Ne.symm own]
    · rw [Function.update_of_ne same, rep.listed]
      have other : (s.heap q).type = l'.type → n ≠ q := fun its own =>
        same (ListName.type_injective (its.symm.trans (own ▸ typed)))
      simpa using fun its _ => other its
  · rw [outside.event, allocated, type, rep.hashed]
    have other : (s.heap q).type = .event → n ≠ q := fun its own =>
      l.type_ne_event (typed.symm.trans (own ▸ its))
    simpa using fun its _ => other its
  · rw [outside.event]; exact rep.nodup
  · rw [outside.event]
    exact rep.keyed.congr fun i backet _ => by
      simp only [hashFuncs, eventHashKey, outside.payload.fd]
  · rw [type]
    by_cases own : q = n
    · subst own
      rw [typed]
      cases l <;> decide
    · exact rep.typed q ((allocated q).mp there) (by simpa using Ne.symm own)
  · rw [outside.event] at loose
    have stored : q ∈ s.master.event.datas := loose.resolve_right (by simp)
    have apart : n ∉ [q] := by
      rw [List.mem_singleton]
      exact fun own => ((rep.hashed q).mp stored).1.2 (congrArg some own)
    refine Chain.holds_single.mp (frame _ _ _ (rep.single (.inl stored)) apart fun r member => ?_)
    rw [List.mem_singleton] at member
    rw [member]
    exact rep.hashed_unlisted stored l
  · rw [outside.brk, outside.eventsAlloc]; exact rep.alloc

theorem add (rep : Rep s queues (some n)) (typed : (s.heap n).type = l.type) :
    Rep (eventListAdd s l n) (Function.update queues l (queues l ++ [n])) none := by
  have chain := rep.chain l
  have last : ∀ r, r ∉ queues l → (s.list l).tail ≠ some r := fun r fresh tail =>
    fresh (List.mem_of_getLast? (chain.tail.symm.trans tail))
  refine rep.enter (eventListAdd_outside s l n) typed ?_ ?_ ?_ ?_ ?_
  · intro l' different
    rw [eventListAdd_list, Function.update_of_ne different]
  · rw [eventListAdd_heap, eventListAdd_list, Function.update_self]
    have added := chain.append (rep.hand_unlisted l)
    refine ⟨?_, added.tail, added.seg, added.nodup⟩
    rw [← added.head, chain.head, chain.tail]
    cases queues l with
    | nil => rfl
    | cons r rs => simp [List.getLast?_eq_some_getLast]
  · rw [eventListAdd_list, Function.update_self]
    simp [rep.length l]
  · intro q
    simp [or_comm]
  · intro head tail qs other fresh disjoint
    rw [eventListAdd_heap]
    exact other.append_frame (last n (rep.hand_unlisted l))
      (fun q member => last q (disjoint q member)) fresh

theorem addBefore {xs ys : List NodePtr} (rep : Rep s queues (some n))
    (typed : (s.heap n).type = l.type) (split : queues l = xs ++ q :: ys) :
    Rep (eventListAddBefore s l q n) (Function.update queues l (xs ++ n :: q :: ys)) none := by
  have chain := rep.chain l
  have fresh := rep.hand_unlisted l
  rw [split] at chain fresh
  have different : n ≠ q := fun same => fresh (by simp [same])
  refine rep.enter (eventListAddBefore_outside s l n q) typed ?_ ?_ ?_ ?_ ?_
  · intro l' other
    rw [eventListAddBefore_list _ _ _ _ different, Function.update_of_ne other]
  · rw [eventListAddBefore_heap, eventListAddBefore_list _ _ _ _ different, Function.update_self]
    exact chain.insertBefore fresh
  · rw [eventListAddBefore_list _ _ _ _ different, Function.update_self]
    simp only [rep.length l, split, List.length_append, List.length_cons]
    omega
  · intro r
    simp only [split, List.mem_append, List.mem_cons]
    tauto
  · intro head tail qs other apart disjoint
    rw [eventListAddBefore_heap]
    exact other.insertBefore_frame chain fresh (split ▸ disjoint) apart

theorem hashInsert (rep : Rep s queues (some n)) (typed : (s.heap n).type = .event)
    (fresh : ∀ m ∈ s.master.event.datas, (s.heap m).fd ≠ (s.heap n).fd) :
    Rep (hashInsert s n) queues none := by
  have absent : n ∉ s.master.event.datas := fun stored => ((rep.hashed n).mp stored).1.2 rfl
  obtain ⟨_, keyed, perm⟩ := hashGet_insert rep.keyed _
    (show (hashFuncs s.heap).deref n = s.heap n from rfl)
    fun d stored _ => by simp [hashFuncs, eventHashCmp, fresh d stored]
  refine ⟨rep.chain, rep.length, fun l q => ?_, fun q => ?_, ?_, keyed, fun q there _ => ?_,
    fun q loose => ?_, fun q held => (by cases held), rep.alloc⟩
  · refine (rep.listed l q).trans ?_
    have other : (s.heap q).type = l.type → n ≠ q := fun its own =>
      l.type_ne_event (its.symm.trans (own ▸ typed))
    simpa [EventCtl.hashInsert] using fun its _ => other its
  · refine perm.mem_iff.trans ?_
    rw [List.mem_cons, rep.hashed q]
    by_cases own : q = n
    · subst own
      simpa [EventCtl.hashInsert, typed] using rep.inHand q rfl
    · simp [own, Ne.symm own, EventCtl.hashInsert]
  · exact perm.nodup_iff.mpr (List.nodup_cons.mpr ⟨absent, rep.nodup⟩)
  · by_cases own : q = n
    · subst own
      exact fun its => by cases typed.symm.trans its
    · exact rep.typed q there (by simpa using Ne.symm own)
  · have stored := List.mem_cons.mp (perm.mem_iff.mp (loose.resolve_right (by simp)))
    exact rep.loose q (stored.elim (fun own => .inr (congrArg some own.symm)) .inl)

/-- Releasing a node of the hash whose descriptor no other stored node has. -/
theorem hashRelease (rep : Rep s queues none) (stored : n ∈ s.master.event.datas)
    (only : ∀ m ∈ s.master.event.datas, (s.heap m).fd = (s.heap n).fd → m = n) :
    Rep (s.setHash (hashRelease (hashFuncs s.heap) s.master.event (s.heap n)).2) queues (some n) := by
  obtain ⟨⟨here, _⟩, typed⟩ := (rep.hashed n).mp stored
  obtain ⟨_, keyed, perm⟩ := hashRelease_unique rep.keyed _ stored
    (show _ = (hashFuncs s.heap).hashKey (s.heap n) from rfl)
    (by simp [hashFuncs, eventHashCmp]) fun d member _ equal => by
      simp only [hashFuncs, eventHashCmp, Bool.and_eq_true, beq_iff_eq] at equal
      exact only d member equal.1
  obtain ⟨absent, nodup⟩ := List.nodup_cons.mp (perm.nodup_iff.mp rep.nodup)
  have members : ∀ q, q ∈ s.master.event.datas ↔ q = n ∨
      q ∈ (Poplar.hashRelease (hashFuncs s.heap) s.master.event (s.heap n)).2.datas := fun q =>
    perm.mem_iff.trans List.mem_cons
  refine ⟨rep.chain, rep.length, fun l q => ?_, fun q => ?_, nodup, keyed, fun q there _ => ?_,
    fun q loose => ?_, fun q held => ?_, rep.alloc⟩
  · refine (rep.listed l q).trans ?_
    have other : (s.heap q).type = l.type → n ≠ q := fun its own =>
      l.type_ne_event (its.symm.trans (own ▸ typed))
    simpa using fun its _ => other its
  · have old := (members q).symm.trans (rep.hashed q)
    by_cases own : q = n
    · subst own
      simpa using absent
    · simpa [own, Ne.symm own] using old
  · exact rep.typed q there (by simp)
  · refine rep.loose q (.inl ((members q).mpr ?_))
    exact loose.elim .inr fun held => .inl (Option.some.inj held).symm
  · exact Option.some.inj held ▸ here

theorem allocNode (rep : Rep s queues none) : Rep (EventCtl.allocNode s).2 queues (some s.brk) := by
  have older : ∀ q, s.Allocated q → q ≠ s.brk := fun q there => by
    have := there.2
    omega
  have allocated : ∀ q, (EventCtl.allocNode s).2.Allocated q ∧ some s.brk ≠ some q ↔ s.Allocated q := by
    intro q
    have := rep.alloc
    simp only [EventCtl.allocNode, Engine.Allocated, ne_eq, Option.some.injEq, Engine.fetchPtr] at *
    omega
  have same : ∀ q, s.Allocated q → (EventCtl.allocNode s).2.heap q = s.heap q := fun q there => by
    simp [EventCtl.allocNode, older q there]
  have typeEq : ∀ q t, (((EventCtl.allocNode s).2.Allocated q ∧ some s.brk ≠ some q) ∧
      ((EventCtl.allocNode s).2.heap q).type = t) ↔
        ((s.Allocated q ∧ none ≠ some q) ∧ (s.heap q).type = t) := fun q t => by
    rw [allocated]
    simpa using fun there => by rw [same q there]
  refine ⟨fun l => ?_, rep.length, fun l q => (rep.listed l q).trans (typeEq q _).symm,
    fun q => (rep.hashed q).trans (typeEq q _).symm, rep.nodup, ?_, fun q there free => ?_,
    fun q loose => ?_, fun q held => ?_, ?_⟩
  · refine (rep.chain l).congr fun q member => ?_
    simp only [next, prev, same q ((rep.listed l q).mp member).1.1, and_self]
  · refine rep.keyed.congr fun i backet member => ?_
    have stored : backet.data ∈ s.master.event.datas :=
      rep.keyed.mem_datas.mpr ⟨backet, by
        rw [← rep.keyed.key i backet member, rep.keyed.bucket i backet member]; exact member, rfl⟩
    simp only [hashFuncs, same _ ((rep.hashed _).mp stored).1.1]
  · have there := (allocated q).mp ⟨there, free⟩
    rw [same q there]
    exact rep.typed q there (by simp)
  · rcases loose with stored | held
    · simp only [next, prev, same _ ((rep.hashed q).mp stored).1.1]
      exact rep.loose q (.inl stored)
    · simp [← Option.some.inj held, EventCtl.allocNode, next, prev, EventNode.zero, Chain.Linked.next,
        Chain.Linked.prev]
  · have := rep.alloc
    simp only [← Option.some.inj held, EventCtl.allocNode, Engine.Allocated]
    omega
  · have := rep.alloc
    simp only [EventCtl.allocNode]
    omega

end Rep

end Poplar.EventCtl
