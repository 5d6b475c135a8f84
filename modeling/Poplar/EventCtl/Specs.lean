import Poplar.EventCtl.Rep

/-!
# What each operation does to a represented state

An operation moves one node at most. Its specification says which, where it ends,
and that the words of all other nodes, and the rest of the engine, are as before.
-/
namespace Poplar.EventCtl
open Chain (next prev)

/-- A node some caller may hold a handle of. -/
def Engine.InUse (s : Engine) (p : Nat) : Prop := s.Allocated p ∧ (s.heap p).type ≠ .unused

/-- Of the nodes only `n` changes, and it is allocated afterwards. -/
structure Touch (n : NodePtr) (s s' : Engine) : Prop where
  allocated : ∀ q, s'.Allocated q ↔ s.Allocated q ∨ q = n
  others : ∀ q, s.Allocated q → q ≠ n → (s'.heap q).payload = (s.heap q).payload
  timerfd : s'.master.eventTimer.timerfd = s.master.eventTimer.timerfd

/-- Neither the epoll set nor the timer is worked on. -/
structure Still (s s' : Engine) : Prop where
  epoll : s'.epoll = s.epoll
  eventTimer : s'.master.eventTimer = s.master.eventTimer

/-- Only the setting of the timer may differ. -/
structure Retimed (s s' : Engine) : Prop where
  heap : s'.heap = s.heap
  brk : s'.brk = s.brk
  list : s'.list = s.list
  event : s'.master.event = s.master.event
  eventsAlloc : s'.master.eventsAlloc = s.master.eventsAlloc
  epoll : s'.epoll = s.epoll
  timerfd : s'.master.eventTimer.timerfd = s.master.eventTimer.timerfd

section Relations

variable {s s' s'' : Engine} {n : NodePtr} {queues : Queues} {hand : Option NodePtr}

theorem Still.refl (s : Engine) : Still s s := ⟨rfl, rfl⟩

theorem Still.trans (first : Still s s') (second : Still s' s'') : Still s s'' :=
  ⟨second.epoll.trans first.epoll, second.eventTimer.trans first.eventTimer⟩

theorem Touch.trans (first : Touch n s s') (second : Touch n s' s'') : Touch n s s'' := by
  refine ⟨fun q => ?_, fun q here different => ?_, second.timerfd.trans first.timerfd⟩
  · rw [second.allocated, first.allocated]; tauto
  · exact (second.others q ((first.allocated q).mpr (.inl here)) different).trans
      (first.others q here different)

theorem SameOutside.touch (same : SameOutside s s') (here : s.Allocated n) : Touch n s s' := by
  refine ⟨fun q => ?_, fun q _ _ => same.payload q, by rw [same.eventTimer]⟩
  rw [same.allocated]
  exact ⟨.inl, fun either => either.elim id fun own => own ▸ here⟩

theorem SameOutside.still (same : SameOutside s s') : Still s s' := ⟨same.epoll, same.eventTimer⟩

theorem touch_modify (f : EventNode → EventNode) (here : s.Allocated n) :
    Touch n s (s.modify n f) := by
  refine ⟨fun q => ?_, fun q _ different => by rw [Engine.modify_of_ne _ _ _ _ different], rfl⟩
  rw [Engine.modify_allocated]
  exact ⟨.inl, fun either => either.elim id fun own => own ▸ here⟩

theorem still_modify (f : EventNode → EventNode) : Still s (s.modify n f) := ⟨rfl, rfl⟩

theorem still_setHash (hash : Hash NodePtr) : Still s (s.setHash hash) := ⟨rfl, rfl⟩

theorem touch_setHash (hash : Hash NodePtr) (here : s.Allocated n) : Touch n s (s.setHash hash) := by
  refine ⟨fun q => ?_, fun _ _ _ => rfl, rfl⟩
  rw [Engine.setHash_allocated]
  exact ⟨.inl, fun either => either.elim id fun own => own ▸ here⟩

theorem Retimed.refl (s : Engine) : Retimed s s := ⟨rfl, rfl, rfl, rfl, rfl, rfl, rfl⟩

theorem Retimed.allocated (same : Retimed s s') (q : NodePtr) :
    s'.Allocated q ↔ s.Allocated q := by
  simp only [Engine.Allocated, same.brk]

theorem Retimed.touch (same : Retimed s s') (here : s.Allocated n) : Touch n s s' := by
  refine ⟨fun q => ?_, fun q _ _ => by rw [same.heap], same.timerfd⟩
  rw [same.allocated]
  exact ⟨.inl, fun either => either.elim id fun own => own ▸ here⟩

theorem Retimed.rep (same : Retimed s s') (rep : Rep s queues hand) : Rep s' queues hand := by
  refine rep.congr same.list same.brk same.event same.eventsAlloc ?_ ?_
  · intro q _
    rw [same.heap]
    exact ⟨rfl, rfl⟩
  · intro q _ _
    rw [same.heap]
    exact ⟨rfl, rfl⟩

/-- Words of a node other than its links, and other than its place unless it is in hand. -/
theorem Rep.modify (rep : Rep s queues hand) (f : EventNode → EventNode)
    (links : ∀ e, (f e).next = e.next ∧ (f e).prev = e.prev)
    (keeps : hand = some n ∨ ∀ e, (f e).type = e.type ∧ (f e).fd = e.fd) :
    Rep (s.modify n f) queues hand := by
  refine rep.congr rfl rfl rfl rfl ?_ ?_
  · intro q _
    by_cases own : q = n
    · subst own
      simpa [next, prev, Chain.Linked.next, Chain.Linked.prev] using links (s.heap q)
    · simp only [next, prev, Engine.modify_of_ne _ _ _ _ own, and_self]
  · intro q _ free
    by_cases own : q = n
    · subst own
      simpa using keeps.resolve_left free (s.heap q)
    · simp only [Engine.modify_of_ne _ _ _ _ own, and_self]

end Relations

section Timer

variable (s : Engine) (n : NodePtr) (settimeOk : Bool)

theorem eventTimerSet_retimed : Retimed s (eventTimerSet s n settimeOk) := by
  cases settimeOk <;> exact ⟨rfl, rfl, rfl, rfl, rfl, rfl, rfl⟩

theorem eventTimerCancel_retimed : Retimed s (eventTimerCancel s settimeOk) := by
  unfold eventTimerCancel
  cases s.master.eventTimer.event <;> cases settimeOk <;> exact ⟨rfl, rfl, rfl, rfl, rfl, rfl, rfl⟩

theorem eventTimerReset_retimed : Retimed s (eventTimerReset s settimeOk) := by
  unfold eventTimerReset
  split
  · exact eventTimerSet_retimed _ _ _
  · exact eventTimerCancel_retimed _ _

theorem armFor_retimed : Retimed s (armFor s n settimeOk) := by
  unfold armFor
  split
  · exact eventTimerSet_retimed _ _ _
  · split
    · exact eventTimerSet_retimed _ _ _
    · exact .refl _

theorem disarm_retimed : Retimed s (disarm s n settimeOk) := by
  unfold disarm
  split
  · exact eventTimerReset_retimed _ _
  · exact .refl _

/-- With the system call succeeding, resetting arms the first timer due. -/
theorem eventTimerReset_armed :
    (eventTimerReset s true).master.eventTimer.event = eventTimerGet s := by
  unfold eventTimerReset eventTimerSet eventTimerCancel
  cases eventTimerGet s with
  | some first => rfl
  | none => cases armed : s.master.eventTimer.event <;> simp [armed, Engine.setArmed]

end Timer

section Nodes

variable {s : Engine} {queues : Queues} {l : ListName} {n : NodePtr}

theorem Rep.enough {hand : Option NodePtr} (rep : Rep s queues hand) (l : ListName) :
    (queues l).length ≤ s.brk := by
  have within : queues l ⊆ List.range s.brk := fun q member =>
    List.mem_range.mpr ((rep.listed l q).mp member).1.1.2
  simpa using (List.subperm_of_subset (rep.chain l).nodup within).length_le

theorem Rep.nodes_eq (rep : Rep s queues none) (l : ListName) : s.nodes l = queues l :=
  (rep.chain l).walk (rep.enough l)

/-- The lists are determined by the engine. -/
theorem Rep.unique {queues' : Queues} (rep : Rep s queues none) (rep' : Rep s queues' none) :
    queues = queues' := by
  funext l
  rw [← rep.nodes_eq l, ← rep'.nodes_eq l]

theorem eventListTrimHead_eq (rep : Rep s queues none) :
    eventListTrimHead s l = (queues l).head?.map fun n => (n, eventListDelete s l n) := by
  rw [eventListTrimHead, (rep.chain l).head]

/-- `n` was free and is now in the caller's hand. -/
structure Taken (s : Engine) (queues : Queues) (n : NodePtr) (s' : Engine) (queues' : Queues) :
    Prop where
  rep : Rep s' queues' (some n)
  touch : Touch n s s'
  still : Still s s'
  free : ¬ s.InUse n
  others : ∀ l, l ≠ .unuse → queues' l = queues l

theorem eventNodeGet_spec (rep : Rep s queues none) (type : EventType) (func arg : Nat) :
    ∃ n s' queues', eventNodeGet s type func arg = (n, s') ∧ Taken s queues n s' queues' ∧
      (s'.heap n).type = type ∧ (s'.heap n).addType = type := by
  have finish : ∀ {n s₁ queues'}, (eventListTrimHead s .unuse).getD (allocNode s) = (n, s₁) →
      Taken s queues n s₁ queues' → ∃ n s' queues',
        eventNodeGet s type func arg = (n, s') ∧ Taken s queues n s' queues' ∧
          (s'.heap n).type = type ∧ (s'.heap n).addType = type := by
    intro n s₁ queues' got taken
    refine ⟨n, _, queues', by unfold eventNodeGet; rw [got], ?_, by simp, by simp⟩
    have here := taken.rep.inHand n rfl
    exact ⟨taken.rep.modify _ (fun _ => ⟨rfl, rfl⟩) (.inl rfl),
      taken.touch.trans (touch_modify _ here), taken.still.trans (still_modify _), taken.free,
      taken.others⟩
  cases split : queues .unuse with
  | nil =>
      have fresh : ¬ s.Allocated s.brk := fun here => Nat.lt_irrefl _ here.2
      have taken : Taken s queues s.brk (allocNode s).2 queues := by
        refine ⟨rep.allocNode, ⟨fun q => ?_, fun q _ different => ?_, rfl⟩, ⟨rfl, rfl⟩,
          fun inUse => fresh inUse.1, fun _ _ => rfl⟩
        · have := rep.alloc
          simp only [allocNode, Engine.Allocated, Engine.fetchPtr] at *
          omega
        · simp [allocNode, different]
      exact finish (by rw [eventListTrimHead_eq rep, split]; rfl) taken
  | cons n ys =>
      have member := (rep.listed .unuse n).mp (by simp [split])
      have outside := eventListDelete_outside s .unuse n
      refine finish (by rw [eventListTrimHead_eq rep, split]; rfl)
        ⟨rep.delete (show queues .unuse = [] ++ n :: ys from split), outside.touch member.1.1, outside.still,
          fun inUse => inUse.2 member.2, fun l other => Function.update_of_ne other _ _⟩

theorem retire_spec (rep : Rep s queues (some n)) :
    ∃ s', retire s n = .ok s' ∧
      Rep s' (Function.update queues .unuse (queues .unuse ++ [n])) none ∧ Touch n s s' ∧
      Still s s' ∧
      (s'.heap n).payload = ({ s.heap n with type := .unused } : EventNode).payload := by
  have here := rep.inHand n rfl
  have held : Rep (s.modify n fun e => { e with type := .unused }) queues (some n) :=
    rep.modify _ (fun _ => ⟨rfl, rfl⟩) (.inl rfl)
  obtain ⟨noNext, noPrev⟩ := held.loose n (.inr rfl)
  have outside := eventListAdd_outside (s.modify n fun e => { e with type := .unused }) .unuse n
  refine ⟨eventListAdd (s.modify n fun e => { e with type := .unused }) .unuse n, ?_,
    held.add (by simp [ListName.type]), (touch_modify _ here).trans (outside.touch here),
    (still_modify _).trans outside.still, ?_⟩
  · unfold retire eventListAddUnuse
    rw [if_pos ⟨noPrev, noNext, by simp⟩]
  · rw [outside.payload n, Engine.modify_self]

end Nodes

section Adding

variable {s : Engine} {queues : Queues} {n : NodePtr}

/-- Due strictly before. -/
def Sooner (heap : Chain.Heap EventNode) (p q : NodePtr) : Prop :=
  timespecCmp (heap p).time.itValue (heap q).time.itValue < 0

instance (heap : Chain.Heap EventNode) : DecidableRel (Sooner heap) := fun _ _ =>
  inferInstanceAs (Decidable (_ < _))

theorem firstLater_spec {heap : Chain.Heap EventNode} {n : NodePtr} {before : Option NodePtr}
    {ps : List NodePtr} (seg : Chain.Seg heap before none ps) {fuel : Nat}
    (enough : ps.length ≤ fuel) :
    firstLater heap (heap n).time.itValue fuel ps.head? =
      .ok (ps.dropWhile fun q => ¬ Sooner heap n q).head? := by
  induction ps generalizing before fuel with
  | nil => cases fuel <;> rfl
  | cons p ps ih =>
      cases fuel with
      | zero => simp at enough
      | succ fuel =>
          obtain ⟨_, hnext, rest⟩ := seg
          simp only [List.head?_cons, firstLater, hnext, Option.or_none]
          by_cases sooner : Sooner heap n p
          · rw [if_pos (show _ < _ from sooner), List.dropWhile_cons_of_neg (by simpa using sooner)]
            rfl
          · rw [if_neg (show ¬ _ < _ from sooner), ih rest (Nat.le_of_succ_le_succ enough),
              List.dropWhile_cons_of_pos (by simpa using sooner)]

/-- The place found is the end of the list, or before its first node that is due later. -/
theorem eventListAddDue_places {l : ListName} (rep : Rep s queues (some n)) :
    (eventListAddDue s l n = .ok (eventListAdd s l n) ∧
        (queues l).orderedInsert (Sooner s.heap) n = queues l ++ [n]) ∨
      ∃ xs q ys, eventListAddDue s l n = .ok (eventListAddBefore s l q n) ∧
        queues l = xs ++ q :: ys ∧
          (queues l).orderedInsert (Sooner s.heap) n = xs ++ n :: q :: ys := by
  have search := firstLater_spec (n := n) (rep.chain l).seg (rep.enough l)
  rw [← (rep.chain l).head] at search
  have split := List.takeWhile_append_dropWhile (p := fun q => ¬ Sooner s.heap n q)
    (l := queues l)
  rw [List.orderedInsert_eq_take_drop]
  cases later : (queues l).dropWhile (fun q => ¬ Sooner s.heap n q) with
  | nil =>
      rw [later, List.append_nil] at split
      rw [split]
      refine .inl ⟨?_, rfl⟩
      rw [eventListAddDue, search, later]
      rfl
  | cons q ys =>
      rw [later] at split
      refine .inr ⟨_, q, ys, ?_, split.symm, rfl⟩
      rw [eventListAddDue, search, later]
      rfl

theorem eventListAddDue_spec {l : ListName} (rep : Rep s queues (some n))
    (typed : (s.heap n).type = l.type) :
    ∃ s', eventListAddDue s l n = .ok s' ∧ SameOutside s s' ∧
      Rep s' (Function.update queues l ((queues l).orderedInsert (Sooner s.heap) n)) none := by
  rcases eventListAddDue_places (l := l) rep with ⟨run, place⟩ | ⟨xs, q, ys, run, split, place⟩
  · rw [place]
    exact ⟨_, run, eventListAdd_outside s l n, rep.add typed⟩
  · rw [place]
    exact ⟨_, run, eventListAddBefore_outside s l n q, rep.addBefore typed split⟩

/-- A list `event_timer_add_itimerspec` adds to. -/
inductive ListName.Timed : ListName → Prop
  | timer : Timed .timer
  | rear : Timed .rear

theorem ListName.Timed.ne_unuse {l : ListName} (timed : l.Timed) : l ≠ .unuse := by
  rintro rfl
  cases timed

/-- `n` was free and is now linked into `l`, the timer not yet armed for it. -/
structure TimerAdded (s : Engine) (queues : Queues) (l : ListName) (n : NodePtr) (s' : Engine)
    (queues' : Queues) : Prop where
  rep : Rep s' queues' none
  touch : Touch n s s'
  still : Still s s'
  free : ¬ s.InUse n
  type : (s'.heap n).type = l.type
  addType : (s'.heap n).addType = l.type
  queue : queues' l = (queues l).orderedInsert (Sooner s'.heap) n
  others : ∀ l', l' ≠ l → l' ≠ .unuse → queues' l' = queues l'

theorem eventTimerAddItimerspec_spec (rep : Rep s queues none) {l : ListName} (timed : l.Timed)
    (func arg : Nat) (ts : Itimerspec) (settimeOk : Bool) :
    ∃ n mid queues', eventTimerAddItimerspec s func l.type arg ts settimeOk =
        .ok (n, armFor mid n settimeOk) ∧ TimerAdded s queues l n mid queues' := by
  obtain ⟨n, s₁, queues₁, got, ⟨held, touch₁, still₁, free, others⟩, type, addType⟩ :=
    eventNodeGet_spec rep l.type func arg
  have here := held.inHand n rfl
  -- the node with its expiry, before it is linked in
  set s₂ := s₁.modify n fun e => { e with time := ⟨⟨0, 0⟩, ts.itValue⟩ } with s₂_eq
  have rep₂ : Rep s₂ queues₁ (some n) := held.modify _ (fun _ => ⟨rfl, rfl⟩) (.inl rfl)
  have type₂ : (s₂.heap n).type = l.type := by simp [s₂_eq, type]
  have addType₂ : (s₂.heap n).addType = l.type := by simp [s₂_eq, addType]
  obtain ⟨mid, added, outside, repMid⟩ := eventListAddDue_spec rep₂ type₂
  have choose : (if l.type = .timer then ListName.timer else ListName.rear) = l := by
    cases timed <;> rfl
  have allowed : l.type = .timer ∨ l.type = .rear := by
    cases timed
    · exact .inl rfl
    · exact .inr rfl
  have sooner : Sooner mid.heap = Sooner s₂.heap := by
    funext p q
    simp only [Sooner, outside.payload.time]
  refine ⟨n, mid, _, ?_, repMid, (touch₁.trans (touch_modify _ here)).trans (outside.touch here),
    (still₁.trans (still_modify _)).trans outside.still, free, ?_, ?_, ?_, ?_⟩
  · simp only [eventTimerAddItimerspec, if_pos allowed, choose, got, ← s₂_eq, added]
    rfl
  · rw [outside.payload.type, type₂]
  · rw [outside.payload.addType, addType₂]
  · simp only [Function.update_self, others l timed.ne_unuse, sooner]
  · intro l' other notUnuse
    rw [Function.update_of_ne other, others l' notUnuse]

/-- `n` was free and now waits in the hash, registered for `fd`. -/
structure EpollAdded (s : Engine) (queues : Queues) (fd : Int) (epEvents : Nat) (n : NodePtr)
    (s' : Engine) (queues' : Queues) : Prop where
  rep : Rep s' queues' none
  touch : Touch n s s'
  free : ¬ s.InUse n
  type : (s'.heap n).type = .event
  addType : (s'.heap n).addType = .event
  watched : (s'.heap n).fd = fd
  epoll : s'.epoll = Function.update s.epoll fd (some ⟨epEvents, n⟩)
  eventTimer : s'.master.eventTimer = s.master.eventTimer
  others : ∀ l, l ≠ .unuse → queues' l = queues l

/-- `EPOLL_CTL_ADD` succeeds on a descriptor that is not registered. -/
theorem eventEpollAdd_spec (rep : Rep s queues none) (func arg epEvents : Nat) {fd : Int}
    (unregistered : s.epoll fd = none)
    (fresh : ∀ m ∈ s.master.event.datas, (s.heap m).fd ≠ fd) :
    ∃ n s' queues', eventEpollAdd s func arg epEvents fd true = (some n, s') ∧
      EpollAdded s queues fd epEvents n s' queues' := by
  obtain ⟨n, s₁, queues₁, got, ⟨held, touch₁, still₁, free, others⟩, type, addType⟩ :=
    eventNodeGet_spec rep .event func arg
  have here := held.inHand n rfl
  set s₂ := s₁.modify n fun e => { e with listenEvent := ⟨epEvents, n⟩, fd := fd } with s₂_eq
  have rep₂ : Rep s₂ queues₁ (some n) := held.modify _ (fun _ => ⟨rfl, rfl⟩) (.inl rfl)
  have touch₂ : Touch n s s₂ := touch₁.trans (touch_modify _ here)
  set s₃ : Engine := { s₂ with epoll := Function.update s₂.epoll fd (some ⟨epEvents, n⟩) } with s₃_eq
  have rep₃ : Rep s₃ queues₁ (some n) :=
    rep₂.congr rfl rfl rfl rfl (fun _ _ => ⟨rfl, rfl⟩) fun _ _ _ => ⟨rfl, rfl⟩
  have stored : ∀ m ∈ s₃.master.event.datas, (s₃.heap m).fd ≠ (s₃.heap n).fd := by
    intro m member
    obtain ⟨⟨there, apart⟩, typed⟩ := (rep₃.hashed m).mp member
    have different : m ≠ n := fun own => apart (congrArg some own.symm)
    have older : s.Allocated m := ((touch₂.allocated m).mp there).resolve_right different
    have same := touch₂.others m older different
    have sameType : (s₂.heap m).type = (s.heap m).type := payload_type same
    have sameFd : (s₂.heap m).fd = (s.heap m).fd := payload_fd same
    have inHash : m ∈ s.master.event.datas :=
      (rep.hashed m).mpr ⟨⟨older, by simp⟩, sameType.symm.trans typed⟩
    change (s₂.heap m).fd ≠ (s₂.heap n).fd
    rw [sameFd, s₂_eq, Engine.modify_self]
    exact fresh m inHash
  have typed : (s₂.heap n).type = .event := by simp [s₂_eq, type]
  have epoll₁ : s₁.epoll = s.epoll := still₁.epoll
  have ctl : epollCtl s₂.epoll .add fd ⟨epEvents, n⟩ true = some s₃.epoll := by
    simp [epollCtl, s₃_eq, s₂_eq, epoll₁, unregistered]
  refine ⟨n, hashInsert s₃ n, queues₁, ?_, rep₃.hashInsert typed stored,
    ⟨touch₂.allocated, touch₂.others, touch₂.timerfd⟩, free, typed, ?_, ?_, ?_,
    still₁.eventTimer, others⟩
  · simp only [eventEpollAdd, got, ← s₂_eq, ctl]
    rfl
  · change (s₂.heap n).addType = .event
    simp [s₂_eq, addType]
  · change (s₂.heap n).fd = fd
    simp [s₂_eq]
  · change Function.update s₁.epoll fd _ = _
    rw [epoll₁]

end Adding

section Lookup

variable {s : Engine} {queues : Queues}

theorem eventListLookupFrom_spec {heap : Chain.Heap EventNode} (fd : Int) (type : EventType)
    {before : Option NodePtr} {ps : List NodePtr} (seg : Chain.Seg heap before none ps)
    {fuel : Nat} (enough : ps.length ≤ fuel) :
    eventListLookupFrom heap fd type fuel ps.head? =
      .ok (ps.find? fun q => (heap q).fd = fd ∧ (heap q).type = type) := by
  induction ps generalizing before fuel with
  | nil => cases fuel <;> rfl
  | cons p ps ih =>
      cases fuel with
      | zero => simp at enough
      | succ fuel =>
          obtain ⟨_, hnext, rest⟩ := seg
          simp only [List.head?_cons, eventListLookupFrom, hnext, Option.or_none]
          by_cases hits : (heap p).fd = fd ∧ (heap p).type = type
          · rw [if_pos hits, List.find?_cons_of_pos (by simpa using hits)]
          · rw [if_neg hits, ih rest (Nat.le_of_succ_le_succ enough),
              List.find?_cons_of_neg (by simpa using hits)]

/-- The node `event_epoll_lookup_by_fd` answers: one of the hash before one of the ready list. -/
theorem eventEpollLookupByFd_spec (rep : Rep s queues none) (fd : Int) :
    ∃ found, eventEpollLookupByFd s fd = .ok found ∧
      (∀ n, found = some n → s.Allocated n ∧ (s.heap n).fd = fd ∧
        (n ∈ s.master.event.datas ∨
          (queues .ready).find? (fun q => (s.heap q).fd = fd) = some n)) := by
  unfold eventEpollLookupByFd
  dsimp only
  cases looked : hashLookup (hashFuncs s.heap) s.master.event
      { EventNode.zero with fd := fd, type := .event } with
  | some node =>
      refine ⟨some node, rfl, fun n same => ?_⟩
      cases same
      obtain ⟨stored, equal⟩ := hashLookup_some rep.keyed looked
      simp only [hashFuncs, eventHashCmp, Bool.and_eq_true, beq_iff_eq] at equal
      exact ⟨((rep.hashed node).mp stored).1.1, equal.1, .inl stored⟩
  | none =>
      have search := eventListLookupFrom_spec fd .ready (rep.chain .ready).seg (rep.enough .ready)
      rw [← (rep.chain .ready).head] at search
      refine ⟨_, search, fun n found => ?_⟩
      have allReady : ∀ q ∈ queues .ready, (s.heap q).type = .ready := fun q member =>
        ((rep.listed .ready q).mp member).2
      have hit := List.find?_some found
      have member := List.mem_of_find?_eq_some found
      simp only [Bool.decide_and, Bool.and_eq_true, decide_eq_true_eq] at hit
      refine ⟨((rep.listed .ready n).mp member).1.1, hit.1, .inr ?_⟩
      rw [← found]
      refine List.find?_congr fun q among => ?_
      simp [allReady q among]

/-- Whatever `epoll_ctl` says, the words of the node found are written. -/
theorem eventEpollMod_eq (func arg epEvents : Nat) (ok : Bool) {fd : Int} {node : NodePtr}
    (found : eventEpollLookupByFd s fd = .ok (some node)) :
    eventEpollMod s func arg epEvents fd ok =
      (epollCtl s.epoll .mod fd ⟨epEvents, node⟩ ok).elim
        (.ok (none, s.modify node fun e =>
          { e with listenEvent := ⟨epEvents, node⟩, func := func, arg := arg }))
        fun set => .ok (some node, { s.modify node fun e =>
          { e with listenEvent := ⟨epEvents, node⟩, func := func, arg := arg } with epoll := set }) := by
  rw [eventEpollMod, found, ok_bind]
  simp only [Engine.modify_epoll]
  cases epollCtl s.epoll .mod fd ⟨epEvents, node⟩ ok with
  | none => rfl
  | some set => rfl

/-- Only the epoll set, and words of a node that place nothing, may change. -/
theorem eventEpollMod_spec (rep : Rep s queues none) (func arg epEvents : Nat) (fd : Int) :
    ∃ result s', eventEpollMod s func arg epEvents fd true = .ok (result, s') ∧
      Rep s' queues none ∧ s'.brk = s.brk ∧ s'.master = s.master ∧
      (∀ q, (s'.heap q).type = (s.heap q).type ∧ (s'.heap q).addType = (s.heap q).addType ∧
        (s'.heap q).fd = (s.heap q).fd ∧ (s'.heap q).time = (s.heap q).time) ∧
      (s'.epoll = s.epoll ∨ ∃ n, eventEpollLookupByFd s fd = .ok (some n) ∧ s.epoll fd ≠ none ∧
        s'.epoll = Function.update s.epoll fd (some ⟨epEvents, n⟩)) := by
  obtain ⟨found, looked, _⟩ := eventEpollLookupByFd_spec rep fd
  cases found with
  | none =>
      refine ⟨none, s, by rw [eventEpollMod, looked]; rfl, rep, rfl, rfl,
        fun _ => ⟨rfl, rfl, rfl, rfl⟩, .inl rfl⟩
  | some n =>
      set s₁ := s.modify n fun e => { e with listenEvent := ⟨epEvents, n⟩, func := func, arg := arg }
        with s₁_eq
      have rep₁ : Rep s₁ queues none :=
        rep.modify _ (fun _ => ⟨rfl, rfl⟩) (.inr fun _ => ⟨rfl, rfl⟩)
      have words : ∀ q, (s₁.heap q).type = (s.heap q).type ∧
          (s₁.heap q).addType = (s.heap q).addType ∧ (s₁.heap q).fd = (s.heap q).fd ∧
            (s₁.heap q).time = (s.heap q).time := by
        intro q
        by_cases own : q = n
        · subst own
          simp [s₁_eq]
        · simp [s₁_eq, Engine.modify_of_ne _ _ _ _ own]
      have run := eventEpollMod_eq func arg epEvents true looked
      rw [← s₁_eq] at run
      by_cases registered : s.epoll fd = none
      · refine ⟨none, s₁, ?_, rep₁, rfl, rfl, words, .inl rfl⟩
        rw [run, epollCtl, if_neg (fun both => both.2 registered), Option.elim_none]
      · refine ⟨some n, { s₁ with epoll := Function.update s.epoll fd (some ⟨epEvents, n⟩) }, ?_,
          ?_, rfl, rfl, words, .inr ⟨n, looked, registered, rfl⟩⟩
        · rw [run, epollCtl, if_pos ⟨rfl, registered⟩]
          rfl
        · exact rep₁.congr rfl rfl rfl rfl (fun _ _ => ⟨rfl, rfl⟩) fun _ _ _ => ⟨rfl, rfl⟩

end Lookup

section Cancelling

variable {s s' : Engine} {queues queues' : Queues} {n : NodePtr}

/-- The first of the two list heads due, the rear one on a tie. -/
def earliest (heap : Chain.Heap EventNode) : Option NodePtr → Option NodePtr → Option NodePtr
  | some rear, some timer =>
    if timespecCmp (heap rear).time.itValue (heap timer).time.itValue > 0 then some timer
    else some rear
  | some rear, none => some rear
  | none, timer => timer

theorem earliest_congr {heap heap' : Chain.Heap EventNode} {rear timer : Option NodePtr}
    (same : ∀ q, rear = some q ∨ timer = some q → (heap' q).time = (heap q).time) :
    earliest heap' rear timer = earliest heap rear timer := by
  cases rear with
  | none => rfl
  | some r =>
      cases timer with
      | none => rfl
      | some t => simp only [earliest, same r (.inl rfl), same t (.inr rfl)]

theorem Rep.timerGet {hand : Option NodePtr} (rep : Rep s queues hand) :
    eventTimerGet s = earliest s.heap (queues .rear).head? (queues .timer).head? := by
  unfold eventTimerGet
  rw [(rep.chain .rear).head, (rep.chain .timer).head]
  cases (queues .rear).head? <;> cases (queues .timer).head? <;> rfl

/-- The state `event_cancel` of a used node `n` leaves. -/
structure Cancelled (s : Engine) (queues : Queues) (n : NodePtr) (settimeOk : Bool) (s' : Engine)
    (queues' : Queues) : Prop where
  rep : Rep s' queues' none
  touch : Touch n s s'
  unused : (s'.heap n).type = .unused
  others : ∀ l, l ≠ .unuse → queues' l = (queues l).erase n
  epoll : s'.epoll = if (s.heap n).type = .event
    then Function.update s.epoll (s.heap n).fd none else s.epoll
  keepsArmed : s.master.eventTimer.event ≠ some n →
    s'.master.eventTimer.event = s.master.eventTimer.event
  rearms : settimeOk = true → (s.heap n).type ≠ .event → s.master.eventTimer.event = some n →
    s'.master.eventTimer.event = eventTimerGet s'

/-- The branches of a node that is in a list. -/
theorem cancel_listed (rep : Rep s queues none) {l : ListName} (used : l ≠ .unuse)
    (member : n ∈ queues l) (settimeOk : Bool) :
    ∃ s' queues', retire (disarm (eventListDelete s l n) n settimeOk) n = .ok s' ∧
      Cancelled s queues n settimeOk s' queues' := by
  have typed : (s.heap n).type = l.type := ((rep.listed l n).mp member).2
  have here : s.Allocated n := ((rep.listed l n).mp member).1.1
  obtain ⟨xs, ys, split⟩ := List.append_of_mem member
  have outside := eventListDelete_outside s l n
  have deleted := rep.delete split
  have retimed := disarm_retimed (eventListDelete s l n) n settimeOk
  set d := disarm (eventListDelete s l n) n settimeOk with d_eq
  obtain ⟨s', retired, repRet, touchRet, stillRet, payload⟩ := retire_spec (retimed.rep deleted)
  have touchD : Touch n s d := (outside.touch here).trans
    (retimed.touch ((outside.allocated n).mpr here))
  have unused : (s'.heap n).type = .unused := (payload_type payload :)
  have left : ∀ l', Function.update queues l (xs ++ ys) l' = (queues l').erase n := by
    intro l'
    by_cases same : l' = l
    · subst same
      have chain := rep.chain l'
      rw [split] at chain
      rw [Function.update_self, split, List.erase_append_right _ chain.apart.1,
        List.erase_cons_head]
    · rw [Function.update_of_ne same, List.erase_of_not_mem]
      exact fun also => rep.disjoint same n also member
  refine ⟨s', _, retired, repRet, touchD.trans touchRet, unused, ?_, ?_, ?_, ?_⟩
  · intro l' other
    rw [Function.update_of_ne other, left]
  · rw [if_neg (typed ▸ l.type_ne_event), stillRet.epoll, retimed.epoll, outside.epoll]
  · intro different
    rw [stillRet.eventTimer, d_eq, disarm, if_neg (by rwa [outside.eventTimer]), outside.eventTimer]
  · intro ok _ own
    subst ok
    have armed : d.master.eventTimer.event = eventTimerGet (eventListDelete s l n) := by
      rw [d_eq, disarm, if_pos (by rwa [outside.eventTimer]), eventTimerReset_armed]
    have times : ∀ l' q, (Function.update queues l (xs ++ ys) l').head? = some q →
        (s'.heap q).time = ((eventListDelete s l n).heap q).time := by
      intro l' q first
      obtain ⟨⟨there, apart⟩, _⟩ := (deleted.listed l' q).mp (List.mem_of_mem_head? first)
      have different : q ≠ n := fun own => apart (congrArg some own.symm)
      have kept := touchRet.others q ((retimed.allocated q).mpr there) different
      rw [payload_time kept, retimed.heap]
    rw [stillRet.eventTimer, armed, repRet.timerGet, deleted.timerGet]
    simp only [Function.update_of_ne (show ListName.rear ≠ .unuse by decide),
      Function.update_of_ne (show ListName.timer ≠ .unuse by decide)]
    exact (earliest_congr fun q first => first.elim (times .rear q) (times .timer q)).symm

/-- A registration that `epoll_ctl` can delete is gone, and there is no other to delete. -/
theorem eventEpollDelNode_eq (s : Engine) (n : NodePtr) :
    eventEpollDelNode s n true =
      { s with epoll := Function.update s.epoll (s.heap n).fd none } := by
  simp only [eventEpollDelNode, epollCtl]
  by_cases registered : s.epoll (s.heap n).fd = none
  · rw [if_neg fun both => both.2 registered, Function.update_eq_self_iff.mpr registered.symm]
  · rw [if_pos ⟨trivial, registered⟩]

/-- The branch of a node that waits in the hash. -/
theorem cancel_hashed (rep : Rep s queues none) (stored : n ∈ s.master.event.datas)
    (only : ∀ m ∈ s.master.event.datas, (s.heap m).fd = (s.heap n).fd → m = n)
    (settimeOk : Bool) :
    ∃ s' queues', retire (eventEpollDelNode
        (s.setHash (hashRelease (hashFuncs s.heap) s.master.event (s.heap n)).2) n true) n = .ok s' ∧
      Cancelled s queues n settimeOk s' queues' := by
  obtain ⟨⟨here, _⟩, typed⟩ := (rep.hashed n).mp stored
  have released := rep.hashRelease stored only
  set r := s.setHash (hashRelease (hashFuncs s.heap) s.master.event (s.heap n)).2 with r_eq
  rw [eventEpollDelNode_eq]
  have held : Rep { r with epoll := Function.update r.epoll (r.heap n).fd none } queues (some n) :=
    released.congr rfl rfl rfl rfl (fun _ _ => ⟨rfl, rfl⟩) fun _ _ _ => ⟨rfl, rfl⟩
  obtain ⟨s', retired, repRet, touchRet, stillRet, payload⟩ := retire_spec held
  have touchDel : Touch n s { r with epoll := Function.update r.epoll (r.heap n).fd none } :=
    ⟨(touch_setHash s.master.event here).allocated, fun _ _ _ => rfl, rfl⟩
  refine ⟨s', _, retired, repRet, touchDel.trans touchRet, (payload_type payload :), ?_, ?_, ?_, ?_⟩
  · intro l used
    rw [Function.update_of_ne used, List.erase_of_not_mem (rep.hashed_unlisted stored l)]
  · rw [if_pos typed, stillRet.epoll]
    rfl
  · intro _
    rw [stillRet.eventTimer]
    rfl
  · intro _ notEvent
    exact absurd typed notEvent

theorem eventCancel_spec (rep : Rep s queues none) (inUse : s.InUse n)
    (only : ∀ m ∈ s.master.event.datas, (s.heap m).fd = (s.heap n).fd →
      n ∈ s.master.event.datas → m = n) (settimeOk : Bool) :
    ∃ s' queues', eventCancel s n settimeOk true = .ok s' ∧
      Cancelled s queues n settimeOk s' queues' := by
  obtain ⟨here, notUnused⟩ := inUse
  have inList : ∀ l : ListName, (s.heap n).type = l.type → n ∈ queues l := fun l typed =>
    (rep.listed l n).mpr ⟨⟨here, by simp⟩, typed⟩
  unfold eventCancel
  cases typed : (s.heap n).type with
  | timer => exact cancel_listed rep (by decide) (inList .timer typed) settimeOk
  | rear => exact cancel_listed rep (by decide) (inList .rear typed) settimeOk
  | ready => exact cancel_listed rep (by decide) (inList .ready typed) settimeOk
  | event =>
      have stored := (rep.hashed n).mpr ⟨⟨here, by simp⟩, typed⟩
      exact cancel_hashed rep stored (fun m member same => only m member same stored) settimeOk
  | immediate => exact absurd typed (rep.typed n here (by simp))
  | unused => exact absurd typed notUnused

end Cancelling

section Passing

variable {s s' : Engine} {queues : Queues} {n : NodePtr}

/-- `n` is queued as ready, otherwise as it was. -/
structure Readied (n : NodePtr) (s s' : Engine) : Prop where
  touch : Touch n s s'
  still : Still s s'
  type : (s'.heap n).type = .ready
  addType : (s'.heap n).addType = (s.heap n).addType
  fd : (s'.heap n).fd = (s.heap n).fd
  time : (s'.heap n).time = (s.heap n).time

def Expired (heap : Chain.Heap EventNode) (now : Timespec) (p : NodePtr) : Prop :=
  ¬ timespecCmp now (heap p).time.itValue < 0

instance (heap : Chain.Heap EventNode) (now : Timespec) (p : NodePtr) :
    Decidable (Expired heap now p) := inferInstanceAs (Decidable (¬ _))

/-- The node in hand goes to the tail of the ready list. -/
theorem ready_add (rep : Rep s queues (some n)) (f : EventNode → EventNode)
    (links : ∀ e, (f e).next = e.next ∧ (f e).prev = e.prev)
    (words : ∀ e, (f e).type = .ready ∧ (f e).addType = e.addType ∧ (f e).fd = e.fd ∧
      (f e).time = e.time) :
    Readied n s (eventListAdd (s.modify n f) .ready n) ∧
      Rep (eventListAdd (s.modify n f) .ready n)
        (Function.update queues .ready (queues .ready ++ [n])) none := by
  have here := rep.inHand n rfl
  have outside := eventListAdd_outside (s.modify n f) .ready n
  obtain ⟨type, addType, fd, time⟩ := words (s.heap n)
  refine ⟨⟨(touch_modify f here).trans (outside.touch here),
    (still_modify f).trans outside.still, ?_, ?_, ?_, ?_⟩,
    (rep.modify f links (.inl rfl)).add (by rw [Engine.modify_self]; exact type)⟩
  · rw [outside.payload.type, Engine.modify_self, type]
  · rw [outside.payload.addType, Engine.modify_self, addType]
  · rw [outside.payload.fd, Engine.modify_self, fd]
  · rw [outside.payload.time, Engine.modify_self, time]

theorem eventTimerProcess_idle {l : ListName} {now : Timespec} (rep : Rep s queues none)
    (idle : ∀ n, (queues l).head? = some n → ¬ Expired s.heap now n) :
    eventTimerProcess s l now = .ok (0, s) := by
  unfold eventTimerProcess
  rw [(rep.chain l).head]
  cases split : queues l with
  | nil => cases s.brk <;> rfl
  | cons n ys =>
      have early := idle n (by simp [split])
      have room := rep.enough l
      rw [split] at room
      obtain ⟨fuel, brk⟩ := Nat.exists_eq_add_one_of_ne_zero (Nat.ne_of_gt (Nat.lt_of_lt_of_le
        (Nat.zero_lt_succ _) room))
      rw [brk, List.head?_cons, eventTimerProcessFrom, if_pos (not_not.mp early)]

/-- Relinking the first node nulls the link the loop goes on with, so the loop ends
behind it. -/
theorem eventTimerProcess_moves {l : ListName} {now : Timespec} {ys : List NodePtr}
    (rep : Rep s queues none) (timed : l.Timed) (split : queues l = n :: ys)
    (expired : Expired s.heap now n) :
    ∃ s', eventTimerProcess s l now = .ok (1, s') ∧ Readied n s s' ∧
      Rep s' (Function.update (Function.update queues l ys) .ready (queues .ready ++ [n])) none := by
  have here : s.Allocated n := ((rep.listed l n).mp (by simp [split])).1.1
  have outside := eventListDelete_outside s l n
  have deleted := rep.delete (show queues l = [] ++ n :: ys from split)
  have other : ListName.ready ≠ l := by
    rintro rfl
    cases timed
  obtain ⟨readied, added⟩ := ready_add deleted (fun e => { e with type := .ready })
    (fun _ => ⟨rfl, rfl⟩) fun _ => ⟨rfl, rfl, rfl, rfl⟩
  set d := eventListDelete s l n
  set m := eventListAdd (d.modify n fun e => { e with type := .ready }) .ready n with m_eq
  rw [List.nil_append, Function.update_of_ne other] at added
  have last : next m.heap n = none := by
    have chain := added.chain .ready
    rw [Function.update_self] at chain
    exact chain.middle.2
  have stops : eventTimerProcessFrom l now (s.brk - 1) none 1 m = .ok (1, m) := by
    cases s.brk - 1 <;> rfl
  have room := here.2
  refine ⟨m, ?_, ⟨(outside.touch here).trans readied.touch, outside.still.trans readied.still,
    readied.type, ?_, ?_, ?_⟩, added⟩
  · unfold eventTimerProcess
    obtain ⟨fuel, brk⟩ := Nat.exists_eq_add_one_of_ne_zero (Nat.ne_of_gt (Nat.lt_of_le_of_lt
      (Nat.zero_le _) room))
    rw [brk, Nat.add_sub_cancel] at stops
    rw [(rep.chain l).head, split, brk, List.head?_cons, eventTimerProcessFrom, if_neg expired]
    change eventTimerProcessFrom l now fuel (next m.heap n) 1 m = _
    rw [last, stops]
  · rw [readied.addType, outside.payload.addType]
  · rw [readied.fd, outside.payload.fd]
  · rw [readied.time, outside.payload.time]

theorem queueReported_timerfd {event : EpollEvent}
    (own : (s.heap event.ptr).fd = s.master.eventTimer.timerfd) : queueReported s event = s := by
  simp [queueReported, own]

theorem queueReported_spec {event : EpollEvent} (rep : Rep s queues none)
    (stored : event.ptr ∈ s.master.event.datas)
    (only : ∀ m ∈ s.master.event.datas, (s.heap m).fd = (s.heap event.ptr).fd → m = event.ptr)
    (other : (s.heap event.ptr).fd ≠ s.master.eventTimer.timerfd) :
    Readied event.ptr s (queueReported s event) ∧
      Rep (queueReported s event)
        (Function.update queues .ready (queues .ready ++ [event.ptr])) none := by
  obtain ⟨⟨here, _⟩, typed⟩ := (rep.hashed _).mp stored
  set e₁ := s.modify event.ptr fun e => { e with events := event.events } with e₁_eq
  have rep₁ : Rep e₁ queues none := rep.modify _ (fun _ => ⟨rfl, rfl⟩) (.inr fun _ => ⟨rfl, rfl⟩)
  have fds : ∀ q, (e₁.heap q).fd = (s.heap q).fd := by
    intro q
    by_cases own : q = event.ptr
    · subst own; simp [e₁_eq]
    · simp [e₁_eq, Engine.modify_of_ne _ _ _ _ own]
  have released := rep₁.hashRelease (n := event.ptr) stored fun m member same =>
    only m member (by rwa [fds, fds] at same)
  obtain ⟨readied, added⟩ := ready_add released (fun e => { e with type := .ready })
    (fun _ => ⟨rfl, rfl⟩) fun _ => ⟨rfl, rfl, rfl, rfl⟩
  have run : queueReported s event = eventListAdd ((e₁.setHash (hashRelease (hashFuncs e₁.heap)
      e₁.master.event (e₁.heap event.ptr)).2).modify event.ptr fun e => { e with type := .ready })
        .ready event.ptr := by
    simp [queueReported, typed, other, e₁_eq]
  rw [run]
  refine ⟨⟨((touch_modify _ here).trans (touch_setHash _ here)).trans readied.touch,
    ((still_modify _).trans (still_setHash _)).trans readied.still, readied.type, ?_, ?_, ?_⟩,
    added⟩
  · rw [readied.addType]; simp [e₁_eq]
  · rw [readied.fd]; simp [e₁_eq]
  · rw [readied.time]; simp [e₁_eq]

/-- The copy into `fetch` writes no node. -/
theorem fetch_spec {hand : Option NodePtr} (rep : Rep s queues hand) (f : EventNode → EventNode)
    (here : s.Allocated n) :
    Rep (s.modify Engine.fetchPtr f) queues hand ∧ Touch n s (s.modify Engine.fetchPtr f) ∧
      (s.modify Engine.fetchPtr f).heap n = s.heap n := by
  have apart : ∀ q, s.Allocated q → q ≠ Engine.fetchPtr := fun q there =>
    Nat.ne_of_gt there.1
  refine ⟨rep.congr rfl rfl rfl rfl ?_ ?_, ⟨fun q => ?_, fun q there _ => ?_, rfl⟩, ?_⟩
  · intro q there
    simp only [next, prev, Engine.modify_of_ne _ _ _ _ (apart q there), and_self]
  · intro q there _
    rw [Engine.modify_of_ne _ _ _ _ (apart q there)]
    exact ⟨rfl, rfl⟩
  · rw [Engine.modify_allocated]
    exact ⟨.inl, fun either => either.elim id fun own => own ▸ here⟩
  · rw [Engine.modify_of_ne _ _ _ _ (apart q there)]
  · rw [Engine.modify_of_ne _ _ _ _ (apart n here)]

/-- A timer is used up. -/
theorem eventRun_timer (rep : Rep s queues (some n)) (origin : (s.heap n).addType ≠ .event) :
    ∃ s', eventRun s n Engine.fetchPtr = .ok s' ∧
      Rep s' (Function.update queues .unuse (queues .unuse ++ [n])) none ∧ Touch n s s' ∧
      Still s s' ∧ (s'.heap n).payload = ({ s.heap n with type := .unused } : EventNode).payload := by
  have here := rep.inHand n rfl
  obtain ⟨repF, touchF, same⟩ := fetch_spec rep (fun _ => s.heap n) here
  obtain ⟨s', retired, repRet, touchRet, stillRet, payload⟩ := retire_spec repF
  refine ⟨s', ?_, repRet, touchF.trans touchRet, (still_modify _).trans stillRet, ?_⟩
  · simp only [eventRun, same, if_neg origin, retired]
  · rw [payload, same]

/-- An epoll node goes back to the hash. -/
theorem eventRun_epoll (rep : Rep s queues (some n)) (origin : (s.heap n).addType = .event)
    (fresh : ∀ m ∈ s.master.event.datas, (s.heap m).fd ≠ (s.heap n).fd) :
    ∃ s', eventRun s n Engine.fetchPtr = .ok s' ∧ Rep s' queues none ∧ Touch n s s' ∧
      Still s s' ∧ (s'.heap n).payload = ({ s.heap n with type := .event } : EventNode).payload := by
  have here := rep.inHand n rfl
  obtain ⟨repF, touchF, same⟩ := fetch_spec rep (fun _ => s.heap n) here
  set f := s.modify Engine.fetchPtr fun _ => s.heap n
  set e := f.modify n fun e => { e with type := .event } with e_eq
  have repE : Rep e queues (some n) := repF.modify _ (fun _ => ⟨rfl, rfl⟩) (.inl rfl)
  have touchE : Touch n s e := touchF.trans (touch_modify _ (repF.inHand n rfl))
  have self : e.heap n = { s.heap n with type := .event } := by
    rw [e_eq, Engine.modify_self, same]
  have typed : (e.heap n).type = .event := by rw [self]
  have freshE : ∀ m ∈ e.master.event.datas, (e.heap m).fd ≠ (e.heap n).fd := by
    intro m stored
    obtain ⟨⟨there, apart⟩, _⟩ := (rep.hashed m).mp stored
    have different : m ≠ n := fun own => apart (congrArg some own.symm)
    rw [payload_fd (touchE.others m there different), self]
    exact fresh m stored
  refine ⟨hashInsert e n, ?_, repE.hashInsert typed freshE,
    ⟨touchE.allocated, touchE.others, touchE.timerfd⟩, ⟨rfl, rfl⟩, ?_⟩
  · simp only [eventRun]
    rw [if_pos (by rw [same]; exact origin)]
  · change (e.heap n).payload = _
    rw [self]

end Passing

end Poplar.EventCtl
