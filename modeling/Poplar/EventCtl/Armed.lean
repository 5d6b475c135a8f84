import Poplar.EventCtl.Partition

/-!
# Timers in order of expiry, and the timer that is armed
-/
namespace Poplar.EventCtl

theorem timespecCmp_neg {a b : Timespec} : timespecCmp a b < 0 ↔
    a.tvSec < b.tvSec ∨ a.tvSec = b.tvSec ∧ a.tvNsec < b.tvNsec := by
  unfold timespecCmp
  split <;> omega

theorem timespecCmp_pos {a b : Timespec} : timespecCmp a b > 0 ↔ timespecCmp b a < 0 := by
  rw [timespecCmp_neg]
  unfold timespecCmp
  split <;> omega

theorem timespecCmp_nonpos {a b : Timespec} : timespecCmp a b ≤ 0 ↔ ¬ timespecCmp b a < 0 := by
  rw [← timespecCmp_pos]
  omega

/-- Due strictly earlier, or at the same time and added earlier. -/
def Before (heap : Chain.Heap EventNode) (stamp : NodePtr → Nat) (p q : NodePtr) : Prop :=
  timespecCmp (heap p).time.itValue (heap q).time.itValue < 0 ∨
    timespecCmp (heap p).time.itValue (heap q).time.itValue = 0 ∧ stamp p < stamp q

/-- Due no later. -/
def NoLater (heap : Chain.Heap EventNode) (p q : NodePtr) : Prop :=
  timespecCmp (heap p).time.itValue (heap q).time.itValue ≤ 0

theorem Before.noLater {heap : Chain.Heap EventNode} {stamp : NodePtr → Nat} {p q : NodePtr}
    (before : Before heap stamp p q) : NoLater heap p q := by
  rcases before with earlier | ⟨same, _⟩
  · exact Int.le_of_lt earlier
  · exact Int.le_of_eq same

theorem NoLater.refl (heap : Chain.Heap EventNode) (p : NodePtr) : NoLater heap p p := by
  unfold NoLater
  rw [timespecCmp_nonpos, timespecCmp_neg]
  omega

theorem NoLater.trans {heap : Chain.Heap EventNode} {p q r : NodePtr} (first : NoLater heap p q)
    (second : NoLater heap q r) : NoLater heap p r := by
  unfold NoLater at *
  rw [timespecCmp_nonpos, timespecCmp_neg] at *
  omega

theorem not_sooner {heap : Chain.Heap EventNode} {p q : NodePtr} :
    ¬ Sooner heap p q ↔ NoLater heap q p := by
  unfold Sooner NoLater
  rw [timespecCmp_nonpos]

/-- A node added last goes behind all that are due no later. -/
theorem orderedInsert_before {heap : Chain.Heap EventNode} {stamp : NodePtr → Nat} {n : NodePtr}
    {ps : List NodePtr} (sorted : ps.Pairwise (Before heap stamp))
    (last : ∀ p ∈ ps, stamp p < stamp n) :
    (ps.orderedInsert (Sooner heap) n).Pairwise (Before heap stamp) := by
  induction ps with
  | nil => simp
  | cons p ps ih =>
      obtain ⟨first, rest⟩ := List.pairwise_cons.mp sorted
      rw [List.orderedInsert_cons]
      split
      next sooner =>
        refine List.pairwise_cons.mpr ⟨fun q member => ?_, sorted⟩
        rcases List.mem_cons.mp member with rfl | later
        · exact .inl sooner
        · left
          have behind := (first q later).noLater
          unfold Sooner NoLater at *
          rw [timespecCmp_nonpos, timespecCmp_neg] at behind
          rw [timespecCmp_neg] at sooner ⊢
          omega
      next later =>
        refine List.pairwise_cons.mpr ⟨fun q member => ?_, ih rest fun q member =>
          last q (List.mem_cons_of_mem p member)⟩
        rcases (List.mem_orderedInsert _).mp member with rfl | among
        · have behind := not_sooner.mp later
          unfold NoLater at behind
          rcases Int.lt_or_eq_of_le behind with earlier | same
          · exact .inl earlier
          · exact .inr ⟨same, last p (by simp)⟩
        · exact first q among

/-- Both timer lists are in order, and no stamp is used up. -/
structure InOrder (heap : Chain.Heap EventNode) (stamp : NodePtr → Nat) (adds : Nat)
    (queues : Queues) : Prop where
  sorted : ∀ l : ListName, l.Timed → (queues l).Pairwise (Before heap stamp)
  bound : ∀ l : ListName, l.Timed → ∀ p ∈ queues l, stamp p < adds

/-- The armed timer is the first due of both lists, and there is one if they hold any. -/
structure ArmedFirst (s : Engine) (queues : Queues) : Prop where
  idle : s.master.eventTimer.event = none → queues .timer = [] ∧ queues .rear = []
  listed : ∀ a, s.master.eventTimer.event = some a → ∃ l : ListName, l.Timed ∧ a ∈ queues l
  first : ∀ a, s.master.eventTimer.event = some a → ∀ l : ListName, l.Timed → ∀ q ∈ queues l,
    NoLater s.heap a q

section Order

variable {heap heap' : Chain.Heap EventNode} {stamp stamp' : NodePtr → Nat} {adds adds' : Nat}
variable {queues queues' : Queues} {s s' : Engine} {n : NodePtr}

theorem InOrder.shrink (order : InOrder heap stamp adds queues)
    (lists : ∀ l : ListName, l.Timed → (queues' l).Sublist (queues l))
    (words : ∀ l : ListName, l.Timed → ∀ q ∈ queues' l,
      (heap' q).time = (heap q).time ∧ stamp' q = stamp q) (grows : adds ≤ adds') :
    InOrder heap' stamp' adds' queues' := by
  refine ⟨fun l timed => ?_, fun l timed p member => ?_⟩
  · refine ((order.sorted l timed).sublist (lists l timed)).imp_of_mem fun {p q} inP inQ before => ?_
    obtain ⟨timeP, stampP⟩ := words l timed p inP
    obtain ⟨timeQ, stampQ⟩ := words l timed q inQ
    simpa only [Before, timeP, timeQ, stampP, stampQ] using before
  · rw [(words l timed p member).2]
    exact Nat.lt_of_lt_of_le (order.bound l timed p ((lists l timed).subset member)) grows

/-- The lists, their times and the armed timer are as they were. -/
theorem ArmedFirst.congr (armed : ArmedFirst s queues)
    (same : s'.master.eventTimer.event = s.master.eventTimer.event)
    (lists : ∀ l : ListName, l.Timed → queues' l = queues l)
    (times : ∀ l : ListName, l.Timed → ∀ q ∈ queues l, (s'.heap q).time = (s.heap q).time) :
    ArmedFirst s' queues' := by
  refine ⟨fun none => ?_, fun a some => ?_, fun a some l timed q member => ?_⟩
  · rw [lists .timer .timer, lists .rear .rear]
    exact armed.idle (same.symm.trans none)
  · obtain ⟨l, timed, member⟩ := armed.listed a (same.symm.trans some)
    exact ⟨l, timed, by rwa [lists l timed]⟩
  · rw [lists l timed] at member
    obtain ⟨l', timed', own⟩ := armed.listed a (same.symm.trans some)
    unfold NoLater
    rw [times l' timed' a own, times l timed q member]
    exact armed.first a (same.symm.trans some) l timed q member

/-- The first of a list in order is due no later than the others. -/
theorem head_noLater {ps : List NodePtr} (sorted : ps.Pairwise (Before heap stamp)) {p : NodePtr}
    (head : ps.head? = some p) : ∀ q ∈ ps, NoLater heap p q := by
  cases ps with
  | nil => cases head
  | cons first rest =>
      cases head
      intro q member
      rcases List.mem_cons.mp member with rfl | later
      · exact .refl heap q
      · exact (List.rel_of_pairwise_cons sorted later).noLater

theorem ArmedFirst.of_get (rep : Rep s queues none) (order : InOrder s.heap stamp adds queues)
    (reset : s.master.eventTimer.event = eventTimerGet s) : ArmedFirst s queues := by
  have timers := order.sorted .timer .timer
  have rears := order.sorted .rear .rear
  rw [rep.timerGet] at reset
  cases headR : (queues .rear).head? with
  | none =>
      have noRear : queues .rear = [] := List.head?_eq_none_iff.mp headR
      rw [headR] at reset
      refine ⟨fun none => ?_, fun a some => ?_, fun a some l timed q member => ?_⟩
      · exact ⟨List.head?_eq_none_iff.mp (reset.symm.trans none), noRear⟩
      · exact ⟨.timer, .timer, List.mem_of_mem_head? (reset.symm.trans some)⟩
      · cases timed with
        | timer => exact head_noLater timers (reset.symm.trans some) q member
        | rear => simp [noRear] at member
  | some r =>
      cases headT : (queues .timer).head? with
      | none =>
          have noTimer : queues .timer = [] := List.head?_eq_none_iff.mp headT
          rw [headR, headT] at reset
          refine ⟨fun none => (by cases reset.symm.trans none), fun a some => ?_,
            fun a some l timed q member => ?_⟩
          · cases reset.symm.trans some
            exact ⟨.rear, .rear, List.mem_of_mem_head? headR⟩
          · cases reset.symm.trans some
            cases timed with
            | timer => simp [noTimer] at member
            | rear => exact head_noLater rears headR q member
      | some t =>
          rw [headR, headT, earliest] at reset
          split at reset
          next later =>
            have sooner : NoLater s.heap t r :=
              Int.le_of_lt (timespecCmp_pos.mp later)
            refine ⟨fun none => (by cases reset.symm.trans none), fun a some => ?_,
              fun a some l timed q member => ?_⟩
            · cases reset.symm.trans some
              exact ⟨.timer, .timer, List.mem_of_mem_head? headT⟩
            · cases reset.symm.trans some
              cases timed with
              | timer => exact head_noLater timers headT q member
              | rear => exact sooner.trans (head_noLater rears headR q member)
          next earlier =>
            have sooner : NoLater s.heap r t := not_lt.mp earlier
            refine ⟨fun none => (by cases reset.symm.trans none), fun a some => ?_,
              fun a some l timed q member => ?_⟩
            · cases reset.symm.trans some
              exact ⟨.rear, .rear, List.mem_of_mem_head? headR⟩
            · cases reset.symm.trans some
              cases timed with
              | timer => exact sooner.trans (head_noLater timers headT q member)
              | rear => exact head_noLater rears headR q member

theorem Rep.inUse_of_timed (rep : Rep s queues none) {l : ListName} (timed : l.Timed) {q : NodePtr}
    (member : q ∈ queues l) : s.InUse q := by
  obtain ⟨⟨here, _⟩, typed⟩ := (rep.listed l q).mp member
  refine ⟨here, ?_⟩
  rw [typed]
  cases timed <;> decide

theorem TimerAdded.members {l : ListName} (added : TimerAdded s queues l n s' queues')
    {l' : ListName} (timed : l'.Timed) {q : NodePtr} (member : q ∈ queues' l') :
    q = n ∨ q ∈ queues l' := by
  by_cases same : l' = l
  · subst same
    rw [added.queue] at member
    exact (List.mem_orderedInsert _).mp member
  · rw [added.others l' same timed.ne_unuse] at member
    exact .inr member

theorem TimerAdded.times {l : ListName} (added : TimerAdded s queues l n s' queues')
    (rep : Rep s queues none) {l' : ListName} (timed : l'.Timed) {q : NodePtr}
    (member : q ∈ queues l') : (s'.heap q).time = (s.heap q).time ∧ q ≠ n := by
  have inUse := rep.inUse_of_timed timed member
  have different : q ≠ n := fun own => added.free (own ▸ inUse)
  exact ⟨payload_time (added.touch.others q inUse.1 different), different⟩

theorem InOrder.add {l : ListName} (order : InOrder s.heap stamp adds queues)
    (rep : Rep s queues none) (timed : l.Timed) (added : TimerAdded s queues l n s' queues') :
    InOrder s'.heap (Function.update stamp n adds) (adds + 1) queues' := by
  have kept : InOrder s'.heap (Function.update stamp n adds) adds queues :=
    order.shrink (fun _ _ => .refl _) (fun l' timed' q member => by
      obtain ⟨time, different⟩ := added.times rep timed' member
      exact ⟨time, Function.update_of_ne different _ _⟩) le_rfl
  refine ⟨fun l' timed' => ?_, fun l' timed' p member => ?_⟩
  · by_cases same : l' = l
    · subst same
      rw [added.queue]
      refine orderedInsert_before (kept.sorted l' timed') fun p member => ?_
      rw [Function.update_self]
      exact kept.bound l' timed' p member
    · rw [added.others l' same timed'.ne_unuse]
      exact kept.sorted l' timed'
  · rcases added.members timed' member with rfl | older
    · rw [Function.update_self]
      exact Nat.lt_succ_self adds
    · exact Nat.lt_succ_of_lt (kept.bound l' timed' p older)

theorem armFor_armed (s : Engine) (n : NodePtr) :
    (armFor s n true).master.eventTimer.event = some n ∧
        (∀ a, s.master.eventTimer.event = some a → NoLater s.heap n a) ∨
      ∃ a, (armFor s n true).master.eventTimer.event = some a ∧
        s.master.eventTimer.event = some a ∧ NoLater s.heap a n := by
  unfold armFor
  cases armed : s.master.eventTimer.event with
  | none => exact .inl ⟨rfl, fun a impossible => by cases impossible⟩
  | some a =>
      dsimp only
      split
      next later =>
        refine .inl ⟨rfl, fun a' same => ?_⟩
        cases same
        exact Int.le_of_lt (timespecCmp_pos.mp later)
      next earlier => exact .inr ⟨a, armed, rfl, not_lt.mp earlier⟩

theorem ArmedFirst.add {l : ListName} (armed : ArmedFirst s queues) (rep : Rep s queues none)
    (timed : l.Timed) (added : TimerAdded s queues l n s' queues') :
    ArmedFirst (armFor s' n true) queues' := by
  have heap : (armFor s' n true).heap = s'.heap := (armFor_retimed s' n true).heap
  have pointer : s'.master.eventTimer.event = s.master.eventTimer.event :=
    congrArg EventTimer.event added.still.eventTimer
  have enters : n ∈ queues' l := by
    rw [added.queue]
    exact (List.mem_orderedInsert _).mpr (.inl rfl)
  have older : ∀ a, s.master.eventTimer.event = some a → ∀ l' : ListName, l'.Timed →
      ∀ q ∈ queues l', NoLater s'.heap a q := by
    intro a some l' timed' q member
    obtain ⟨lA, timedA, own⟩ := armed.listed a some
    unfold NoLater
    rw [(added.times rep timedA own).1, (added.times rep timed' member).1]
    exact armed.first a some l' timed' q member
  have stays : ∀ l' : ListName, l'.Timed → ∀ q ∈ queues l', q ∈ queues' l' := by
    intro l' timed' q member
    by_cases same : l' = l
    · subst same
      rw [added.queue]
      exact (List.mem_orderedInsert _).mpr (.inr member)
    · rwa [added.others l' same timed'.ne_unuse]
  rcases armFor_armed s' n with ⟨own, earlier⟩ | ⟨a, kept, was, earlier⟩
  · refine ⟨fun none => (by cases own.symm.trans none), fun a some => ?_,
      fun a some l' timed' q member => ?_⟩
    · cases own.symm.trans some
      exact ⟨l, timed, enters⟩
    · cases own.symm.trans some
      rw [heap]
      rcases added.members timed' member with rfl | old
      · exact .refl _ _
      · cases before : s.master.eventTimer.event with
        | none =>
            obtain ⟨noTimer, noRear⟩ := armed.idle before
            cases timed' <;> simp_all
        | some b => exact (earlier b (pointer.trans before)).trans (older b before l' timed' q old)
  · rw [pointer] at was
    refine ⟨fun none => (by cases kept.symm.trans none), fun b some => ?_,
      fun b some l' timed' q member => ?_⟩
    · cases kept.symm.trans some
      obtain ⟨lA, timedA, member⟩ := armed.listed a was
      exact ⟨lA, timedA, stays lA timedA a member⟩
    · cases kept.symm.trans some
      rw [heap]
      rcases added.members timed' member with rfl | old
      · exact earlier
      · exact older a was l' timed' q old

theorem Cancelled.times {settimeOk : Bool} (cancelled : Cancelled s queues n settimeOk s' queues')
    (rep : Rep s queues none) {l : ListName} (timed : l.Timed) {q : NodePtr}
    (member : q ∈ queues' l) : (s'.heap q).time = (s.heap q).time ∧ q ∈ queues l ∧ q ≠ n := by
  rw [cancelled.others l timed.ne_unuse] at member
  obtain ⟨different, older⟩ := ((rep.chain l).nodup.mem_erase_iff).mp member
  exact ⟨payload_time (cancelled.touch.others q ((rep.listed l q).mp older).1.1 different), older,
    different⟩

theorem ArmedFirst.cancel (armed : ArmedFirst s queues) (rep : Rep s queues none)
    (cancelled : Cancelled s queues n true s' queues')
    (order : InOrder s'.heap stamp adds queues') : ArmedFirst s' queues' := by
  by_cases own : s.master.eventTimer.event = some n
  · obtain ⟨l, timed, member⟩ := armed.listed n own
    have notEvent : (s.heap n).type ≠ .event := by
      rw [((rep.listed l n).mp member).2]
      exact l.type_ne_event
    exact .of_get cancelled.rep order (cancelled.rearms rfl notEvent own)
  · have same := cancelled.keepsArmed own
    refine ⟨fun none => ?_, fun a some => ?_, fun a some l timed q member => ?_⟩
    · obtain ⟨noTimer, noRear⟩ := armed.idle (same.symm.trans none)
      rw [cancelled.others .timer (by decide), cancelled.others .rear (by decide), noTimer, noRear]
      exact ⟨rfl, rfl⟩
    · have was := same.symm.trans some
      obtain ⟨l, timed, member⟩ := armed.listed a was
      have different : a ≠ n := fun eq => own (eq ▸ was)
      refine ⟨l, timed, ?_⟩
      rw [cancelled.others l timed.ne_unuse]
      exact (List.mem_erase_of_ne different).mpr member
    · have was := same.symm.trans some
      obtain ⟨lA, timedA, memberA⟩ := armed.listed a was
      have different : a ≠ n := fun eq => own (eq ▸ was)
      have kept := payload_time (cancelled.touch.others a ((rep.listed lA a).mp memberA).1.1 different)
      obtain ⟨time, older, _⟩ := cancelled.times rep timed member
      unfold NoLater
      rw [kept, time]
      exact armed.first a was l timed q older

end Order

section Moves

variable {stamp : NodePtr → Nat} {adds : Nat}

theorem PassMove.timed {view view' : View} (move : PassMove view view') {l : ListName}
    (timed : l.Timed) : (view'.2 l).Sublist (view.2 l) := by
  have notReady : l ≠ .ready := by rintro rfl; cases timed
  cases move with
  | @expire s s' queues l' n ys now timed' split _ _ _ =>
      by_cases same : l = l'
      · subst same
        simp [Function.update_of_ne notReady, split]
      · simp [Function.update_of_ne notReady, Function.update_of_ne same]
  | report _ _ _ => simp [Function.update_of_ne notReady]
  | retime _ _ => exact .refl _

theorem PassMoves.inOrder {view view' : View} (moves : PassMoves view view')
    (rep : Rep view.1 view.2 none) (order : InOrder view.1.heap stamp adds view.2) :
    InOrder view'.1.heap stamp adds view'.2 := by
  induction moves with
  | refl => exact order
  | tail before last ih =>
      have repMid := PassMoves.rep before rep
      refine ih.shrink (fun l timed => last.timed timed) (fun l timed q member => ⟨?_, rfl⟩) le_rfl
      have older := (last.timed timed).subset member
      exact (last.words ((repMid.listed l q).mp older).1.1).2.1

theorem Dispatch.timed {n : NodePtr} {view view' : View} (dispatch : Dispatch n view view')
    (rep : Rep view.1 view.2 none) :
    view'.1.master.eventTimer.event = view.1.master.eventTimer.event ∧
      ∀ l : ListName, l.Timed → view'.2 l = view.2 l ∧
        ∀ q ∈ view.2 l, (view'.1.heap q).time = (view.1.heap q).time := by
  have words : ∀ {s s' : Engine} {queues : Queues}, Rep s queues none → n ∈ queues .ready →
      Touch n s s' → ∀ l : ListName, l.Timed → ∀ q ∈ queues l,
        (s'.heap q).time = (s.heap q).time := by
    intro s s' queues rep ready touch l timed q member
    have notReady : l ≠ .ready := by rintro rfl; cases timed
    have different : q ≠ n := fun own => rep.disjoint notReady q member (own ▸ ready)
    exact payload_time (touch.others q ((rep.listed l q).mp member).1.1 different)
  cases dispatch with
  | timer split _ touch still _ _ =>
      refine ⟨congrArg EventTimer.event still.eventTimer, fun l timed => ⟨?_, ?_⟩⟩
      · have notReady : l ≠ .ready := by rintro rfl; cases timed
        simp [Function.update_of_ne timed.ne_unuse, Function.update_of_ne notReady]
      · exact words rep (by simp [split]) touch l timed
  | epoll split _ touch still _ _ =>
      refine ⟨congrArg EventTimer.event still.eventTimer, fun l timed => ⟨?_, ?_⟩⟩
      · have notReady : l ≠ .ready := by rintro rfl; cases timed
        simp [Function.update_of_ne notReady]
      · exact words rep (by simp [split]) touch l timed

end Moves

/-- Whether `timerfd_settime` succeeds in a command. -/
def Op.settimeOk : Op → Bool
  | .timerAdd _ _ _ _ _ ok => ok
  | .cancel _ ok => ok
  | .wait (.reported _ _ ok) => ok
  | _ => true

/-- Runs in which `timerfd_settime` succeeds. -/
def timedRuns : Runs.System Run Op Fault where
  start := runs.start
  guard r op := r.Admits op ∧ op.settimeOk = true
  exec := Run.exec

structure OnTime (r : Run) (queues : Queues) : Prop where
  coherent : Coherent r queues
  order : InOrder r.engine.heap r.stamp r.adds queues
  armed : ArmedFirst r.engine queues

section Runs

variable {r r' : Run} {queues : Queues}

/-- A node that was free changes and the timer lists do not. -/
theorem OnTime.elsewhere {s s' : Engine} {stamp stamp' : NodePtr → Nat} {adds adds' : Nat}
    {queues' : Queues} {n : NodePtr} (rep : Rep s queues none)
    (order : InOrder s.heap stamp adds queues) (armed : ArmedFirst s queues) (touch : Touch n s s')
    (free : ¬ s.InUse n) (pointer : s'.master.eventTimer.event = s.master.eventTimer.event)
    (lists : ∀ l : ListName, l.Timed → queues' l = queues l) (grows : adds ≤ adds')
    (stamps : ∀ q, q ≠ n → stamp' q = stamp q) :
    InOrder s'.heap stamp' adds' queues' ∧ ArmedFirst s' queues' := by
  have words : ∀ l : ListName, l.Timed → ∀ q ∈ queues l,
      (s'.heap q).time = (s.heap q).time ∧ stamp' q = stamp q := by
    intro l timed q member
    have inUse := rep.inUse_of_timed timed member
    have different : q ≠ n := fun own => free (own ▸ inUse)
    exact ⟨payload_time (touch.others q inUse.1 different), stamps q different⟩
  exact ⟨order.shrink (fun l timed => by rw [lists l timed])
      (fun l timed q member => words l timed q (lists l timed ▸ member)) grows,
    armed.congr pointer lists fun l timed q member => (words l timed q member).1⟩

theorem OnTime.initial (timerfd : Int) (epEvents : Nat) :
    ∃ queues, OnTime (Run.initial timerfd epEvents) queues := by
  obtain ⟨n, queues, added⟩ := initial_added timerfd epEvents
  have nothing : InOrder (Engine.blank timerfd).heap (fun _ => 0) 0 fun _ => [] :=
    ⟨fun _ _ => List.Pairwise.nil, fun _ _ _ member => by cases member⟩
  have nobody : ArmedFirst (Engine.blank timerfd) fun _ => [] :=
    ⟨fun _ => ⟨rfl, rfl⟩, fun _ impossible => (by cases impossible),
      fun _ _ _ _ _ member => (by cases member)⟩
  obtain ⟨order, armed⟩ := OnTime.elsewhere (blank_rep timerfd) nothing nobody added.touch added.free
    (congrArg EventTimer.event added.eventTimer) (fun l timed => added.others l timed.ne_unuse)
    (Nat.le_refl 0) fun _ _ => rfl
  exact ⟨queues, initial_coherent added, order, armed⟩

theorem OnTime.waited (onTime : OnTime r queues) {w : Waited} {mid s' : Engine}
    {qmid queues' : Queues} (moves : PassMoves (r.engine, queues) (mid, qmid))
    (fetches : Fetches w (mid, qmid) (s', queues'))
    (reset : mid = r.engine ∧ qmid = queues ∨ mid.master.eventTimer.event = eventTimerGet mid) :
    OnTime (r.waited (w, s')) queues' := by
  have rep : Rep mid qmid none := PassMoves.rep moves onTime.coherent.rep
  have order : InOrder mid.heap r.stamp r.adds qmid :=
    PassMoves.inOrder moves onTime.coherent.rep onTime.order
  have armed : ArmedFirst mid qmid := by
    rcases reset with ⟨rfl, rfl⟩ | reset
    · exact onTime.armed
    · exact .of_get rep order reset
  have coherent := onTime.coherent.waited moves fetches
  have words : (r.waited (w, s')).engine = s' ∧ (r.waited (w, s')).stamp = r.stamp ∧
      (r.waited (w, s')).adds = r.adds := by
    cases w with
    | fetched n =>
        simp only [Run.waited]
        split <;> exact ⟨rfl, rfl, rfl⟩
    | null => exact ⟨rfl, rfl, rfl⟩
    | waiting => exact ⟨rfl, rfl, rfl⟩
  refine ⟨coherent, ?_, ?_⟩
  · rw [words.1, words.2.1, words.2.2]
    cases fetches with
    | idle => exact order
    | null => exact order
    | retry => exact order
    | fetched dispatch =>
        obtain ⟨_, kept⟩ := dispatch.timed rep
        dsimp only at kept
        exact order.shrink (fun l timed => by rw [(kept l timed).1])
          (fun l timed q member => ⟨(kept l timed).2 q ((kept l timed).1 ▸ member), rfl⟩) le_rfl
  · rw [words.1]
    cases fetches with
    | idle => exact armed
    | null => exact armed
    | retry => exact armed
    | fetched dispatch =>
        obtain ⟨pointer, kept⟩ := dispatch.timed rep
        exact armed.congr pointer (fun l timed => (kept l timed).1) fun l timed => (kept l timed).2

theorem exec_onTime (onTime : OnTime r queues) {op : Op} (admits : r.Admits op)
    (settimeOk : op.settimeOk = true) (executes : r.exec op = .ok r') :
    ∃ queues', OnTime r' queues' := by
  obtain ⟨coherent, order, armed⟩ := onTime
  have rep := coherent.rep
  have sound := coherent.sound
  obtain ⟨r'', queues'', run'', coherent'⟩ := exec_coherent coherent admits
  cases executes.symm.trans run''
  have finish : ∀ {queues'}, Rep r'.engine queues' none →
      InOrder r'.engine.heap r'.stamp r'.adds queues' ∧ ArmedFirst r'.engine queues' →
        ∃ queues', OnTime r' queues' := by
    intro queues' rep' both
    exact ⟨queues', coherent'.rep.unique rep' ▸ coherent', both.1, both.2⟩
  obtain ⟨permits, reportable⟩ := admits
  cases op with
  | timerAdd adder now func arg time ok =>
      have isOk : ok = true := settimeOk
      subst isOk
      rcases adder.run_spec rep now func arg time true with run | ⟨n, mid, queues', run, added⟩
      · simp only [Run.exec, run] at executes
        cases executes
        exact finish rep ⟨order, armed⟩
      · simp only [Run.exec, run] at executes
        cases executes
        have retimed := armFor_retimed mid n true
        refine finish (retimed.rep added.rep) ⟨?_, armed.add rep adder.timed added⟩
        simp only [Run.grant, retimed.heap]
        exact order.add rep adder.timed added
  | epollAdd func arg epEvents fd =>
      obtain ⟨n, s', queues', run, added⟩ := sound.epollAdd rep func arg epEvents permits
      simp only [Run.exec, run] at executes
      cases executes
      exact finish added.rep (OnTime.elsewhere rep order armed added.touch added.free
        (congrArg EventTimer.event added.eventTimer) (fun l timed => added.others l timed.ne_unuse)
        (Nat.le_succ _) fun q different => Function.update_of_ne different _ _)
  | epollMod func arg epEvents fd =>
      obtain ⟨result, s', run, repMod, _, master, words, _⟩ :=
        eventEpollMod_spec rep func arg epEvents fd
      simp only [Run.exec, run] at executes
      cases executes
      refine finish repMod ⟨order.shrink (fun _ _ => .refl _)
        (fun l _ q _ => ⟨(words q).2.2.2, rfl⟩) le_rfl, ?_⟩
      exact armed.congr (by rw [master]) (fun _ _ => rfl) fun l _ q _ => (words q).2.2.2
  | cancel event ok =>
      have isOk : ok = true := settimeOk
      subst isOk
      obtain ⟨s', queues', run, cancelled⟩ := eventCancel_spec rep (coherent.owned event permits)
        (fun m member same stored => sound.only rep stored m member same) true
      simp only [Run.exec, run] at executes
      cases executes
      have order' : InOrder s'.heap r.stamp r.adds queues' :=
        order.shrink (fun l timed => by
          rw [cancelled.others l timed.ne_unuse]
          exact List.erase_sublist)
        (fun l timed q member => ⟨(cancelled.times rep timed member).1, rfl⟩) le_rfl
      exact finish cancelled.rep ⟨order', armed.cancel rep cancelled order'⟩
  | close fd =>
      cases executes
      exact finish coherent'.rep ⟨coherent'.rep.unique
        (rep.congr rfl rfl rfl rfl (fun _ _ => ⟨rfl, rfl⟩) fun _ _ _ => ⟨rfl, rfl⟩) ▸ order,
        coherent'.rep.unique
        (rep.congr rfl rfl rfl rfl (fun _ _ => ⟨rfl, rfl⟩) fun _ _ _ => ⟨rfl, rfl⟩) ▸
          ⟨armed.idle, armed.listed, armed.first⟩⟩
  | wait answer =>
      obtain ⟨mid, qmid, w, s', queues', run, moves, fetches, polled⟩ := eventWaitingPass_spec rep
        sound answer fun idle events now ok same => by
          subst same
          exact reportable (by rw [(rep.chain .ready).head, idle]; rfl)
      simp only [Run.exec, run] at executes
      cases executes
      refine ⟨queues', OnTime.waited ⟨coherent, order, armed⟩ moves fetches ?_⟩
      rcases polled with untouched | ⟨events, now, ok, same, reset⟩
      · exact .inl untouched
      · subst same
        exact .inr (reset settimeOk)

theorem onTime_of_reachable (reachable : timedRuns.Reachable r) : ∃ queues, OnTime r queues := by
  refine reachable.invariant (motive := fun r => ∃ queues, OnTime r queues) ?_ ?_
  · rintro _ ⟨timerfd, epEvents, rfl⟩
    exact OnTime.initial timerfd epEvents
  · rintro r op r' ⟨queues, onTime⟩ ⟨admits, settimeOk⟩ executes
    exact exec_onTime onTime admits settimeOk executes

end Runs

/-- Both lists are sorted by expiry with ties in the order of insertion; the armed timer
is NULL if there is none and otherwise the first due of both lists. -/
structure TimersKept (r : Run) : Prop where
  sorted : ∀ l : ListName, l.Timed →
    (r.engine.nodes l).Pairwise (Before r.engine.heap r.stamp)
  idle : r.engine.master.eventTimer.event = none ↔
    r.engine.nodes .timer = [] ∧ r.engine.nodes .rear = []
  due : ∀ a, r.engine.master.eventTimer.event = some a →
    (a ∈ r.engine.nodes .timer ∨ a ∈ r.engine.nodes .rear) ∧
      ∀ q, q ∈ r.engine.nodes .timer ∨ q ∈ r.engine.nodes .rear → NoLater r.engine.heap a q

theorem OnTime.kept {r : Run} {queues : Queues} (onTime : OnTime r queues) : TimersKept r := by
  obtain ⟨coherent, order, armed⟩ := onTime
  refine ⟨fun l timed => ?_, ?_, fun a some => ?_⟩
  · rw [coherent.rep.nodes_eq]
    exact order.sorted l timed
  · rw [coherent.rep.nodes_eq, coherent.rep.nodes_eq]
    refine ⟨armed.idle, fun ⟨noTimer, noRear⟩ => ?_⟩
    cases event : r.engine.master.eventTimer.event with
    | none => rfl
    | some a =>
        obtain ⟨l, timed, member⟩ := armed.listed a event
        cases timed with
        | timer => simp [noTimer] at member
        | rear => simp [noRear] at member
  · rw [coherent.rep.nodes_eq, coherent.rep.nodes_eq]
    refine ⟨?_, fun q member => ?_⟩
    · obtain ⟨l, timed, member⟩ := armed.listed a some
      cases timed with
      | timer => exact .inl member
      | rear => exact .inr member
    · exact member.elim (armed.first a some .timer .timer q) (armed.first a some .rear .rear q)

theorem timers_invariant {r : Run} (reachable : timedRuns.Reachable r) : TimersKept r := by
  obtain ⟨queues, onTime⟩ := onTime_of_reachable reachable
  exact onTime.kept

/-- Ties, an earlier timer behind a later one, the armed timer cancelled, and a turn that
finds one due. -/
def timedOps : List Op :=
  [.timerAdd .timer (some ⟨1, 0⟩) 2 0 3 true, .timerAdd .rear (some ⟨1, 0⟩) 2 0 3 true,
    .timerAdd .timer (some ⟨1, 0⟩) 2 0 3 true, .timerAdd .timerMsec (some ⟨1, 0⟩) 2 0 20 true,
    .cancel 5 true, .wait (.reported [⟨1, 1⟩] (some ⟨9, 0⟩) true)]

theorem timers_invariant_sample : ∃ r, timedRuns.replay
      (fun r op => decide (r.Admits op) && op.settimeOk) id timedOps (Run.initial 4 1) = some r ∧
    TimersKept r := by
  have finishes : (timedRuns.replay (fun r op => decide (r.Admits op) && op.settimeOk) id timedOps
      (Run.initial 4 1)).isSome = true := by decide +kernel
  obtain ⟨r, replayed⟩ := Option.isSome_iff_exists.mp finishes
  refine ⟨r, replayed, timers_invariant (.replay (fun r op admitted => ?_) (.start ⟨4, 1, rfl⟩)
    replayed)⟩
  obtain ⟨admits, settimeOk⟩ := Bool.and_eq_true_iff.mp admitted
  exact ⟨of_decide_eq_true admits, settimeOk⟩

end Poplar.EventCtl
