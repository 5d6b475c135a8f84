import Poplar.EventCtl.Partition

/-!
# What a refused epoll_ctl leaves behind

Three operations answer NULL when `epoll_ctl` refuses. None of them takes back what it
did before it asked: the adder has a node in hand by then, the other two have written
words of a node.
-/
namespace Poplar.EventCtl
open Chain (next prev)

/-- The operations that report a refusal. -/
inductive CtlCall where
  | add (func arg epEvents : Nat) (fd : Int)
  | mod (func arg epEvents : Nat) (fd : Int)
  | reset (node : NodePtr)
  deriving DecidableEq, Repr

/-- Allocated, and in none of the containers. -/
def Engine.Outside (s : Engine) (p : NodePtr) : Prop :=
  s.Allocated p ∧ ∀ c : Container, p ∉ c.members s

/-- The words of a node that tell what it waits for and who handles it. -/
def EventNode.duty (e : EventNode) : EventType × Nat × Nat × EpollEvent :=
  (e.type, e.func, e.arg, e.listenEvent)

namespace CtlCall

/-- If the call answers NULL, it has left no node outside the containers, or the words of
the node it looked up as they were. -/
def Keeps (s : Engine) (ctlOk : Bool) : CtlCall → Prop
  | .add func arg epEvents fd =>
    (eventEpollAdd s func arg epEvents fd ctlOk).1 = none →
      ∀ p, ¬ (eventEpollAdd s func arg epEvents fd ctlOk).2.Outside p
  | .mod func arg epEvents fd =>
    ∀ s', eventEpollMod s func arg epEvents fd ctlOk = .ok (none, s') →
      ∀ node, eventEpollLookupByFd s fd = .ok (some node) →
        (s'.heap node).duty = (s.heap node).duty
  | .reset node =>
    (eventEpollReset s node ctlOk).1 = none →
      ((eventEpollReset s node ctlOk).2.heap node).duty = (s.heap node).duty

/-- Either `epoll_ctl` does not refuse, or the words written are those already there. -/
def Harmless (s : Engine) (ctlOk : Bool) : CtlCall → Prop
  | .add _ _ _ fd => ctlOk = true ∧ s.epoll fd = none
  | .mod func arg epEvents fd =>
    (ctlOk = true ∧ s.epoll fd ≠ none) ∨
      ∀ node, eventEpollLookupByFd s fd = .ok (some node) →
        (s.heap node).func = func ∧ (s.heap node).arg = arg ∧
          (s.heap node).listenEvent = ⟨epEvents, node⟩
  | .reset node =>
    (ctlOk = true ∧ s.epoll (s.heap node).fd = none) ∨ (s.heap node).type = .event

end CtlCall

section Calls

variable {s s' : Engine} {queues : Queues} {n : NodePtr}

theorem epollCtl_add_none {set : Int → Option EpollEvent} {fd : Int} {ev : EpollEvent} {ok : Bool} :
    epollCtl set .add fd ev ok = none ↔ ¬ (ok = true ∧ set fd = none) := by
  simp only [epollCtl, ite_eq_right_iff, reduceCtorEq, imp_false]

theorem epollCtl_mod_none {set : Int → Option EpollEvent} {fd : Int} {ev : EpollEvent} {ok : Bool} :
    epollCtl set .mod fd ev ok = none ↔ ¬ (ok = true ∧ set fd ≠ none) := by
  simp only [epollCtl, ite_eq_right_iff, reduceCtorEq, imp_false]

/-- A node in the caller's hand is in no container. -/
theorem Rep.outside (rep : Rep s queues (some n)) : s.Outside n := by
  have chains : ∀ l, s.nodes l = queues l := fun l => (rep.chain l).walk (rep.enough l)
  refine ⟨rep.inHand n rfl, ?_⟩
  intro c member
  cases c with
  | list l =>
      have listed : n ∈ queues l := chains l ▸ member
      exact rep.hand_unlisted l listed
  | hash => exact ((rep.hashed n).mp member).1.2 rfl

/-- A refused registration leaves its node with nobody. -/
theorem eventEpollAdd_refused (rep : Rep s queues none) (func arg epEvents : Nat) {fd : Int}
    {ok : Bool} (refused : ¬ (ok = true ∧ s.epoll fd = none)) :
    ∃ n s', eventEpollAdd s func arg epEvents fd ok = (none, s') ∧ s'.Outside n := by
  obtain ⟨n, taken, queues', got, held, _⟩ := eventNodeGet_spec rep .event func arg
  have same : taken.epoll = s.epoll := held.still.epoll
  have named := held.rep.modify (fun e => { e with listenEvent := ⟨epEvents, n⟩, fd := fd })
    (fun _ => ⟨rfl, rfl⟩) (.inl rfl)
  refine ⟨n, _, ?_, named.outside⟩
  have denied : epollCtl taken.epoll .add fd ⟨epEvents, n⟩ ok = none := by
    rw [epollCtl_add_none, same]
    exact refused
  simp only [eventEpollAdd, got, Engine.modify_epoll, denied]

theorem add_keeps_iff (rep : Rep s queues none) (func arg epEvents : Nat) (fd : Int) (ok : Bool) :
    (CtlCall.add func arg epEvents fd).Keeps s ok ↔
      (CtlCall.add func arg epEvents fd).Harmless s ok := by
  constructor
  · intro keeps
    by_contra refused
    obtain ⟨n, s', added, outside⟩ := eventEpollAdd_refused rep func arg epEvents refused
    have answered : (eventEpollAdd s func arg epEvents fd ok).1 = none := by rw [added]
    have inside := keeps answered n
    rw [added] at inside
    exact inside outside
  · rintro ⟨accepted, unregistered⟩ answered
    subst accepted
    obtain ⟨n, taken, queues', got, held, _⟩ := eventNodeGet_spec rep .event func arg
    have same : taken.epoll = s.epoll := held.still.epoll
    have allowed : epollCtl taken.epoll .add fd ⟨epEvents, n⟩ true =
        some (Function.update taken.epoll fd (some ⟨epEvents, n⟩)) := by
      rw [epollCtl, if_pos ⟨rfl, same ▸ unregistered⟩]
    simp only [eventEpollAdd, got, Engine.modify_epoll, allowed] at answered
    cases answered

theorem mod_keeps_iff (func arg epEvents : Nat) (fd : Int) (ok : Bool) :
    (CtlCall.mod func arg epEvents fd).Keeps s ok ↔
      (CtlCall.mod func arg epEvents fd).Harmless s ok := by
  constructor
  · intro keeps
    by_cases allowed : ok = true ∧ s.epoll fd ≠ none
    · exact .inl allowed
    · refine .inr fun node found => ?_
      have denied : epollCtl s.epoll .mod fd ⟨epEvents, node⟩ ok = none :=
        epollCtl_mod_none.mpr allowed
      have run := eventEpollMod_eq func arg epEvents ok found
      rw [denied, Option.elim_none] at run
      have same := keeps _ run node found
      simp only [EventNode.duty, Engine.modify_self, Prod.mk.injEq, true_and] at same
      exact ⟨same.1.symm, same.2.1.symm, same.2.2.symm⟩
  · intro harmless s' run node found
    rw [eventEpollMod_eq func arg epEvents _ found] at run
    rcases harmless with allowed | already
    · cases asked : epollCtl s.epoll .mod fd ⟨epEvents, node⟩ ok with
      | none => exact absurd allowed (epollCtl_mod_none.mp asked)
      | some set => rw [asked] at run; cases run
    · obtain ⟨func_eq, arg_eq, listen_eq⟩ := already node found
      cases asked : epollCtl s.epoll .mod fd ⟨epEvents, node⟩ ok with
      | none =>
          rw [asked] at run
          cases run
          simp only [EventNode.duty, Engine.modify_self, func_eq, arg_eq, listen_eq]
      | some set => rw [asked] at run; cases run

theorem reset_keeps_iff (node : NodePtr) (ok : Bool) :
    (CtlCall.reset node).Keeps s ok ↔ (CtlCall.reset node).Harmless s ok := by
  have written : ((s.modify node fun e => { e with type := .event }).heap node).fd =
      (s.heap node).fd := by rw [Engine.modify_self]
  unfold CtlCall.Keeps CtlCall.Harmless
  simp only [eventEpollReset, Engine.modify_epoll, written]
  cases asked : epollCtl s.epoll .add (s.heap node).fd
      ((s.modify node fun e => { e with type := .event }).heap node).listenEvent ok with
  | none =>
      have refused := epollCtl_add_none.mp asked
      simp only [EventNode.duty, Engine.modify_self, Prod.mk.injEq, and_true, true_implies]
      constructor
      · intro same
        exact .inr same.symm
      · intro harmless
        exact (harmless.resolve_left refused).symm
  | some set =>
      refine iff_of_true (fun impossible => by cases impossible) (.inl ?_)
      by_contra refused
      cases asked.symm.trans (epollCtl_add_none.mpr refused)

end Calls

/-- The commands, and those of them that go on when `epoll_ctl` refuses: a cancelled node
is given back, a changed one keeps its new words. -/
inductive RefusedOp where
  | op (op : Op)
  | modRefused (func arg epEvents : Nat) (fd : Int)
  | cancelRefused (event : NodePtr) (settimeOk : Bool)

/-- Runs in which every registration so far was accepted. -/
def refusedRuns : Runs.System Run RefusedOp Fault where
  start := runs.start
  guard r
    | .op op => r.Admits op
    | .modRefused .. => True
    | .cancelRefused event _ => event ∈ r.owned
  exec
    | .op op, r => r.exec op
    | .modRefused func arg epEvents fd, r => do
      let (_, s) ← eventEpollMod r.engine func arg epEvents fd false
      return { r with engine := s }
    | .cancelRefused event settimeOk, r => do
      return r.drop event (← eventCancel r.engine event settimeOk false)

section Runs

variable {r r' : Run} {queues : Queues}

/-- Descriptors that were registered stay so. -/
theorem Coherent.reregister (coherent : Coherent r queues) (set : Int → Option EpollEvent)
    (kept : ∀ fd, r.engine.epoll fd ≠ none → set fd ≠ none) :
    Coherent { r with engine := { r.engine with epoll := set } } queues := by
  have sound := coherent.sound
  refine ⟨?_, ?_, coherent.owned⟩
  · exact coherent.rep.congr rfl rfl rfl rfl (fun _ _ => ⟨rfl, rfl⟩) fun _ _ _ => ⟨rfl, rfl⟩
  · exact ⟨sound.distinct, fun p live => kept _ (sound.registered p live), sound.timers,
      sound.events⟩

/-- The words a change writes say nothing about where a node is. -/
theorem Coherent.rewrite (coherent : Coherent r queues) (node : NodePtr) (func arg : Nat)
    (listen : EpollEvent) : Coherent { r with engine := r.engine.modify node fun e =>
      { e with listenEvent := listen, func := func, arg := arg } } queues := by
  set s := r.engine.modify node fun e =>
    { e with listenEvent := listen, func := func, arg := arg } with s_eq
  have words : ∀ q, (s.heap q).type = (r.engine.heap q).type ∧
      (s.heap q).addType = (r.engine.heap q).addType ∧ (s.heap q).fd = (r.engine.heap q).fd := by
    intro q
    by_cases own : q = node
    · subst own
      rw [s_eq, Engine.modify_self]
      exact ⟨rfl, rfl, rfl⟩
    · rw [s_eq, Engine.modify_of_ne _ _ _ _ own]
      exact ⟨rfl, rfl, rfl⟩
  have live : ∀ q, s.Live q ↔ r.engine.Live q := by
    intro q
    rw [Engine.Live, Engine.Live, (words q).1, (words q).2.1]
    exact Iff.rfl
  have sound := coherent.sound
  have rep : Rep s queues none :=
    coherent.rep.modify _ (fun _ => ⟨rfl, rfl⟩) (.inr fun _ => ⟨rfl, rfl⟩)
  refine ⟨rep, ?_, ?_⟩
  · constructor
    · intro p q
      rw [live, live, (words p).2.2, (words q).2.2]
      exact sound.distinct p q
    · intro p here
      rw [(words p).2.2]
      exact sound.registered p ((live p).mp here)
    · intro p
      rw [(words p).1, (words p).2.1]
      exact sound.timers p
    · intro p
      rw [(words p).1, (words p).2.1]
      exact sound.events p
  · intro p held
    have inUse := coherent.owned p held
    refine ⟨inUse.1, ?_⟩
    change (s.heap p).type ≠ .unused
    rw [(words p).1]
    exact inUse.2

theorem eventListAdd_epoll (s : Engine) (l : ListName) (n : NodePtr)
    (set : Int → Option EpollEvent) :
    eventListAdd { s with epoll := set } l n = { eventListAdd s l n with epoll := set } := by
  have same : ({ s with epoll := set } : Engine).list = s.list := rfl
  simp only [eventListAdd, same]
  cases (s.list l).tail with
  | some tail => rfl
  | none => rfl

theorem retire_epoll (s : Engine) (event : NodePtr) (set : Int → Option EpollEvent) :
    retire { s with epoll := set } event =
      (retire s event).map fun s' => { s' with epoll := set } := by
  unfold retire eventListAddUnuse
  by_cases free : prev (s.modify event fun e => { e with type := .unused }).heap event = none ∧
      next (s.modify event fun e => { e with type := .unused }).heap event = none ∧
        ((s.modify event fun e => { e with type := .unused }).heap event).type = .unused
  · rw [if_pos free]
    refine (if_pos free).trans ?_
    exact congrArg Except.ok (eventListAdd_epoll
      (s.modify event fun e => { e with type := .unused }) .unuse event set)
  · rw [if_neg free]
    exact if_neg free

/-- A refused `EPOLL_CTL_DEL` only leaves the registration where it was. -/
theorem eventCancel_refused (s : Engine) (event : NodePtr) (settimeOk : Bool) :
    eventCancel s event settimeOk false =
      (eventCancel s event settimeOk true).map fun s' => { s' with epoll := s.epoll } := by
  have listed : ∀ l, retire (disarm (eventListDelete s l event) event settimeOk) event =
      (retire (disarm (eventListDelete s l event) event settimeOk) event).map
        fun s' => { s' with epoll := s.epoll } := by
    intro l
    have same : (disarm (eventListDelete s l event) event settimeOk).epoll = s.epoll := by
      rw [(disarm_retimed _ _ _).epoll, (eventListDelete_outside s l event).epoll]
    rw [← retire_epoll, ← same]
  unfold eventCancel
  cases (s.heap event).type with
  | timer => exact listed .timer
  | rear => exact listed .rear
  | ready => exact listed .ready
  | event =>
      dsimp only
      set h := s.setHash (hashRelease (hashFuncs s.heap) s.master.event (s.heap event)).2
      have denied : eventEpollDelNode h event false = { h with epoll := s.epoll } := by
        simp only [eventEpollDelNode, epollCtl, Bool.false_eq_true, false_and, if_false]
        rfl
      rw [denied, eventEpollDelNode_eq, retire_epoll h event s.epoll,
        retire_epoll h event (Function.update h.epoll (h.heap event).fd none)]
      cases retire h event with
      | ok after => rfl
      | error fault => rfl
  | immediate => rfl
  | unused => rfl

theorem coherent_of_refused (reachable : refusedRuns.Reachable r) :
    ∃ queues, Coherent r queues := by
  apply reachable.invariant
  · rintro r ⟨timerfd, epEvents, rfl⟩
    obtain ⟨n, queues, added⟩ := initial_added timerfd epEvents
    exact ⟨queues, initial_coherent added⟩
  · rintro r op r' ⟨queues, coherent⟩ guarded ran
    cases op with
    | op op =>
        obtain ⟨next, queues', executes, after⟩ := exec_coherent coherent guarded
        cases executes.symm.trans ran
        exact ⟨queues', after⟩
    | modRefused func arg epEvents fd =>
        obtain ⟨found, looked, _⟩ := eventEpollLookupByFd_spec coherent.rep fd
        cases found with
        | none =>
            have run : eventEpollMod r.engine func arg epEvents fd false = .ok (none, r.engine) := by
              rw [eventEpollMod, looked]
              rfl
            simp only [refusedRuns, run] at ran
            cases ran
            exact ⟨queues, coherent⟩
        | some node =>
            have run := eventEpollMod_eq func arg epEvents false looked
            rw [epollCtl_mod_none.mpr (by simp), Option.elim_none] at run
            simp only [refusedRuns, run] at ran
            cases ran
            exact ⟨queues, coherent.rewrite node func arg _⟩
    | cancelRefused event settimeOk =>
        have sound := coherent.sound
        have inUse := coherent.owned event guarded
        obtain ⟨s', queues', run, cancelled⟩ := eventCancel_spec coherent.rep inUse
          (fun m member same stored => sound.only coherent.rep stored m member same) settimeOk
        have dropped : Coherent (r.drop event s') queues' := coherent.drop cancelled.rep
          (sound_cancelled sound inUse cancelled) fun q different => cancelled.touch.inUse different
        simp only [refusedRuns, eventCancel_refused, run] at ran
        cases ran
        refine ⟨queues', dropped.reregister r.engine.epoll fun fd registered unknown => ?_⟩
        change s'.epoll fd ≠ none at registered
        rw [cancelled.epoll] at registered
        split at registered
        next typed =>
          by_cases own : fd = (r.engine.heap event).fd
          · subst own
            simp at registered
          · rw [Function.update_of_ne own] at registered
            exact registered unknown
        next => exact registered unknown

/-- In every run whose registrations were accepted, a call that answers NULL leaves things as
they were just where `epoll_ctl` did not refuse it, or the words to write were there. -/
theorem null_keeps_iff (reachable : refusedRuns.Reachable r) (call : CtlCall) (ok : Bool) :
    call.Keeps r.engine ok ↔ call.Harmless r.engine ok := by
  obtain ⟨queues, coherent⟩ := coherent_of_refused reachable
  cases call with
  | add func arg epEvents fd => exact add_keeps_iff coherent.rep func arg epEvents fd ok
  | mod func arg epEvents fd => exact mod_keeps_iff func arg epEvents fd ok
  | reset node => exact reset_keeps_iff node ok

end Runs

/-- On a new master, a refused change to the words the timer's node has does no harm; a
closed descriptor added does. -/
theorem null_keeps_sample : (CtlCall.mod 0 0 1 4).Keeps (Run.initial 4 1).engine false ∧
    ¬ (CtlCall.add 1 0 1 (-1)).Keeps (Run.initial 4 1).engine false := by
  have reachable : refusedRuns.Reachable (Run.initial 4 1) := .start ⟨4, 1, rfl⟩
  constructor
  · apply (null_keeps_iff reachable (.mod 0 0 1 4) false).mpr
    refine .inr fun node found => ?_
    have timer : eventEpollLookupByFd (Run.initial 4 1).engine 4 = .ok (some 1) := by
      decide +kernel
    cases timer.symm.trans found
    decide +kernel
  · intro keeps
    have harmless := (null_keeps_iff reachable (.add 1 0 1 (-1)) false).mp keeps
    cases harmless.1

/-- A closed descriptor is added to a new master, then the words of the timer's node are
changed while the kernel refuses: one node is lost, the other half changed. -/
theorem refused_calls_leave_traces :
    ¬ (CtlCall.add 1 0 1 (-1)).Keeps (Run.initial 4 1).engine false ∧
      ¬ (CtlCall.mod 7 0 1 4).Keeps (Run.initial 4 1).engine false := by
  constructor
  · intro keeps
    refine keeps (by decide) 2 ⟨by decide, ?_⟩
    intro c
    cases c with
    | list l => cases l <;> decide
    | hash => decide +kernel
  · intro keeps
    have found : eventEpollLookupByFd (Run.initial 4 1).engine 4 = .ok (some 1) := by
      decide +kernel
    have run := eventEpollMod_eq 7 0 1 false found
    have same := keeps _ run 1 found
    rw [EventNode.duty, Engine.modify_self] at same
    revert same
    decide +kernel

end Poplar.EventCtl
