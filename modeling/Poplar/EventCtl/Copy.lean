import Poplar.EventCtl.Partition

/-!
# Cancelling the copy of a fetched event

A handler is given the copy `event_run` made, not the node. The copy says it is ready
and is linked to nothing, while the node waits in the hash again, so `event_cancel`
unlinks a head and a tail that are not there.
-/
namespace Poplar.EventCtl
open Chain (next prev)
open Engine (fetchPtr)

/-- The copy the last fetch made. -/
structure Engine.Stale (s : Engine) : Prop where
  noNext : next s.heap fetchPtr = none
  noPrev : prev s.heap fetchPtr = none
  type : (s.heap fetchPtr).type = .ready

/-- What cancelling the event of the node `n` is for: `n` leaves the hash and its descriptor
the epoll set, and everything else stays where it is. -/
structure CancelledAlone (s : Engine) (n : NodePtr) (s' : Engine) : Prop where
  forgotten : n ∉ Container.hash.members s'
  unregistered : s'.epoll (s.heap n).fd = none
  others : ∀ c : Container, ∀ p, p ≠ n → (p ∈ c.members s' ↔ p ∈ c.members s)
  registrations : ∀ fd, fd ≠ (s.heap n).fd → s'.epoll fd = s.epoll fd

/-- The commands a handler gives that accepts connections: each is watched, and a timer
tells of it. -/
def Op.adds : Op → Bool
  | .timerAdd .. | .epollAdd .. => true
  | .epollMod .. | .cancel .. | .close _ | .wait _ => false

/-- What such a handler goes through from the state a fetch has left. -/
def accepting (fetched : Run) : Runs.System Run Op Fault where
  start r := r = fetched
  guard r op := r.Admits op ∧ op.adds = true
  exec := Run.exec

namespace Engine.Stale

variable {s s' : Engine} {queues : Queues} {hand : Option NodePtr} {n : NodePtr}

theorem links (stale : s.Stale) :
    Chain.Holds s.heap (some fetchPtr) (some fetchPtr) [fetchPtr] :=
  Chain.holds_single.mpr ⟨stale.noNext, stale.noPrev⟩

/-- Lists hold nodes, and the copy is none. -/
theorem unlisted (rep : Rep s queues hand) (l : ListName) : fetchPtr ∉ queues l := by
  intro member
  exact Nat.lt_irrefl _ ((rep.listed l fetchPtr).mp member).1.1.1

theorem of_links (stale : s.Stale) (outside : SameOutside s s')
    (links : Chain.Holds s'.heap (some fetchPtr) (some fetchPtr) [fetchPtr]) : s'.Stale := by
  obtain ⟨noNext, noPrev⟩ := Chain.holds_single.mp links
  exact ⟨noNext, noPrev, (outside.payload.type fetchPtr).trans stale.type⟩

theorem of_heap (stale : s.Stale) (same : s'.heap fetchPtr = s.heap fetchPtr) : s'.Stale := by
  constructor
  · rw [Chain.next, same]
    exact stale.noNext
  · rw [Chain.prev, same]
    exact stale.noPrev
  · rw [same]
    exact stale.type

theorem modify (stale : s.Stale) (f : EventNode → EventNode) (node : s.Allocated n) :
    (s.modify n f).Stale := by
  apply stale.of_heap
  exact Engine.modify_of_ne _ _ _ _ (Nat.ne_of_lt node.1)

theorem delete (stale : s.Stale) (rep : Rep s queues hand) {l : ListName} {xs ys : List NodePtr}
    (split : queues l = xs ++ n :: ys) : (eventListDelete s l n).Stale := by
  apply stale.of_links (eventListDelete_outside s l n)
  rw [eventListDelete_heap]
  refine stale.links.unlink_frame (split ▸ rep.chain l) fun r member => ?_
  rw [List.mem_singleton.mp member, ← split]
  exact unlisted rep l

theorem add (stale : s.Stale) (rep : Rep s queues (some n)) (l : ListName) :
    (eventListAdd s l n).Stale := by
  have last : ∀ r, r ∉ queues l → (s.list l).tail ≠ some r := fun r absent tail =>
    absent (List.mem_of_getLast? ((rep.chain l).tail.symm.trans tail))
  apply stale.of_links (eventListAdd_outside s l n)
  rw [eventListAdd_heap]
  refine stale.links.append_frame (last n (rep.hand_unlisted l)) ?_ ?_
  · intro r member
    rw [List.mem_singleton.mp member]
    exact last _ (unlisted rep l)
  · intro member
    exact Nat.ne_of_gt (rep.inHand n rfl).1 (List.mem_singleton.mp member)

theorem addBefore (stale : s.Stale) (rep : Rep s queues (some n)) {l : ListName}
    {q : NodePtr} {xs ys : List NodePtr} (split : queues l = xs ++ q :: ys) :
    (eventListAddBefore s l q n).Stale := by
  apply stale.of_links (eventListAddBefore_outside s l n q)
  rw [eventListAddBefore_heap]
  refine stale.links.insertBefore_frame (split ▸ rep.chain l) (split ▸ rep.hand_unlisted l) ?_ ?_
  · intro r member
    rw [List.mem_singleton.mp member, ← split]
    exact unlisted rep l
  · intro member
    exact Nat.ne_of_gt (rep.inHand n rfl).1 (List.mem_singleton.mp member)

theorem nodeGet (stale : s.Stale) (rep : Rep s queues none) (type : EventType) (func arg : Nat) :
    (eventNodeGet s type func arg).2.Stale := by
  have different : fetchPtr ≠ s.brk := by
    have counted := rep.alloc
    omega
  unfold eventNodeGet
  rw [eventListTrimHead_eq rep]
  cases split : queues .unuse with
  | nil =>
      have fresh : (allocNode s).2.Stale := by
        apply stale.of_heap
        exact Function.update_of_ne different _ _
      have kept := Engine.modify_of_ne (allocNode s).2 s.brk fetchPtr
        (fun e => { e with type := type, addType := type, func := func, arg := arg }) different
      exact fresh.of_heap kept
  | cons n ys =>
      have node : s.Allocated n := ((rep.listed .unuse n).mp (by simp [split])).1.1
      have taken := stale.delete rep (show queues .unuse = [] ++ n :: ys from split)
      have kept := ((eventListDelete_outside s .unuse n).allocated n).mpr node
      exact taken.modify (fun e => { e with type := type, addType := type, func := func, arg := arg })
        kept

theorem addDue (stale : s.Stale) (rep : Rep s queues (some n)) {l : ListName}
    (ran : eventListAddDue s l n = .ok s') : s'.Stale := by
  rcases eventListAddDue_places (l := l) rep with ⟨run, _⟩ | ⟨xs, q, ys, run, split, _⟩
  · cases run.symm.trans ran
    exact stale.add rep l
  · cases run.symm.trans ran
    exact stale.addBefore rep split

theorem retimed (stale : s.Stale) (retimed : Retimed s s') : s'.Stale := by
  apply stale.of_heap
  rw [retimed.heap]

theorem timerAdd (stale : s.Stale) (rep : Rep s queues none) (adder : Adder)
    (now : Option Timespec) (func arg : Nat) (time : Int) (ok : Bool) {answer : Option NodePtr}
    (ran : adder.run s now func arg time ok = .ok (answer, s')) : s'.Stale := by
  obtain ⟨sec, nsec, same⟩ := adder.run_eq s now func arg time ok
  rw [same] at ran
  cases now with
  | none =>
      cases ran
      exact stale
  | some now =>
      have got := stale.nodeGet rep adder.list.type func arg
      obtain ⟨n, taken, queues₁, run, ⟨held, _⟩, type, _⟩ :=
        eventNodeGet_spec rep adder.list.type func arg
      have node := held.inHand n rfl
      rw [run] at got
      have choose : (if adder.list.type = .timer then ListName.timer else ListName.rear) =
          adder.list := by cases adder <;> rfl
      have allowed : adder.list.type = .timer ∨ adder.list.type = .rear := by
        cases adder <;> simp [Adder.list, ListName.type]
      have timed := got.modify (fun e => { e with time :=
        ⟨⟨0, 0⟩, timespecAdjust ⟨now.tvSec + sec, now.tvNsec + nsec⟩⟩ }) node
      have repTimed := held.modify (fun e => { e with time :=
        ⟨⟨0, 0⟩, timespecAdjust ⟨now.tvSec + sec, now.tvNsec + nsec⟩⟩ })
        (fun _ => ⟨rfl, rfl⟩) (.inl rfl)
      obtain ⟨mid, added, _⟩ := eventListAddDue_spec (l := adder.list) repTimed (by simp [type])
      have linked := timed.addDue repTimed added
      simp only [eventAddAt, eventTimerAddItimerspec, if_pos allowed, choose, run, added] at ran
      cases ran
      exact linked.retimed (armFor_retimed mid n ok)

theorem epollAdd (stale : s.Stale) (rep : Rep s queues none) (func arg epEvents : Nat) (fd : Int)
    (ok : Bool) : (eventEpollAdd s func arg epEvents fd ok).2.Stale := by
  have got := stale.nodeGet rep .event func arg
  obtain ⟨n, taken, queues₁, run, ⟨held, _⟩, _⟩ := eventNodeGet_spec rep .event func arg
  rw [run] at got
  have named := got.modify (fun e => { e with listenEvent := ⟨epEvents, n⟩, fd := fd })
    (held.inHand n rfl)
  simp only [eventEpollAdd, run, Engine.modify_epoll]
  cases epollCtl taken.epoll .add fd ⟨epEvents, n⟩ ok with
  | none => exact named
  | some set => exact named.of_heap rfl

end Engine.Stale

section Cancelling

variable {s : Engine} {queues : Queues} {n : NodePtr}

/-- The ready list loses its head and its tail, the copy itself goes on the unuse list; the
hash and the epoll set are not touched. -/
theorem Engine.Stale.cancel (stale : s.Stale) (settimeOk ctlOk : Bool) :
    ∃ s', eventCancel s fetchPtr settimeOk ctlOk = .ok s' ∧
      s'.list .ready = ⟨none, none, (s.list .ready).length - 1⟩ ∧
      (s'.list .unuse).tail = some fetchPtr ∧ s'.master.event = s.master.event ∧
      s'.epoll = s.epoll := by
  have apart : next s.heap fetchPtr ≠ some fetchPtr := by
    rw [stale.noNext]
    exact fun impossible => by cases impossible
  have outside := eventListDelete_outside s .ready fetchPtr
  have cut : (eventListDelete s .ready fetchPtr).list .ready =
      ⟨none, none, (s.list .ready).length - 1⟩ := by
    rw [eventListDelete_list _ _ _ apart, stale.noNext, stale.noPrev]
    simp
  set d := disarm (eventListDelete s .ready fetchPtr) fetchPtr settimeOk with d_eq
  have retimed : Retimed (eventListDelete s .ready fetchPtr) d := disarm_retimed _ _ _
  have unlinked : d.heap = Chain.unlink s.heap fetchPtr := by
    rw [retimed.heap, eventListDelete_heap]
  set u := d.modify fetchPtr fun e => { e with type := .unused } with u_eq
  have free : prev u.heap fetchPtr = none ∧ next u.heap fetchPtr = none ∧
      (u.heap fetchPtr).type = .unused := by
    refine ⟨?_, ?_, by rw [u_eq, Engine.modify_self]⟩
    · have same : prev u.heap fetchPtr = prev d.heap fetchPtr := by
        rw [prev, u_eq, Engine.modify_self]
        rfl
      rw [same, unlinked, Chain.unlink_prev _ _ _ apart, if_pos rfl]
    · have same : next u.heap fetchPtr = next d.heap fetchPtr := by
        rw [next, u_eq, Engine.modify_self]
        rfl
      rw [same, unlinked, Chain.unlink_next, if_pos rfl]
  refine ⟨eventListAdd u .unuse fetchPtr, ?_, ?_, ?_, ?_, ?_⟩
  · rw [eventCancel, stale.type]
    dsimp only
    rw [← d_eq, retire, ← u_eq, eventListAddUnuse, if_pos free]
  · rw [eventListAdd_list, Function.update_of_ne (by decide), u_eq, Engine.modify_list,
      retimed.list, cut]
  · rw [eventListAdd_list, Function.update_self]
  · rw [(eventListAdd_outside u .unuse fetchPtr).event]
    exact retimed.event.trans outside.event
  · rw [(eventListAdd_outside u .unuse fetchPtr).epoll]
    exact retimed.epoll.trans outside.epoll

end Cancelling

section Fetching

variable {s s' : Engine} {queues : Queues} {n : NodePtr}

/-- What was fetched was the head of the ready list. -/
theorem runReady_fetched (rep : Rep s queues none)
    (ran : runReady s fetchPtr = .ok (.fetched n, s')) :
    ∃ ys, queues .ready = n :: ys ∧
      eventRun (eventListDelete s .ready n) n fetchPtr = .ok s' := by
  rw [runReady, eventListTrimHead_eq rep] at ran
  cases split : queues .ready with
  | nil =>
      rw [split] at ran
      cases ran
  | cons m ys =>
      rw [split] at ran
      simp only [List.head?_cons, Option.map_some] at ran
      cases run : eventRun (eventListDelete s .ready m) m fetchPtr with
      | ok after =>
          rw [run] at ran
          cases ran
          exact ⟨ys, rfl, run⟩
      | error fault =>
          rw [run] at ran
          cases ran

/-- A pass fetches at once, or after it has polled. -/
theorem pass_fetched (rep : Rep s queues none) (sound : Sound s) {wait : EpollWait}
    (reportable : queues .ready = [] → ∀ events now ok, wait = .reported events now ok →
      Reportable s events)
    (ran : eventWaitingPass s fetchPtr wait = .ok (.fetched n, s')) :
    ∃ mid qmid, Rep mid qmid none ∧ Sound mid ∧ runReady mid fetchPtr = .ok (.fetched n, s') := by
  have polled : ∀ events now ok, wait = .reported events now ok → queues .ready = [] → ∀ now',
      (do runReady (← eventWaitingPoll s events now' ok) fetchPtr) = .ok (.fetched n, s') →
        ∃ mid qmid, Rep mid qmid none ∧ Sound mid ∧
          runReady mid fetchPtr = .ok (.fetched n, s') := by
    intro events now ok same idle now' run
    obtain ⟨mid, polled, moves, _⟩ := eventWaitingPoll_spec rep
      (fun p inP q inQ same => sound.only rep inQ p inP same)
      (reportable idle events now ok same) now' ok
    rw [polled] at run
    exact ⟨mid, _, PassMoves.rep moves rep, PassMoves.sound moves rep sound, run⟩
  cases split : queues .ready with
  | cons m ys =>
      refine ⟨s, queues, rep, sound, ?_⟩
      unfold eventWaitingPass at ran
      rw [eventListTrimHead_eq rep, split] at ran
      rw [runReady, eventListTrimHead_eq rep, split]
      exact ran
  | nil =>
      unfold eventWaitingPass at ran
      rw [eventListTrimHead_eq rep, split] at ran
      cases wait with
      | error => cases ran
      | reported events now ok =>
          cases events with
          | nil => exact polled [] now ok rfl split .zero ran
          | cons event events =>
              cases now with
              | none => cases ran
              | some now => exact polled (event :: events) _ ok rfl split now ran

/-- The copy is made of a node that was just unlinked from the ready list. -/
theorem eventRun_stale (rep : Rep s queues (some n)) (ready : (s.heap n).type = .ready)
    (origin : (s.heap n).addType = .event) (ran : eventRun s n fetchPtr = .ok s') : s'.Stale := by
  have different : n ≠ fetchPtr := Nat.ne_of_gt (rep.inHand n rfl).1
  obtain ⟨noNext, noPrev⟩ := rep.loose n (.inr rfl)
  have kept : (s.modify fetchPtr fun _ => s.heap n).heap n = s.heap n :=
    Engine.modify_of_ne _ _ _ _ different
  simp only [eventRun, kept, if_pos origin] at ran
  cases ran
  have cell : (hashInsert ((s.modify fetchPtr fun _ => s.heap n).modify n
      fun e => { e with type := .event }) n).heap fetchPtr = s.heap n := by
    change ((s.modify fetchPtr fun _ => s.heap n).modify n
      fun e => { e with type := .event }).heap fetchPtr = s.heap n
    rw [Engine.modify_of_ne _ _ _ _ different.symm, Engine.modify_self]
  constructor
  · rw [next, cell]
    exact noNext
  · rw [prev, cell]
    exact noPrev
  · rw [cell]
    exact ready

end Fetching

section Runs

variable {r r' fetched : Run} {queues : Queues} {n : NodePtr}

/-- While a handler accepts, the copy stays as it is and so does the node it was made of. -/
structure Copied (r : Run) (n : NodePtr) : Prop where
  reached : runs.Reachable r
  stale : r.engine.Stale
  node : r.engine.Allocated n
  waits : (r.engine.heap n).type = .event

theorem Copied.step (copied : Copied r n) {op : Op} (admits : r.Admits op) (adds : op.adds = true)
    (ran : r.exec op = .ok r') : Copied r' n := by
  have reached := copied.reached.step admits ran
  obtain ⟨queues, coherent⟩ := coherent_of_reachable copied.reached
  have inUse : r.engine.InUse n := ⟨copied.node, by simp [copied.waits]⟩
  have kept : ∀ {m : NodePtr} {s' : Engine}, ¬ r.engine.InUse m → Touch m r.engine s' →
      s'.Allocated n ∧ (s'.heap n).type = .event := by
    intro m s' free touch
    have different : n ≠ m := fun same => free (same ▸ inUse)
    refine ⟨(touch.allocated n).mpr (.inl copied.node), ?_⟩
    rw [payload_type (touch.others n copied.node different)]
    exact copied.waits
  cases op with
  | timerAdd adder now func arg time settimeOk =>
      rcases adder.run_spec coherent.rep now func arg time settimeOk with
        run | ⟨m, mid, queues', run, added⟩
      · simp only [Run.exec, run] at ran
        cases ran
        exact ⟨reached, copied.stale, copied.node, copied.waits⟩
      · have stale := copied.stale.timerAdd coherent.rep adder now func arg time settimeOk run
        have here : mid.Allocated m := (added.touch.allocated m).mpr (.inr rfl)
        have retimed := armFor_retimed mid m settimeOk
        obtain ⟨node, waits⟩ := kept added.free (added.touch.trans (retimed.touch here))
        simp only [Run.exec, run] at ran
        cases ran
        exact ⟨reached, stale, node, waits⟩
  | epollAdd func arg epEvents fd =>
      have stale := copied.stale.epollAdd coherent.rep func arg epEvents fd true
      obtain ⟨m, s', queues', run, added⟩ :=
        coherent.sound.epollAdd coherent.rep func arg epEvents admits.1
      obtain ⟨node, waits⟩ := kept added.free added.touch
      simp only [Run.exec] at ran
      rw [run] at stale ran
      cases ran
      exact ⟨reached, stale, node, waits⟩
  | epollMod | cancel | close | wait => cases adds

theorem copied_of_fetched (reachable : runs.Reachable r) {answer : EpollWait}
    (admits : r.Admits (.wait answer)) {s : Engine}
    (fetched : eventWaitingPass r.engine fetchPtr answer = .ok (.fetched n, s))
    (watched : (s.heap n).addType = .event) : Copied (r.waited (.fetched n, s)) n := by
  obtain ⟨queues, coherent⟩ := coherent_of_reachable reachable
  obtain ⟨mid, qmid, rep, sound, run⟩ := pass_fetched coherent.rep coherent.sound
    (fun idle events now ok same => by
      subst same
      exact admits.2 (by rw [(coherent.rep.chain .ready).head, idle]; rfl)) fetched
  obtain ⟨ys, split, dispatched⟩ := runReady_fetched rep run
  obtain ⟨s', queues', again, dispatch⟩ := dispatch_spec rep sound split
  cases dispatched.symm.trans again
  have reached : runs.Reachable (r.waited (.fetched n, s)) := by
    apply reachable.step admits
    simp only [runs, Run.exec, fetched]
    rfl
  have engine : (r.waited (.fetched n, s)).engine = s := by rw [Run.waited, if_pos watched]
  cases dispatch with
  | timer _ origin _ _ payload _ =>
      exact absurd ((payload_addType payload).symm.trans watched) origin
  | epoll _ origin touch _ payload _ =>
      have outside := eventListDelete_outside mid .ready n
      have ready : (mid.heap n).type = .ready := ((rep.listed .ready n).mp (by simp [split])).2
      refine ⟨reached, ?_, ?_, ?_⟩
      · rw [engine]
        refine eventRun_stale (rep.delete (show qmid .ready = [] ++ n :: ys from split)) ?_ ?_
          dispatched
        · rw [outside.payload.type, ready]
        · rw [outside.payload.addType, origin]
      · rw [engine]
        exact (touch.allocated n).mpr (.inr rfl)
      · rw [engine, payload_type payload]

/-- A handler that accepted what it could and cancels the event it was given leaves the node
in the hash and registered; what was ready is lost, and the copy is free to be handed out. -/
theorem cancelling_the_copy (reachable : runs.Reachable r) {answer : EpollWait}
    (admits : r.Admits (.wait answer)) {s : Engine}
    (fetches : eventWaitingPass r.engine fetchPtr answer = .ok (.fetched n, s))
    (watched : (s.heap n).addType = .event)
    (accepts : (accepting (r.waited (.fetched n, s))).Reachable r') (settimeOk ctlOk : Bool) :
    ∃ s', eventCancel r'.engine fetchPtr settimeOk ctlOk = .ok s' ∧
      ¬ CancelledAlone r'.engine n s' ∧
        n ∈ Container.hash.members s' ∧ s'.epoll (r'.engine.heap n).fd ≠ none ∧
          s'.nodes .ready = [] ∧ (s'.list .unuse).tail = some fetchPtr := by
  have copied : Copied r' n := by
    apply accepts.invariant
    · rintro _ rfl
      exact copied_of_fetched reachable admits fetches watched
    · rintro r op next before ⟨allowed, adds⟩ ran
      exact before.step allowed adds ran
  obtain ⟨queues, coherent⟩ := coherent_of_reachable copied.reached
  obtain ⟨s', run, ready, unuse, event, epoll⟩ := copied.stale.cancel settimeOk ctlOk
  have stays : n ∈ Container.hash.members s' := by
    change n ∈ s'.master.event.datas
    rw [event]
    exact (coherent.rep.hashed n).mpr ⟨⟨copied.node, by simp⟩, copied.waits⟩
  have live : r'.engine.Live n :=
    ⟨copied.node, coherent.sound.events n copied.node copied.waits, .inl copied.waits⟩
  refine ⟨s', run, ?_, stays, ?_, ?_, unuse⟩
  · intro alone
    exact alone.forgotten stays
  · rw [epoll]
    exact coherent.sound.registered n live
  · rw [Engine.nodes, ready]
    cases s'.brk <;> rfl

end Runs

/-- Two descriptors are reported; the first is fetched, and its handler accepts a connection. -/
def acceptOps : List Op := [.epollAdd 1 0 1 5, .epollAdd 2 0 1 6]

def acceptWait : EpollWait := .reported [⟨1, 2⟩, ⟨1, 3⟩] (some ⟨9, 0⟩) true

/-- The node fetched, the engine after that, and the run that has accepted. -/
def acceptFrom (r : Run) : Option (NodePtr × Engine × Run) :=
  match eventWaitingPass r.engine fetchPtr acceptWait with
  | .ok (.fetched n, s) =>
    ((accepting (r.waited (.fetched n, s))).replay
      (fun r op => decide (r.Admits op) && op.adds) id
      [.epollAdd 3 0 1 7, .timerAdd .timerMsec (some ⟨9, 0⟩) 4 0 10 true]
      (r.waited (.fetched n, s))).map fun accepted => (n, s, accepted)
  | _ => none

theorem replayRuns_reachable {ops : List Op} {timerfd : Int} {epEvents : Nat} {r : Run}
    (replayed : replayRuns ops timerfd epEvents = some r) : runs.Reachable r := by
  have guards : ∀ (r : Run) (op : Op), decide (r.Admits op) = true → runs.guard r op :=
    fun r op admitted => (decide_eq_true_iff (p := r.Admits op)).mp admitted
  exact .replay guards (.start ⟨timerfd, epEvents, rfl⟩) replayed

theorem acceptFrom_fits {r : Run} {n : NodePtr} {s : Engine} {accepted : Run}
    (found : acceptFrom r = some (n, s, accepted)) :
    eventWaitingPass r.engine fetchPtr acceptWait = .ok (.fetched n, s) ∧
      (accepting (r.waited (.fetched n, s))).Reachable accepted := by
  unfold acceptFrom at found
  split at found
  next m t fetches =>
    obtain ⟨after, replayed, same⟩ := Option.map_eq_some_iff.mp found
    cases same
    refine ⟨fetches, .replay (fun r op admitted => ?_) (.start rfl) replayed⟩
    simp only [Bool.and_eq_true, decide_eq_true_eq] at admitted
    exact admitted
  next => cases found

theorem cancelling_the_copy_sample : ∃ r' s', eventCancel r'.engine fetchPtr true true = .ok s' ∧
    ¬ CancelledAlone (Run.engine r') 2 s' ∧ 2 ∈ Container.hash.members s' := by
  have finishes : ((replayRuns acceptOps 4 1).bind fun r => (acceptFrom r).map fun found =>
      (decide (r.Admits (.wait acceptWait)), found.1, (found.2.1.heap found.1).addType)) =
        some (true, 2, .event) := by decide +kernel
  obtain ⟨r, replayed, rest⟩ := Option.bind_eq_some_iff.mp finishes
  obtain ⟨⟨n, s, accepted⟩, found, facts⟩ := Option.map_eq_some_iff.mp rest
  simp only [Prod.mk.injEq, decide_eq_true_eq] at facts
  obtain ⟨admits, rfl, watched⟩ := facts
  obtain ⟨fetches, accepts⟩ := acceptFrom_fits found
  have reachable : runs.Reachable r := replayRuns_reachable replayed
  obtain ⟨s', run, notAlone, stays, _⟩ :=
    cancelling_the_copy reachable admits fetches watched accepts true true
  exact ⟨accepted, s', run, notAlone, stays⟩

/-- The other descriptor's node, which was ready, is in no list after the cancellation, and
the node that should have gone still waits. -/
theorem cancelled_copy_drops_ready : ∃ r s accepted s', runs.Reachable r ∧
    r.Admits (.wait acceptWait) ∧
      eventWaitingPass r.engine fetchPtr acceptWait = .ok (.fetched 2, s) ∧
        (accepting (r.waited (.fetched 2, s))).Reachable accepted ∧
          eventCancel accepted.engine fetchPtr true true = .ok s' ∧
            3 ∈ (Container.list .ready).members accepted.engine ∧
              3 ∉ (Container.list .ready).members s' ∧ 2 ∈ Container.hash.members s' ∧
                s'.epoll 5 = some ⟨1, 2⟩ := by
  have finishes : ((replayRuns acceptOps 4 1).bind fun r => (acceptFrom r).bind fun found =>
      (eventCancel found.2.2.engine fetchPtr true true).toOption.map fun s' =>
        (decide (r.Admits (.wait acceptWait)), found.1, found.2.2.engine.nodes .ready,
          s'.nodes .ready, decide (2 ∈ s'.master.event.datas ∧ s'.epoll 5 = some ⟨1, 2⟩))) =
        some (true, 2, [3], [], true) := by decide +kernel
  obtain ⟨r, replayed, rest⟩ := Option.bind_eq_some_iff.mp finishes
  obtain ⟨⟨n, s, accepted⟩, found, rest⟩ := Option.bind_eq_some_iff.mp rest
  obtain ⟨s', cancelled, facts⟩ := Option.map_eq_some_iff.mp rest
  simp only [Prod.mk.injEq, decide_eq_true_eq] at facts
  obtain ⟨admits, rfl, readyBefore, readyAfter, stays⟩ := facts
  obtain ⟨fetches, accepts⟩ := acceptFrom_fits found
  have done : eventCancel accepted.engine fetchPtr true true = .ok s' := by
    cases outcome : eventCancel accepted.engine fetchPtr true true with
    | ok next => rw [outcome] at cancelled; exact congrArg Except.ok (Option.some.inj cancelled)
    | error fault => rw [outcome] at cancelled; cases cancelled
  refine ⟨r, s, accepted, s', replayRuns_reachable replayed, admits, fetches, accepts, done, ?_, ?_,
    stays⟩
  · change 3 ∈ accepted.engine.nodes .ready
    rw [readyBefore]
    exact List.mem_singleton_self 3
  · change 3 ∉ s'.nodes .ready
    rw [readyAfter]
    exact List.not_mem_nil

end Poplar.EventCtl
