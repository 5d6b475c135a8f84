import Poplar.EventCtl.Partition

/-!
# Registrations and the nodes they point to
-/
namespace Poplar.EventCtl

/-- Each registration points to the live node of its own descriptor: to none that is
unused or was taken for another event. -/
def Aimed (s : Engine) : Prop :=
  ∀ fd registration, s.epoll fd = some registration →
    s.Live registration.ptr ∧ (s.heap registration.ptr).fd = fd

/-- The kernel reports registered descriptors, each once, with the pointers it was given. -/
def KernelReports (s : Engine) (events : List EpollEvent) : Prop :=
  ∃ fds : List Int, fds.Nodup ∧
    fds.map (fun fd => (s.epoll fd).map EpollEvent.ptr) = events.map fun event => some event.ptr

/-- No epoll node is cancelled while it is queued as ready, and `event_epoll_mod` does not
find a ready timer by a descriptor the node had earlier. -/
def Run.Careful (r : Run) : Op → Prop
  | .cancel event _ =>
    ¬ ((r.engine.heap event).type = .ready ∧ (r.engine.heap event).addType = .event)
  | .epollMod _ _ _ fd => ∀ node, eventEpollLookupByFd r.engine fd = .ok (some node) →
      (r.engine.heap node).addType = .event
  | _ => True

/-- The kernel alone decides what it reports. -/
def Run.Follows (r : Run) (op : Op) : Prop :=
  r.Permits op ∧ ((r.engine.list .ready).head = none → KernelReports r.engine op.reports)

def kernelRuns : Runs.System Run Op Fault where
  start := runs.start
  guard := Run.Follows
  exec := Run.exec

instance (r : Run) (op : Op) : Decidable (r.Careful op) :=
  match op with
  | .cancel event _ => inferInstanceAs (Decidable (¬ ((r.engine.heap event).type = .ready ∧
      (r.engine.heap event).addType = .event)))
  | .epollMod _ _ _ fd =>
    match looked : eventEpollLookupByFd r.engine fd with
    | .ok (some node) => decidable_of_iff ((r.engine.heap node).addType = .event)
        ⟨fun own node' same => by cases looked.symm.trans same; exact own, fun every => every node looked⟩
    | .ok none => .isTrue fun _ same => by cases looked.symm.trans same
    | .error _ => .isTrue fun _ same => by cases looked.symm.trans same
  | .timerAdd .. | .epollAdd .. | .close _ | .wait _ => .isTrue trivial

/-- Runs of callers that keep to `Careful`. -/
def carefulRuns : Runs.System Run Op Fault where
  start := runs.start
  guard r op := r.Follows op ∧ r.Careful op
  exec := Run.exec

section Aimed

variable {s s' : Engine} {queues queues' : Queues} {n : NodePtr}

/-- What is registered and live is stored, if nothing is ready. -/
theorem Aimed.reportable (aimed : Aimed s) (rep : Rep s queues none) (idle : queues .ready = [])
    {events : List EpollEvent} (reports : KernelReports s events) : Reportable s events := by
  obtain ⟨fds, nodup, pointers⟩ := reports
  have registered : ∀ event ∈ events, ∃ fd ∈ fds, (s.epoll fd).map EpollEvent.ptr = some event.ptr := by
    intro event member
    have mapped : some event.ptr ∈ events.map fun event => some event.ptr :=
      List.mem_map_of_mem member
    rw [← pointers] at mapped
    obtain ⟨fd, among, same⟩ := List.mem_map.mp mapped
    exact ⟨fd, among, same⟩
  constructor
  · have distinct : (fds.map fun fd => (s.epoll fd).map EpollEvent.ptr).Nodup := by
      refine nodup.map_on fun fd among fd' among' same => ?_
      have known : ∀ fd ∈ fds, ∃ reg, s.epoll fd = some reg := by
        intro fd among
        have mapped : (s.epoll fd).map EpollEvent.ptr ∈ events.map fun event => some event.ptr := by
          rw [← pointers]
          exact List.mem_map_of_mem among
        obtain ⟨event, _, same⟩ := List.mem_map.mp mapped
        obtain ⟨reg, own, _⟩ := Option.map_eq_some_iff.mp same.symm
        exact ⟨reg, own⟩
      obtain ⟨reg, own⟩ := known fd among
      obtain ⟨reg', own'⟩ := known fd' among'
      rw [own, own', Option.map_some, Option.map_some, Option.some.injEq] at same
      rw [← (aimed fd reg own).2, ← (aimed fd' reg' own').2, same]
    rw [pointers] at distinct
    exact List.Nodup.of_map some (by rwa [List.map_map])
  · intro event member
    obtain ⟨fd, _, same⟩ := registered event member
    obtain ⟨reg, own, pointer⟩ := Option.map_eq_some_iff.mp same
    obtain ⟨⟨here, _, typed⟩, _⟩ := aimed fd reg own
    rw [pointer] at here typed
    refine (rep.hashed event.ptr).mpr ⟨⟨here, by simp⟩, typed.resolve_right fun ready => ?_⟩
    have listed := (rep.listed .ready event.ptr).mpr ⟨⟨here, by simp⟩, ready⟩
    rw [idle] at listed
    cases listed

/-- Only a node that is not live, and is none afterwards, changes, or one that stays live. -/
theorem Aimed.touch (aimed : Aimed s) (touch : Touch n s s')
    (kept : ∀ fd registration, s'.epoll fd = some registration → registration.ptr ≠ n →
      s.epoll fd = some registration)
    (own : ∀ fd registration, s'.epoll fd = some registration → registration.ptr = n →
      s'.Live n ∧ (s'.heap n).fd = fd) : Aimed s' := by
  intro fd registration registered
  by_cases same : registration.ptr = n
  · rw [same]
    exact own fd registration registered same
  · obtain ⟨live, fdEq⟩ := aimed fd registration (kept fd registration registered same)
    refine ⟨(touch.live_iff same).mpr live, ?_⟩
    rw [payload_fd (touch.others _ live.1 same)]
    exact fdEq

theorem Aimed.retimed (aimed : Aimed s) (retimed : Retimed s s') : Aimed s' := by
  intro fd registration registered
  rw [retimed.epoll] at registered
  obtain ⟨live, fdEq⟩ := aimed fd registration registered
  refine ⟨?_, by rw [retimed.heap]; exact fdEq⟩
  unfold Engine.Live
  rw [retimed.allocated, retimed.heap]
  exact live

/-- A node that was not live and is not live now, with the epoll set untouched. -/
theorem Aimed.idle (aimed : Aimed s) (touch : Touch n s s') (epoll : s'.epoll = s.epoll)
    (idle : ¬ s.Live n) : Aimed s' := by
  refine aimed.touch touch (fun fd registration registered _ => epoll ▸ registered) ?_
  intro fd registration registered same
  rw [epoll] at registered
  exact absurd (same ▸ (aimed fd registration registered).1) idle

/-- A live node moves between the hash and the ready list. -/
theorem Aimed.stays (aimed : Aimed s) (touch : Touch n s s') (epoll : s'.epoll = s.epoll)
    (stays : s.Live n → s'.Live n) (fd : (s'.heap n).fd = (s.heap n).fd) : Aimed s' := by
  refine aimed.touch touch (fun fd registration registered _ => epoll ▸ registered) ?_
  intro fd' registration registered same
  rw [epoll] at registered
  obtain ⟨live, own⟩ := aimed fd' registration registered
  rw [same] at live own
  exact ⟨stays live, fd.trans own⟩

theorem Readied.stays (readied : Readied n s s') (live : s.Live n) : s'.Live n :=
  ⟨(readied.touch.allocated n).mpr (.inl live.1), readied.addType.trans live.2.1,
    .inr readied.type⟩

theorem PassMove.aimed {view view' : View} (move : PassMove view view') (aimed : Aimed view.1) :
    Aimed view'.1 := by
  cases move with
  | expire _ _ _ readied _ =>
      exact aimed.stays readied.touch readied.still.epoll readied.stays readied.fd
  | report _ readied _ =>
      exact aimed.stays readied.touch readied.still.epoll readied.stays readied.fd
  | retime retimed _ => exact aimed.retimed retimed

theorem PassMoves.aimed {view view' : View} (moves : PassMoves view view') (aimed : Aimed view.1) :
    Aimed view'.1 := by
  induction moves with
  | refl => exact aimed
  | tail _ last ih => exact last.aimed ih

theorem Fetches.aimed {w : Waited} {view view' : View} (fetches : Fetches w view view')
    (aimed : Aimed view.1) : Aimed view'.1 := by
  cases fetches with
  | idle => exact aimed
  | null => exact aimed
  | retry => exact aimed
  | fetched dispatch =>
      cases dispatch with
      | timer _ origin touch still _ _ =>
          exact aimed.idle touch still.epoll fun live => origin live.2.1
      | epoll _ origin touch still payload _ =>
          refine aimed.stays touch still.epoll (fun live => ?_)
            (payload_fd payload :)
          exact ⟨(touch.allocated _).mpr (.inr rfl), (payload_addType payload).trans origin,
            .inl (payload_type payload)⟩

theorem Cancelled.aimed {settimeOk : Bool} (aimed : Aimed s)
    (cancelled : Cancelled s queues n settimeOk s' queues')
    (careful : ¬ ((s.heap n).type = .ready ∧ (s.heap n).addType = .event)) :
    Aimed s' ∧ ∀ fd registration, s'.epoll fd = some registration → registration.ptr ≠ n := by
  have none : ∀ fd registration, s'.epoll fd = some registration →
      s.epoll fd = some registration ∧ registration.ptr ≠ n := by
    intro fd registration registered
    rw [cancelled.epoll] at registered
    split at registered
    next typed =>
      by_cases own : fd = (s.heap n).fd
      · subst own
        simp at registered
      · rw [Function.update_of_ne own] at registered
        refine ⟨registered, fun same => own ?_⟩
        rw [← same]
        exact (aimed fd registration registered).2.symm
    next typed =>
      refine ⟨registered, fun same => ?_⟩
      obtain ⟨_, origin, place⟩ := (aimed fd registration registered).1
      rw [same] at origin place
      exact careful ⟨place.resolve_left typed, origin⟩
  exact ⟨aimed.touch cancelled.touch (fun fd registration registered _ => (none _ _ registered).1)
    fun fd registration registered same => absurd same (none _ _ registered).2,
    fun fd registration registered => (none fd registration registered).2⟩

end Aimed

section Runs

variable {r r' : Run}

theorem Run.Follows.admits {queues : Queues} {op : Op} (coherent : Coherent r queues)
    (aimed : Aimed r.engine) (follows : r.Follows op) : r.Admits op := by
  refine ⟨follows.1, fun empty => ?_⟩
  have idle : queues .ready = [] := by
    rw [(coherent.rep.chain .ready).head] at empty
    exact List.head?_eq_none_iff.mp empty
  exact aimed.reportable coherent.rep idle (follows.2 empty)

theorem exec_aimed {queues : Queues} {op : Op} (coherent : Coherent r queues)
    (aimed : Aimed r.engine) (follows : r.Follows op) (careful : r.Careful op)
    (executes : r.exec op = .ok r') : Aimed r'.engine ∧ ∀ event ok, op = .cancel event ok →
      ∀ fd registration, r'.engine.epoll fd = some registration → registration.ptr ≠ event := by
  have rep := coherent.rep
  have sound := coherent.sound
  obtain ⟨permits, reportable⟩ := follows.admits coherent aimed
  have notLive : ∀ {n}, ¬ r.engine.InUse n → ¬ r.engine.Live n := fun free live =>
    free ⟨live.1, by rcases live.2.2 with typed | typed <;> simp [typed]⟩
  cases op with
  | timerAdd adder now func arg time ok =>
      refine ⟨?_, fun _ _ impossible => by cases impossible⟩
      rcases adder.run_spec rep now func arg time ok with run | ⟨n, mid, queues', run, added⟩
      · simp only [Run.exec, run] at executes
        cases executes
        exact aimed
      · simp only [Run.exec, run] at executes
        cases executes
        exact (aimed.idle added.touch added.still.epoll (notLive added.free)).retimed
          (armFor_retimed mid n ok)
  | epollAdd func arg epEvents fd =>
      refine ⟨?_, fun _ _ impossible => by cases impossible⟩
      obtain ⟨n, s', queues', run, added⟩ := sound.epollAdd rep func arg epEvents permits
      simp only [Run.exec, run] at executes
      cases executes
      have here : s'.Allocated n := (added.touch.allocated n).mpr (.inr rfl)
      change Aimed s'
      refine aimed.touch added.touch ?_ ?_
      · intro fd' registration registered different
        rw [added.epoll] at registered
        by_cases own : fd' = fd
        · subst own
          rw [Function.update_self] at registered
          cases registered
          exact absurd rfl different
        · rwa [Function.update_of_ne own] at registered
      · intro fd' registration registered same
        rw [added.epoll] at registered
        by_cases own : fd' = fd
        · subst own
          exact ⟨⟨here, added.addType, .inl added.type⟩, added.watched⟩
        · rw [Function.update_of_ne own] at registered
          exact absurd (same ▸ (aimed fd' registration registered).1) (notLive added.free)
  | epollMod func arg epEvents fd =>
      refine ⟨?_, fun _ _ impossible => by cases impossible⟩
      obtain ⟨result, s', run, repMod, brk, _, words, epoll⟩ :=
        eventEpollMod_spec rep func arg epEvents fd
      simp only [Run.exec, run] at executes
      cases executes
      have live : ∀ q, r.engine.Live q → s'.Live q := fun q here => by
        refine ⟨?_, (words q).2.1.trans here.2.1, ?_⟩
        · simp only [Engine.Allocated, brk]
          exact here.1
        · rw [(words q).1]
          exact here.2.2
      intro fd' registration registered
      change s'.epoll fd' = some registration at registered
      rcases epoll with same | ⟨n, looked, _, same⟩
      · rw [same] at registered
        obtain ⟨here, own⟩ := aimed fd' registration registered
        exact ⟨live _ here, (words _).2.2.1.trans own⟩
      · rw [same] at registered
        by_cases own : fd' = fd
        · subst own
          rw [Function.update_self] at registered
          cases registered
          obtain ⟨found, answer, facts⟩ := eventEpollLookupByFd_spec rep fd'
          cases answer.symm.trans looked
          obtain ⟨here, fdEq, place⟩ := facts n rfl
          refine ⟨live n ⟨here, careful n looked, ?_⟩, (words n).2.2.1.trans fdEq⟩
          rcases place with stored | listed
          · exact .inl ((rep.hashed n).mp stored).2
          · exact .inr ((rep.listed .ready n).mp (List.mem_of_find?_eq_some listed)).2
        · rw [Function.update_of_ne own] at registered
          obtain ⟨here, fdEq⟩ := aimed fd' registration registered
          exact ⟨live _ here, (words _).2.2.1.trans fdEq⟩
  | cancel event ok =>
      obtain ⟨s', queues', run, cancelled⟩ := eventCancel_spec rep (coherent.owned event permits)
        (fun m member same stored => sound.only rep stored m member same) ok
      simp only [Run.exec, run] at executes
      cases executes
      obtain ⟨after, none⟩ := cancelled.aimed aimed careful
      refine ⟨after, fun event' ok' same => ?_⟩
      cases same
      exact none
  | close fd =>
      refine ⟨?_, fun _ _ impossible => by cases impossible⟩
      cases executes
      intro fd' registration registered
      change Function.update r.engine.epoll fd none fd' = some registration at registered
      by_cases own : fd' = fd
      · subst own
        simp at registered
      · rw [Function.update_of_ne own] at registered
        exact aimed fd' registration registered
  | wait answer =>
      refine ⟨?_, fun _ _ impossible => by cases impossible⟩
      obtain ⟨mid, qmid, w, s', queues', run, moves, fetches, _⟩ := eventWaitingPass_spec rep sound
        answer fun idle events now ok same => by
          subst same
          exact reportable (by rw [(rep.chain .ready).head, idle]; rfl)
      simp only [Run.exec, run] at executes
      cases executes
      have engine : (r.waited (w, s')).engine = s' := by
        cases w with
        | fetched n =>
            simp only [Run.waited]
            split <;> rfl
        | null => rfl
        | waiting => rfl
      rw [engine]
      exact fetches.aimed (PassMoves.aimed moves aimed)

theorem careful_aimed (reachable : carefulRuns.Reachable r) :
    ∃ queues, Coherent r queues ∧ Aimed r.engine := by
  refine reachable.invariant (motive := fun r => ∃ queues, Coherent r queues ∧ Aimed r.engine) ?_ ?_
  · rintro _ ⟨timerfd, epEvents, rfl⟩
    obtain ⟨n, queues, added⟩ := initial_added timerfd epEvents
    refine ⟨queues, initial_coherent added, fun fd registration registered => ?_⟩
    rw [added.epoll] at registered
    by_cases own : fd = timerfd
    · subst own
      rw [Function.update_self] at registered
      cases registered
      exact ⟨⟨(added.touch.allocated n).mpr (.inr rfl), added.addType, .inl added.type⟩,
        added.watched⟩
    · rw [Function.update_of_ne own] at registered
      cases registered
  · rintro r op r' ⟨queues, coherent, aimed⟩ ⟨follows, careful⟩ executes
    obtain ⟨r'', queues', run, next⟩ := exec_coherent coherent (follows.admits coherent aimed)
    cases run.symm.trans executes
    exact ⟨queues', next, (exec_aimed coherent aimed follows careful executes).1⟩

/-- While callers are careful no registration points to a node that is unused or reused, a
cancelled node has none, and only nodes of the hash are reported. -/
theorem careful_registrations (reachable : carefulRuns.Reachable r) :
    Aimed r.engine ∧
      (∀ event ok r', carefulRuns.guard r (.cancel event ok) →
        r.exec (.cancel event ok) = .ok r' →
          ∀ fd registration, r'.engine.epoll fd = some registration → registration.ptr ≠ event) ∧
      ∀ events, r.engine.nodes .ready = [] → KernelReports r.engine events →
        Reportable r.engine events := by
  obtain ⟨queues, coherent, aimed⟩ := careful_aimed reachable
  refine ⟨aimed, fun event ok r' guarded executes => ?_, fun events idle reports => ?_⟩
  · exact (exec_aimed coherent aimed guarded.1 guarded.2 executes).2 event ok rfl
  · exact aimed.reportable coherent.rep (coherent.rep.nodes_eq .ready ▸ idle) reports

/-- A command with the descriptors the kernel reports in it. -/
def Run.followsFds (r : Run) (command : Op × List Int) : Bool :=
  decide (r.Permits command.1) && (decide command.2.Nodup &&
    (command.2.map (fun fd => (r.engine.epoll fd).map EpollEvent.ptr) ==
      command.1.reports.map fun event => some event.ptr))

theorem Run.follows_of_fds (command : Op × List Int) (admitted : r.followsFds command = true) :
    r.Follows command.1 := by
  simp only [Run.followsFds, Bool.and_eq_true, decide_eq_true_eq, beq_iff_eq] at admitted
  exact ⟨admitted.1, fun _ => ⟨command.2, admitted.2⟩⟩

end Runs

/-- Two descriptors are watched and both reported; the first is fetched. -/
def bothReported : List (Op × List Int) :=
  [(.epollAdd 1 0 1 5, []), (.epollAdd 1 0 1 6, []),
    (.wait (.reported [⟨1, 2⟩, ⟨1, 3⟩] (some ⟨9, 0⟩) true), [5, 6])]

theorem careful_registrations_sample : ∃ r,
    carefulRuns.replay (fun r k => r.followsFds k && decide (r.Careful k.1)) Prod.fst
        (bothReported ++ [(.wait .error, []), (.cancel 3 true, []), (.epollMod 2 0 1 5, [])])
        (Run.initial 4 1) = some r ∧ Aimed r.engine := by
  have finishes : (carefulRuns.replay (fun r k => r.followsFds k && decide (r.Careful k.1)) Prod.fst
      (bothReported ++ [(.wait .error, []), (.cancel 3 true, []), (.epollMod 2 0 1 5, [])])
      (Run.initial 4 1)).isSome = true := by decide +kernel
  obtain ⟨r, replayed⟩ := Option.isSome_iff_exists.mp finishes
  refine ⟨r, replayed, (careful_registrations (.replay (fun r k admitted => ?_)
    (.start ⟨4, 1, rfl⟩) replayed)).1⟩
  obtain ⟨follows, careful⟩ := Bool.and_eq_true_iff.mp admitted
  exact ⟨Run.follows_of_fds k follows, of_decide_eq_true careful⟩

/-- The second descriptor is cancelled while its node is ready: its registration stays, and
points to a node on the unuse list. -/
theorem cancel_ready_keeps_registration : ∃ r, kernelRuns.Reachable r ∧
    kernelRuns.guard r (.cancel 3 true) ∧ (r.engine.heap 3).addType = .event ∧
      ∃ r', r.exec (.cancel 3 true) = .ok r' ∧ r'.engine.epoll 6 = some ⟨1, 3⟩ ∧
        3 ∈ r'.engine.nodes .unuse ∧ ¬ Aimed r'.engine := by
  have finishes : ((kernelRuns.replay Run.followsFds Prod.fst bothReported
      (Run.initial 4 1)).map fun r => (decide (r.Permits (.cancel 3 true)),
        (r.engine.heap 3).addType, (r.exec (.cancel 3 true)).toOption.map fun r' =>
          (r'.engine.epoll 6, decide (3 ∈ r'.engine.nodes .unuse), (r'.engine.heap 3).type))) =
      some (true, .event, some (some ⟨1, 3⟩, true, .unused)) := by decide +kernel
  obtain ⟨r, replayed, facts⟩ := Option.map_eq_some_iff.mp finishes
  simp only [Prod.mk.injEq, decide_eq_true_eq] at facts
  obtain ⟨permits, origin, result⟩ := facts
  obtain ⟨r', executes, after⟩ := Option.map_eq_some_iff.mp result
  simp only [Prod.mk.injEq, decide_eq_true_eq] at after
  obtain ⟨stays, free, unused⟩ := after
  have done : r.exec (.cancel 3 true) = .ok r' := by
    cases outcome : r.exec (.cancel 3 true) with
    | ok next => rw [outcome] at executes; exact congrArg Except.ok (Option.some.inj executes)
    | error fault => rw [outcome] at executes; cases executes
  refine ⟨r, .replay (fun r => Run.follows_of_fds) (.start ⟨4, 1, rfl⟩) replayed,
    ⟨permits, fun _ => ⟨[], List.nodup_nil, rfl⟩⟩, origin, r', done, stays, free, fun aimed => ?_⟩
  obtain ⟨⟨_, _, typed⟩, _⟩ := aimed 6 _ stays
  rw [unused] at typed
  rcases typed with typed | typed <;> cases typed

end Poplar.EventCtl
