import Poplar.EventCtl.Registration

/-!
# Lookups by descriptor

The users know which node `event_epoll_add` answered for a descriptor and which of
them they cancelled. That table is kept beside the engine; the engine itself finds a
node by the descriptor word in it, and the word stays when a node is recycled.
-/
namespace Poplar.EventCtl

/-- `registered` is the node a descriptor was added with, until it is cancelled. -/
structure Registry where
  run : Run
  registered : Int → Option NodePtr

namespace Registry

/-- The timer descriptor is the only one a new master has added. -/
def initial (timerfd : Int) (epEvents : Nat) : Registry :=
  { run := Run.initial timerfd epEvents
    registered := Function.update (fun _ => none) timerfd
      (eventEpollAdd (Engine.blank timerfd) 0 0 epEvents timerfd true).1 }

/-- The table after a command. -/
def noted (g : Registry) : Op → Int → Option NodePtr
  | .epollAdd func arg epEvents fd =>
    match (eventEpollAdd g.run.engine func arg epEvents fd true).1 with
    | some node => Function.update g.registered fd (some node)
    | none => g.registered
  | .cancel event _ => fun fd => if g.registered fd = some event then none else g.registered fd
  | .timerAdd .. | .epollMod .. | .close _ | .wait _ => g.registered

def exec (op : Op) (g : Registry) : Except Fault Registry := do
  return { run := ← g.run.exec op, registered := g.noted op }

/-- Each descriptor is looked up as the node registered for it or as none. So no timer
is found, and `event_epoll_mod` writes to no timer, whatever it is asked for. -/
structure LookupsRight (g : Registry) : Prop where
  answers : ∀ fd, eventEpollLookupByFd g.run.engine fd = .ok (g.registered fd)
  own : ∀ fd node, eventEpollLookupByFd g.run.engine fd = .ok (some node) →
    (g.run.engine.heap node).addType = .event
  kept : ∀ func arg epEvents fd ctlOk, ∃ result s',
    eventEpollMod g.run.engine func arg epEvents fd ctlOk = .ok (result, s') ∧
      ∀ p, (g.run.engine.heap p).addType ≠ .event → s'.heap p = g.run.engine.heap p

/-- Whatever `epoll_wait` reports waits in the hash. -/
def ReportsStored (g : Registry) (op : Op) : Prop :=
  (g.run.engine.list .ready).head = none → Reportable g.run.engine op.reports

end Registry

def registryRuns : Runs.System Registry Op Fault where
  start g := ∃ timerfd epEvents, g = Registry.initial timerfd epEvents
  guard g op := g.run.Follows op
  exec := Registry.exec

/-- The descriptor word of each ready timer is also that of a node that is found before
it: one in the hash, or an epoll node queued ahead of it. -/
def Engine.Unshadowed (s : Engine) : Prop :=
  ∀ ahead timer behind, s.nodes .ready = ahead ++ timer :: behind →
    (s.heap timer).addType ≠ .event → ∃ node,
      (node ∈ s.master.event.datas ∨ node ∈ ahead ∧ (s.heap node).addType = .event) ∧
        (s.heap node).fd = (s.heap timer).fd

/-- The nodes registered are the live ones, each under its own descriptor. -/
def Tracks (s : Engine) (registered : Int → Option NodePtr) : Prop :=
  ∀ fd node, registered fd = some node ↔ s.Live node ∧ (s.heap node).fd = fd

section Lookup

variable {s : Engine} {queues : Queues} {registered : Int → Option NodePtr} {n : NodePtr}

theorem lookup_stored (rep : Rep s queues none) (sound : Sound s)
    (stored : n ∈ s.master.event.datas) : eventEpollLookupByFd s (s.heap n).fd = .ok (some n) := by
  unfold eventEpollLookupByFd
  dsimp only
  cases looked : hashLookup (hashFuncs s.heap) s.master.event
      { EventNode.zero with fd := (s.heap n).fd, type := .event } with
  | some node =>
      obtain ⟨also, equal⟩ := hashLookup_some rep.keyed looked
      simp only [hashFuncs, eventHashCmp, Bool.and_eq_true, beq_iff_eq] at equal
      rw [sound.only rep stored node also equal.1]
  | none =>
      have typed := ((rep.hashed n).mp stored).2
      have missed := (hashLookup_none rep.keyed).mp looked n stored rfl
      simp [hashFuncs, eventHashCmp, typed] at missed

theorem lookup_unstored (rep : Rep s queues none) {fd : Int}
    (absent : ∀ m ∈ s.master.event.datas, (s.heap m).fd ≠ fd) :
    eventEpollLookupByFd s fd =
      .ok ((s.nodes .ready).find? fun q => decide ((s.heap q).fd = fd)) := by
  have missed : hashLookup (hashFuncs s.heap) s.master.event
      { EventNode.zero with fd := fd, type := .event } = none := by
    apply (hashLookup_none rep.keyed).mpr
    intro m stored _
    simp [hashFuncs, eventHashCmp, absent m stored]
  have search := eventListLookupFrom_spec fd .ready (rep.chain .ready).seg (rep.enough .ready)
  rw [← (rep.chain .ready).head] at search
  rw [rep.nodes_eq]
  unfold eventEpollLookupByFd
  dsimp only
  rw [missed]
  refine search.trans (congrArg Except.ok (List.find?_congr fun q among => ?_))
  simp [((rep.listed .ready q).mp among).2, ListName.type]

theorem mem_ready_iff (rep : Rep s queues none) :
    n ∈ s.nodes .ready ↔ s.Allocated n ∧ (s.heap n).type = .ready := by
  rw [rep.nodes_eq, rep.listed]
  simp [ListName.type]

/-- A live node waits in the hash or is on the ready list. -/
theorem Engine.Live.place (live : s.Live n) (rep : Rep s queues none) :
    n ∈ s.master.event.datas ∨ n ∈ s.nodes .ready := by
  obtain ⟨here, _, waits | ready⟩ := live
  · exact .inl ((rep.hashed n).mpr ⟨⟨here, by simp⟩, waits⟩)
  · exact .inr ((mem_ready_iff rep).mpr ⟨here, ready⟩)

/-- Nothing is found in the hash that is not registered, and on the ready list it is the first
node with the descriptor that counts. -/
theorem lookups_iff_unshadowed (rep : Rep s queues none) (sound : Sound s)
    (tracks : Tracks s registered) :
    (∀ fd, eventEpollLookupByFd s fd = .ok (registered fd)) ↔ s.Unshadowed := by
  constructor
  · intro answers ahead timer behind split foreign
    by_contra! missing
    have absent : ∀ m ∈ s.master.event.datas, (s.heap m).fd ≠ (s.heap timer).fd :=
      fun m stored => missing m (.inl stored)
    have found := (lookup_unstored rep absent).symm.trans (answers _)
    rw [Except.ok.injEq, split, List.find?_append] at found
    cases early : ahead.find? fun q => decide ((s.heap q).fd = (s.heap timer).fd) with
    | some node =>
        rw [early, Option.some_or] at found
        have live := ((tracks _ _).mp found.symm).1
        have same := List.find?_some early
        exact missing node (.inr ⟨List.mem_of_find?_eq_some early, live.2.1⟩) (by simpa using same)
    | none =>
        rw [early, Option.none_or, List.find?_cons_of_pos (by simp)] at found
        exact foreign ((tracks _ _).mp found.symm).1.2.1
  · intro unshadowed fd
    by_cases stored : ∃ m ∈ s.master.event.datas, (s.heap m).fd = fd
    · obtain ⟨m, member, rfl⟩ := stored
      rw [lookup_stored rep sound member]
      exact congrArg Except.ok
        ((tracks _ _).mpr ⟨sound.live_of_stored rep member, rfl⟩).symm
    · push Not at stored
      rw [lookup_unstored rep stored]
      apply congrArg Except.ok
      cases found : (s.nodes .ready).find? fun q => decide ((s.heap q).fd = fd) with
      | some node =>
          obtain ⟨same, ahead, behind, split, before⟩ := List.find?_eq_some_iff_append.mp found
          rw [decide_eq_true_eq] at same
          have member : node ∈ s.nodes .ready := split ▸ by simp
          obtain ⟨here, ready⟩ := (mem_ready_iff rep).mp member
          have origin : (s.heap node).addType = .event := by
            by_contra foreign
            obtain ⟨other, place, equal⟩ := unshadowed ahead node behind split foreign
            rcases place with waits | ⟨earlier, _⟩
            · exact stored other waits (equal.trans same)
            · have missed := before other earlier
              simp [equal.trans same] at missed
          exact ((tracks fd node).mpr ⟨⟨here, origin, .inr ready⟩, same⟩).symm
      | none =>
          cases own : registered fd with
          | none => rfl
          | some node =>
              obtain ⟨live, same⟩ := (tracks fd node).mp own
              rcases live.place rep with waits | listed
              · exact absurd same (stored node waits)
              · have missed := List.find?_eq_none.mp found node listed
                simp [same] at missed

end Lookup

section Tracks

variable {s s' : Engine} {queues queues' : Queues} {registered : Int → Option NodePtr} {n : NodePtr}

/-- Only words of `n` change, and `n` stays live or stays out. -/
theorem Tracks.touch (tracks : Tracks s registered) (touch : Touch n s s')
    (stays : s'.Live n ↔ s.Live n) (fd : s.Live n → (s'.heap n).fd = (s.heap n).fd) :
    Tracks s' registered := by
  intro d node
  rw [tracks d node]
  by_cases own : node = n
  · subst own
    rw [stays]
    exact and_congr_right fun live => by rw [fd live]
  · rw [touch.live_iff own]
    exact and_congr_right fun live => by rw [payload_fd (touch.others node live.1 own)]

theorem Tracks.retimed (tracks : Tracks s registered) (retimed : Retimed s s') :
    Tracks s' registered := by
  intro fd node
  rw [tracks fd node]
  simp only [Engine.Live, retimed.allocated, retimed.heap]

/-- A node that was free is registered. -/
theorem Tracks.added {fd : Int} {epEvents : Nat} (tracks : Tracks s registered) (sound : Sound s)
    (unregistered : s.epoll fd = none) (added : EpollAdded s queues fd epEvents n s' queues') :
    Tracks s' (Function.update registered fd (some n)) := by
  have live : s'.Live n :=
    ⟨(added.touch.allocated n).mpr (.inr rfl), added.addType, .inl added.type⟩
  intro d node
  by_cases own : node = n
  · subst own
    by_cases same : d = fd
    · subst same
      rw [Function.update_self]
      exact iff_of_true rfl ⟨live, added.watched⟩
    · rw [Function.update_of_ne same]
      refine iff_of_false (fun older => ?_) fun both => same (both.2.symm.trans added.watched)
      have used := ((tracks d node).mp older).1
      exact added.free ⟨used.1, by rcases used.2.2 with typed | typed <;> simp [typed]⟩
  · rw [added.touch.live_iff own]
    by_cases same : d = fd
    · subst same
      rw [Function.update_self]
      refine iff_of_false (fun equal => own (Option.some.inj equal).symm) fun both => ?_
      obtain ⟨older, watched⟩ := both
      rw [payload_fd (added.touch.others node older.1 own)] at watched
      exact sound.registered node older (watched ▸ unregistered)
    · rw [Function.update_of_ne same, tracks d node]
      exact and_congr_right fun older => by rw [payload_fd (added.touch.others node older.1 own)]

/-- A node that was cancelled has no registration. -/
theorem Tracks.cancelled {settimeOk : Bool} (tracks : Tracks s registered)
    (cancelled : Cancelled s queues n settimeOk s' queues') :
    Tracks s' fun fd => if registered fd = some n then none else registered fd := by
  intro d node
  by_cases own : node = n
  · subst own
    refine iff_of_false (fun found => ?_) fun both => ?_
    · dsimp only at found
      split at found
      next => cases found
      next other => exact other found
    · rcases both.1.2.2 with typed | typed <;> cases cancelled.unused.symm.trans typed
  · rw [cancelled.touch.live_iff own]
    have older : (if registered d = some n then none else registered d) = some node ↔
        registered d = some node := by
      split
      next same =>
        rw [same]
        exact iff_of_false (by simp) fun equal => own (Option.some.inj equal).symm
      next => rfl
    rw [older, tracks d node]
    exact and_congr_right fun live => by rw [payload_fd (cancelled.touch.others node live.1 own)]

theorem PassMove.tracks {view view' : View} (move : PassMove view view')
    (rep : Rep view.1 view.2 none) (sound : Sound view.1) (tracks : Tracks view.1 registered) :
    Tracks view'.1 registered := by
  cases move with
  | @expire s s' queues l n ys now timed split _ readied _ =>
      obtain ⟨⟨here, _⟩, typed⟩ := (rep.listed l n).mp
        (show n ∈ queues l from split ▸ List.mem_cons_self)
      have foreign : (s.heap n).addType ≠ .event := by
        apply sound.timers n here
        rw [typed]
        cases timed
        · exact .inl rfl
        · exact .inr rfl
      refine tracks.touch readied.touch (iff_of_false (fun live => ?_) fun live => ?_)
        fun _ => readied.fd
      · exact foreign (readied.addType.symm.trans live.2.1)
      · exact foreign live.2.1
  | report stored readied _ =>
      have live := sound.live_of_stored rep stored
      exact tracks.touch readied.touch (iff_of_true (readied.stays live) live) fun _ => readied.fd
  | retime retimed _ => exact tracks.retimed retimed

theorem PassMoves.tracks {view view' : View} (moves : PassMoves view view')
    (rep : Rep view.1 view.2 none) (sound : Sound view.1) (tracks : Tracks view.1 registered) :
    Tracks view'.1 registered := by
  induction moves with
  | refl => exact tracks
  | tail before last ih =>
      exact last.tracks (PassMoves.rep before rep) (PassMoves.sound before rep sound) ih

theorem Fetches.tracks {w : Waited} {view view' : View} (fetches : Fetches w view view')
    (rep : Rep view.1 view.2 none) (tracks : Tracks view.1 registered) :
    Tracks view'.1 registered := by
  cases fetches with
  | idle => exact tracks
  | null => exact tracks
  | retry => exact tracks
  | @fetched n _ _ dispatch =>
      cases dispatch with
      | timer _ foreign touch _ payload _ =>
          refine tracks.touch touch (iff_of_false (fun live => ?_) fun live => foreign live.2.1)
            fun live => absurd live.2.1 foreign
          exact foreign ((payload_addType payload).symm.trans live.2.1)
      | @epoll s s' queues ys split origin touch _ payload _ =>
          have ready := (rep.listed .ready n).mp
            (show n ∈ queues .ready from split ▸ List.mem_cons_self)
          refine tracks.touch touch (iff_of_true ?_ ?_) fun _ => (payload_fd payload :)
          · exact ⟨(touch.allocated n).mpr (.inr rfl), (payload_addType payload).trans origin,
              .inl (payload_type payload)⟩
          · exact ⟨ready.1.1, origin, .inr ready.2⟩

end Tracks

section Runs

variable {g g' : Registry} {queues : Queues}

theorem initial_tracks (timerfd : Int) (epEvents : Nat) : ∃ queues,
    Coherent (Registry.initial timerfd epEvents).run queues ∧
      Tracks (Registry.initial timerfd epEvents).run.engine
        (Registry.initial timerfd epEvents).registered := by
  have blank : Tracks (Engine.blank timerfd) fun _ => none := by
    intro fd node
    refine iff_of_false (by simp) fun both => ?_
    obtain ⟨⟨above, below⟩, _⟩ := both.1
    simp only [Engine.blank] at below
    omega
  obtain ⟨n, s', queues, run, added⟩ := (blank_sound timerfd).epollAdd (blank_rep timerfd) 0 0
    epEvents (show (Engine.blank timerfd).epoll timerfd = none from rfl)
  have engine : (Run.initial timerfd epEvents).engine = s' := by
    simp only [Run.initial, eventMasterCreate, run]
  have tracks := blank.added (blank_sound timerfd) rfl added
  refine ⟨queues, initial_coherent (engine ▸ added), ?_⟩
  simp only [Registry.initial, engine, run]
  exact tracks

/-- One command: the table still shows the live nodes. -/
theorem exec_tracks {op : Op} {r' : Run} (coherent : Coherent g.run queues)
    (tracks : Tracks g.run.engine g.registered) (admits : g.run.Admits op)
    (executes : g.run.exec op = .ok r') : Tracks r'.engine (g.noted op) := by
  have rep := coherent.rep
  have sound := coherent.sound
  obtain ⟨permits, reportable⟩ := admits
  cases op with
  | timerAdd adder now func arg time ok =>
      change Tracks r'.engine g.registered
      rcases adder.run_spec rep now func arg time ok with run | ⟨n, mid, queues', run, added⟩
      · simp only [Run.exec, run] at executes
        cases executes
        exact tracks
      · simp only [Run.exec, run] at executes
        cases executes
        have foreign : (mid.heap n).addType ≠ .event := by
          rw [added.addType]
          exact adder.list.type_ne_event
        have idle : ¬ g.run.engine.Live n := fun live =>
          added.free ⟨live.1, by rcases live.2.2 with typed | typed <;> simp [typed]⟩
        refine Tracks.retimed (tracks.touch added.touch ?_ fun live => absurd live idle)
          (armFor_retimed mid n ok)
        exact iff_of_false (fun live => foreign live.2.1) idle
  | epollAdd func arg epEvents fd =>
      obtain ⟨n, s', queues', run, added⟩ := sound.epollAdd rep func arg epEvents permits
      have table : g.noted (.epollAdd func arg epEvents fd) =
          Function.update g.registered fd (some n) := by
        simp only [Registry.noted, run]
      simp only [Run.exec, run] at executes
      cases executes
      rw [table]
      exact tracks.added sound permits added
  | epollMod func arg epEvents fd =>
      obtain ⟨result, s', run, _, brk, _, words, _⟩ := eventEpollMod_spec rep func arg epEvents fd
      simp only [Run.exec, run] at executes
      cases executes
      intro d node
      change g.registered d = some node ↔ s'.Live node ∧ (s'.heap node).fd = d
      simp only [tracks d node, Engine.Live, Engine.Allocated, brk, words]
  | cancel event ok =>
      obtain ⟨s', queues', run, cancelled⟩ := eventCancel_spec rep (coherent.owned event permits)
        (fun m member same stored => sound.only rep stored m member same) ok
      simp only [Run.exec, run] at executes
      cases executes
      exact tracks.cancelled cancelled
  | close fd =>
      cases executes
      exact tracks
  | wait answer =>
      obtain ⟨mid, qmid, w, s', queues', run, moves, fetches, _⟩ := eventWaitingPass_spec rep sound
        answer fun idle events now ok same => by
          subst same
          exact reportable (by rw [(rep.chain .ready).head, idle]; rfl)
      simp only [Run.exec, run] at executes
      cases executes
      have engine : (g.run.waited (w, s')).engine = s' := by
        cases w with
        | fetched n =>
            simp only [Run.waited]
            split <;> rfl
        | null => rfl
        | waiting => rfl
      rw [engine]
      exact fetches.tracks (PassMoves.rep moves rep) (PassMoves.tracks moves rep sound tracks)

/-- With the first part the other two follow: what is registered was added as an epoll node, and
`event_epoll_mod` writes to the node it looked up only. -/
theorem lookupsRight_iff (tracks : Tracks g.run.engine g.registered) :
    g.LookupsRight ↔ ∀ fd, eventEpollLookupByFd g.run.engine fd = .ok (g.registered fd) := by
  constructor
  · exact fun right => right.answers
  · intro answers
    have own : ∀ fd node, eventEpollLookupByFd g.run.engine fd = .ok (some node) →
        (g.run.engine.heap node).addType = .event := by
      intro fd node looked
      have same := (answers fd).symm.trans looked
      exact ((tracks fd node).mp (Except.ok.inj same)).1.2.1
    refine ⟨answers, own, fun func arg epEvents fd ctlOk => ?_⟩
    cases found : g.registered fd with
    | none =>
        have looked := (answers fd).trans (congrArg Except.ok found)
        exact ⟨none, g.run.engine, by rw [eventEpollMod, looked]; rfl, fun _ _ => rfl⟩
    | some node =>
        have looked := (answers fd).trans (congrArg Except.ok found)
        have written : ∀ p, (g.run.engine.heap p).addType ≠ .event →
            (g.run.engine.modify node fun e => { e with
              listenEvent := ⟨epEvents, node⟩, func := func, arg := arg }).heap p =
              g.run.engine.heap p := by
          intro p foreign
          apply Engine.modify_of_ne
          rintro rfl
          exact foreign (own fd p looked)
        rw [eventEpollMod_eq func arg epEvents ctlOk looked]
        cases epollCtl g.run.engine.epoll .mod fd ⟨epEvents, node⟩ ctlOk with
        | none => exact ⟨_, _, rfl, written⟩
        | some set => exact ⟨_, _, rfl, written⟩

/-- In a run whose reports name nodes of the hash, the lookups are right in every state if and
only if in every state no ready timer has a descriptor word that finds it. -/
theorem lookups_right_iff (starts : registryRuns.start g) (ops : List Op)
    (stored : registryRuns.Each Registry.ReportsStored ops g) :
    registryRuns.Every Registry.LookupsRight ops g ↔
      registryRuns.Every (fun g => g.run.engine.Unshadowed) ops g := by
  refine Runs.System.every_congr (I := fun g => ∃ queues, Coherent g.run queues ∧
    Tracks g.run.engine g.registered) ?_ ?_ ?_ stored
  · rintro g ⟨queues, coherent, tracks⟩
    rw [lookupsRight_iff tracks]
    exact lookups_iff_unshadowed coherent.rep coherent.sound tracks
  · rintro g op g' ⟨queues, coherent, tracks⟩ follows reports executes
    have admits : g.run.Admits op := ⟨follows.1, reports⟩
    obtain ⟨r', queues', run, next⟩ := exec_coherent coherent admits
    have made : g' = { run := r', registered := g.noted op } := by
      simp only [registryRuns, Registry.exec, run] at executes
      exact (Except.ok.inj executes).symm
    rw [made]
    exact ⟨queues', next, exec_tracks coherent tracks admits run⟩
  · obtain ⟨timerfd, epEvents, rfl⟩ := starts
    exact initial_tracks timerfd epEvents

end Runs

/-- A rear timer on a new node is due while descriptor 0, which its word names, is watched. -/
def zeroWatched : List Op :=
  [.epollAdd 1 0 1 0, .timerAdd .rear (some ⟨1, 0⟩) 2 0 3 true,
    .wait (.reported [⟨1, 2⟩] (some ⟨9, 0⟩) true), .epollMod 4 0 1 0, .wait .error]

theorem lookups_right_sample :
    registryRuns.Every Registry.LookupsRight zeroWatched (Registry.initial 4 1) := by
  have tested : registryRuns.tested
      (fun g => (g.run.engine.nodes .ready).all fun timer => g.run.engine.master.event.datas.any
        fun node => (g.run.engine.heap node).fd == (g.run.engine.heap timer).fd)
      (fun g op => decide (Reportable g.run.engine op.reports)) zeroWatched
      (Registry.initial 4 1) = true := by decide +kernel
  have passes := Runs.System.of_tested (P := fun g => g.run.engine.Unshadowed)
    (Q := Registry.ReportsStored) ?_ ?_ tested
  · exact (lookups_right_iff ⟨4, 1, rfl⟩ zeroWatched passes.2).mpr passes.1
  · intro g test ahead timer behind split _
    simp only [split, List.all_eq_true, List.any_eq_true, beq_iff_eq] at test
    obtain ⟨node, waits, same⟩ := test timer (by simp)
    exact ⟨node, .inl waits, same⟩
  · intro g op test _
    exact of_decide_eq_true test

/-- A descriptor is watched, cancelled and closed; its node becomes a rear timer that is due
when another descriptor is reported. -/
def recycled : List (Op × List Int) :=
  [(.epollAdd 1 0 1 6, []), (.cancel 2 true, []), (.close 6, []),
    (.timerAdd .rear (some ⟨1, 0⟩) 2 0 3 true, []), (.epollAdd 3 0 1 5, []),
    (.wait (.reported [⟨1, 3⟩] (some ⟨9, 0⟩) true), [5])]

/-- The ready timer is found by the descriptor that was cancelled, and gets another callback. -/
theorem ready_timer_found : ∃ g, registryRuns.Reachable g ∧ g.registered 6 = none ∧
    eventEpollLookupByFd g.run.engine 6 = .ok (some 2) ∧
      (g.run.engine.heap 2).addType = .rear ∧ (g.run.engine.heap 2).func = 2 ∧
        (∃ s', eventEpollMod g.run.engine 7 0 1 6 true = .ok (none, s') ∧ (s'.heap 2).func = 7) ∧
          ¬ g.LookupsRight := by
  have finishes : (registryRuns.replay (fun g k => g.run.followsFds k) Prod.fst recycled
      (Registry.initial 4 1)).any (fun g => g.registered 6 == none &&
        ((eventEpollLookupByFd g.run.engine 6).toOption == some (some 2) &&
        ((g.run.engine.heap 2).addType == .rear && ((g.run.engine.heap 2).func == 2 &&
        ((eventEpollMod g.run.engine 7 0 1 6 true).toOption.map fun answer =>
          (answer.1, (answer.2.heap 2).func)) == some (none, 7))))) = true := by decide +kernel
  obtain ⟨g, replayed, facts⟩ := (Option.any_eq_true _ _).mp finishes
  simp only [Bool.and_eq_true, beq_iff_eq] at facts
  obtain ⟨free, found, origin, func, modified⟩ := facts
  obtain ⟨⟨result, s'⟩, mods, written⟩ := Option.map_eq_some_iff.mp modified
  simp only [Prod.mk.injEq] at written
  have looked := toOption_some found
  have ran := toOption_some mods
  rw [written.1] at ran
  refine ⟨g, .replay (fun g => Run.follows_of_fds (r := g.run)) (.start ⟨4, 1, rfl⟩) replayed, free,
    looked, origin, func, ⟨s', ran, written.2⟩, fun right => ?_⟩
  have named := right.own 6 2 looked
  rw [origin] at named
  cases named

end Poplar.EventCtl
