import Poplar.EventCtl.Specs

/-!
# A pass of event_waiting_process as a sequence of moves

A pass moves expired timers and reported nodes to the ready list, resets the
timer and dispatches the first ready node. Invariants are proved of the single
moves; the specification of the pass says which moves it makes.
-/
namespace Poplar.EventCtl

/-- An engine and the lists it represents. -/
abbrev View := Engine × Queues

/-- One move of a pass before the dispatch. -/
inductive PassMove : View → View → Prop
  | expire {s s' : Engine} {queues : Queues} {l : ListName} {n : NodePtr} {ys : List NodePtr}
      {now : Timespec} : l.Timed → queues l = n :: ys → Expired s.heap now n → Readied n s s' →
      Rep s' (Function.update (Function.update queues l ys) .ready (queues .ready ++ [n])) none →
      PassMove (s, queues)
        (s', Function.update (Function.update queues l ys) .ready (queues .ready ++ [n]))
  | report {s s' : Engine} {queues : Queues} {n : NodePtr} : n ∈ s.master.event.datas →
      Readied n s s' → Rep s' (Function.update queues .ready (queues .ready ++ [n])) none →
      PassMove (s, queues) (s', Function.update queues .ready (queues .ready ++ [n]))
  | retime {s s' : Engine} {queues : Queues} : Retimed s s' → Rep s' queues none →
      PassMove (s, queues) (s', queues)

/-- The dispatch of the first ready node. -/
inductive Dispatch (n : NodePtr) : View → View → Prop
  | timer {s s' : Engine} {queues : Queues} {ys : List NodePtr} : queues .ready = n :: ys →
      (s.heap n).addType ≠ .event → Touch n s s' → Still s s' →
      (s'.heap n).payload = ({ s.heap n with type := .unused } : EventNode).payload →
      Rep s' (Function.update (Function.update queues .ready ys) .unuse (queues .unuse ++ [n])) none →
      Dispatch n (s, queues)
        (s', Function.update (Function.update queues .ready ys) .unuse (queues .unuse ++ [n]))
  | epoll {s s' : Engine} {queues : Queues} {ys : List NodePtr} : queues .ready = n :: ys →
      (s.heap n).addType = .event → Touch n s s' → Still s s' →
      (s'.heap n).payload = ({ s.heap n with type := .event } : EventNode).payload →
      Rep s' (Function.update queues .ready ys) none →
      Dispatch n (s, queues) (s', Function.update queues .ready ys)

/-- No two epoll nodes that wait or are ready share a descriptor. -/
def Engine.Live (s : Engine) (p : Nat) : Prop :=
  s.Allocated p ∧ (s.heap p).addType = .event ∧
    ((s.heap p).type = .event ∨ (s.heap p).type = .ready)

/-- What the type words and the descriptors of nodes have to do with each other and
with the epoll set. -/
structure Sound (s : Engine) : Prop where
  distinct : ∀ p q, s.Live p → s.Live q → (s.heap p).fd = (s.heap q).fd → p = q
  registered : ∀ p, s.Live p → s.epoll (s.heap p).fd ≠ none
  timers : ∀ p, s.Allocated p → (s.heap p).type = .timer ∨ (s.heap p).type = .rear →
    (s.heap p).addType ≠ .event
  events : ∀ p, s.Allocated p → (s.heap p).type = .event → (s.heap p).addType = .event

section Sound

variable {s s' : Engine} {queues queues' : Queues} {n : NodePtr}

theorem Sound.live_of_stored (sound : Sound s) (rep : Rep s queues none)
    (stored : n ∈ s.master.event.datas) : s.Live n := by
  obtain ⟨⟨here, _⟩, typed⟩ := (rep.hashed n).mp stored
  exact ⟨here, sound.events n here typed, .inl typed⟩

theorem Sound.only (sound : Sound s) (rep : Rep s queues none)
    (stored : n ∈ s.master.event.datas) : ∀ m ∈ s.master.event.datas,
    (s.heap m).fd = (s.heap n).fd → m = n := fun m also same =>
  sound.distinct m n (sound.live_of_stored rep also) (sound.live_of_stored rep stored) same

theorem Touch.live_iff (touch : Touch n s s') {q : NodePtr} (different : q ≠ n) :
    s'.Live q ↔ s.Live q := by
  have here : s'.Allocated q ↔ s.Allocated q := by
    rw [touch.allocated]
    exact ⟨fun either => either.resolve_right different, .inl⟩
  unfold Engine.Live
  rw [here]
  refine and_congr_right fun there => ?_
  rw [payload_type (touch.others q there different), payload_addType (touch.others q there different)]

/-- The words of one node change. -/
theorem Sound.touch (sound : Sound s) (touch : Touch n s s')
    (timers : (s'.heap n).type = .timer ∨ (s'.heap n).type = .rear → (s'.heap n).addType ≠ .event)
    (events : (s'.heap n).type = .event → (s'.heap n).addType = .event)
    (kept : ∀ q, s.Live q → q ≠ n → s'.epoll (s.heap q).fd ≠ none)
    (fresh : s'.Live n → s'.epoll (s'.heap n).fd ≠ none ∧
      ∀ q, s.Live q → q ≠ n → (s.heap q).fd ≠ (s'.heap n).fd) : Sound s' := by
  have older : ∀ q, s'.Allocated q → q ≠ n → (s'.heap q).payload = (s.heap q).payload :=
    fun q there different =>
      touch.others q (((touch.allocated q).mp there).resolve_right different) different
  refine ⟨fun p q liveP liveQ same => ?_, fun p live => ?_, fun p there => ?_, fun p there => ?_⟩
  · by_cases isP : p = n
    · subst isP
      by_cases isQ : q = p
      · exact isQ.symm
      · exact absurd (payload_fd (older q liveQ.1 isQ) ▸ same.symm)
          ((fresh liveP).2 q ((touch.live_iff isQ).mp liveQ) isQ)
    · by_cases isQ : q = n
      · subst isQ
        exact absurd (payload_fd (older p liveP.1 isP) ▸ same)
          ((fresh liveQ).2 p ((touch.live_iff isP).mp liveP) isP)
      · refine sound.distinct p q ((touch.live_iff isP).mp liveP) ((touch.live_iff isQ).mp liveQ) ?_
        rwa [payload_fd (older p liveP.1 isP), payload_fd (older q liveQ.1 isQ)] at same
  · by_cases own : p = n
    · subst own
      exact (fresh live).1
    · rw [payload_fd (older p live.1 own)]
      exact kept p ((touch.live_iff own).mp live) own
  · by_cases own : p = n
    · subst own
      exact timers
    · have old := ((touch.allocated p).mp there).resolve_right own
      rw [payload_type (older p there own), payload_addType (older p there own)]
      exact sound.timers p old
  · by_cases own : p = n
    · subst own
      exact events
    · have old := ((touch.allocated p).mp there).resolve_right own
      rw [payload_type (older p there own), payload_addType (older p there own)]
      exact sound.events p old

theorem Sound.retimed (sound : Sound s) (retimed : Retimed s s') : Sound s' := by
  have allocated := retimed.allocated
  constructor <;> simp only [Engine.Live, allocated, retimed.heap, retimed.epoll]
  · exact sound.distinct
  · exact sound.registered
  · exact sound.timers
  · exact sound.events

/-- A node that becomes ready stays live if it was. -/
theorem Sound.readied (sound : Sound s) (readied : Readied n s s') (here : s.Allocated n)
    (before : (s.heap n).type = .timer ∨ (s.heap n).type = .rear ∨ (s.heap n).type = .event) :
    Sound s' := by
  have live : s'.Live n → s.Live n := fun after => by
    have origin : (s.heap n).addType = .event := readied.addType ▸ after.2.1
    rcases before with timer | rear | event
    · exact absurd origin (sound.timers n here (.inl timer))
    · exact absurd origin (sound.timers n here (.inr rear))
    · exact ⟨here, origin, .inl event⟩
  refine sound.touch readied.touch ?_ ?_ ?_ ?_
  · rw [readied.type]
    rintro (impossible | impossible) <;> cases impossible
  · rw [readied.type]
    exact fun impossible => by cases impossible
  · intro q other _
    rw [readied.still.epoll]
    exact sound.registered q other
  · intro after
    rw [readied.still.epoll, readied.fd]
    exact ⟨sound.registered n (live after), fun q other different same =>
      different (sound.distinct q n other (live after) same)⟩

theorem PassMove.sound {view view' : View} (move : PassMove view view') (rep : Rep view.1 view.2 none)
    (sound : Sound view.1) : Sound view'.1 := by
  cases move with
  | @expire s s' queues l n ys now timed split _ readied _ =>
      obtain ⟨⟨here, _⟩, typed⟩ := (rep.listed l n).mp (by simp [split])
      refine sound.readied readied here ?_
      cases timed
      · exact .inl typed
      · exact .inr (.inl typed)
  | report stored readied _ =>
      obtain ⟨⟨here, _⟩, typed⟩ := (rep.hashed _).mp stored
      exact sound.readied readied here (.inr (.inr typed))
  | retime retimed _ => exact sound.retimed retimed

theorem PassMove.rep {view view' : View} (move : PassMove view view') : Rep view'.1 view'.2 none := by
  cases move <;> assumption

theorem Dispatch.rep {view view' : View} (dispatch : Dispatch n view view') :
    Rep view'.1 view'.2 none := by
  cases dispatch <;> assumption

theorem Dispatch.sound {view view' : View} (dispatch : Dispatch n view view')
    (rep : Rep view.1 view.2 none) (sound : Sound view.1) : Sound view'.1 := by
  cases dispatch with
  | timer split origin touch still payload _ =>
      have typed := payload_type payload
      refine sound.touch touch ?_ ?_ ?_ ?_
      · rw [typed]
        rintro (impossible | impossible) <;> cases impossible
      · rw [typed]
        exact fun impossible => by cases impossible
      · intro q other _
        rw [still.epoll]
        exact sound.registered q other
      · intro after
        exact absurd (after.2.1.symm.trans (payload_addType payload)).symm origin
  | epoll split origin touch still payload _ =>
      have typed := payload_type payload
      obtain ⟨⟨here, _⟩, ready⟩ := (rep.listed .ready n).mp (by simp [split])
      have live : Engine.Live _ n := ⟨here, origin, .inr ready⟩
      refine sound.touch touch ?_ ?_ ?_ ?_
      · rw [typed]
        rintro (impossible | impossible) <;> cases impossible
      · exact fun _ => (payload_addType payload).trans origin
      · intro q other _
        rw [still.epoll]
        exact sound.registered q other
      · intro _
        rw [still.epoll, payload_fd payload]
        exact ⟨sound.registered n live, fun q other different same =>
          different (sound.distinct q n other live same)⟩

end Sound

/-- Any number of moves, through represented states. -/
abbrev PassMoves : View → View → Prop := Relation.ReflTransGen PassMove

section Pass

variable {s : Engine} {queues : Queues} {n : NodePtr}

theorem PassMoves.rep {view view' : View} (moves : PassMoves view view')
    (rep : Rep view.1 view.2 none) : Rep view'.1 view'.2 none := by
  cases moves with
  | refl => exact rep
  | tail _ last => exact last.rep

theorem PassMoves.sound {view view' : View} (moves : PassMoves view view')
    (rep : Rep view.1 view.2 none) (sound : Sound view.1) : Sound view'.1 := by
  induction moves with
  | refl => exact sound
  | tail before last ih => exact last.sound (PassMoves.rep before rep) ih

theorem PassMove.allocated {view view' : View} (move : PassMove view view')
    (rep : Rep view.1 view.2 none) (q : NodePtr) : view'.1.Allocated q ↔ view.1.Allocated q := by
  cases move with
  | expire _ split _ readied _ =>
      rw [readied.touch.allocated]
      have here := ((rep.listed _ _).mp (split ▸ List.mem_cons_self)).1.1
      exact ⟨fun either => either.elim id fun own => own ▸ here, .inl⟩
  | report stored readied _ =>
      rw [readied.touch.allocated]
      have here := ((rep.hashed _).mp stored).1.1
      exact ⟨fun either => either.elim id fun own => own ▸ here, .inl⟩
  | retime retimed _ => exact retimed.allocated q

/-- The words of a node that a pass never writes. -/
theorem PassMove.words {view view' : View} (move : PassMove view view') {q : NodePtr}
    (here : view.1.Allocated q) :
    (view'.1.heap q).fd = (view.1.heap q).fd ∧ (view'.1.heap q).time = (view.1.heap q).time ∧
      (view'.1.heap q).addType = (view.1.heap q).addType ∧
      view'.1.master.eventTimer.timerfd = view.1.master.eventTimer.timerfd := by
  have readied : ∀ {n s s'}, Readied n s s' → s.Allocated q →
      (s'.heap q).fd = (s.heap q).fd ∧ (s'.heap q).time = (s.heap q).time ∧
        (s'.heap q).addType = (s.heap q).addType ∧
        s'.master.eventTimer.timerfd = s.master.eventTimer.timerfd := by
    intro n s s' readied here
    by_cases own : q = n
    · subst own
      exact ⟨readied.fd, readied.time, readied.addType, readied.touch.timerfd⟩
    · have same := readied.touch.others q here own
      exact ⟨payload_fd same, payload_time same, payload_addType same, readied.touch.timerfd⟩
  cases move with
  | expire _ _ _ moved _ => exact readied moved here
  | report _ moved _ => exact readied moved here
  | retime retimed _ => simp only [retimed.heap, retimed.timerfd, and_self]

theorem PassMoves.allocated {view view' : View} (moves : PassMoves view view')
    (rep : Rep view.1 view.2 none) (q : NodePtr) : view'.1.Allocated q ↔ view.1.Allocated q := by
  induction moves with
  | refl => rfl
  | tail before last ih => exact (last.allocated (PassMoves.rep before rep) q).trans ih

theorem PassMoves.words {view view' : View} (moves : PassMoves view view')
    (rep : Rep view.1 view.2 none) {q : NodePtr} (here : view.1.Allocated q) :
    (view'.1.heap q).fd = (view.1.heap q).fd ∧ (view'.1.heap q).time = (view.1.heap q).time ∧
      (view'.1.heap q).addType = (view.1.heap q).addType ∧
      view'.1.master.eventTimer.timerfd = view.1.master.eventTimer.timerfd := by
  induction moves with
  | refl => exact ⟨rfl, rfl, rfl, rfl⟩
  | tail before last ih =>
      obtain ⟨fd, time, addType, timerfd⟩ := last.words ((PassMoves.allocated before rep q).mpr here)
      exact ⟨fd.trans ih.1, time.trans ih.2.1, addType.trans ih.2.2.1, timerfd.trans ih.2.2.2⟩

/-- What the timer lists hand over: their first node, if it is due. -/
def firstExpired (heap : Chain.Heap EventNode) (now : Timespec) (ps : List NodePtr) :
    List NodePtr :=
  (ps.take 1).filter fun p => Expired heap now p

/-- The lists after `batch` went from the front of `l` to the ready list. -/
def handOver (queues : Queues) (l : ListName) (batch : List NodePtr) : Queues :=
  Function.update (Function.update queues l ((queues l).drop batch.length)) .ready
    (queues .ready ++ batch)

theorem eventTimerProcess_spec (rep : Rep s queues none) {l : ListName} (timed : l.Timed)
    (now : Timespec) : ∃ k s', eventTimerProcess s l now = .ok (k, s') ∧
      PassMoves (s, queues) (s', handOver queues l (firstExpired s.heap now (queues l))) ∧
      (∀ q, q ∈ s'.master.event.datas ↔ q ∈ s.master.event.datas) := by
  by_cases due : ∃ n ys, queues l = n :: ys ∧ Expired s.heap now n
  · obtain ⟨n, ys, split, expired⟩ := due
    obtain ⟨s', run, readied, moved⟩ := eventTimerProcess_moves rep timed split expired
    have batch : firstExpired s.heap now (queues l) = [n] := by simp [firstExpired, split, expired]
    refine ⟨1, s', run, ?_, fun q => ?_⟩
    · rw [batch, handOver, split]
      exact .single (.expire timed split expired readied moved)
    · obtain ⟨⟨here, _⟩, own⟩ := (rep.listed l n).mp (by simp [split])
      rw [moved.hashed, rep.hashed, readied.touch.allocated]
      by_cases same : q = n
      · subst same
        simp [readied.type, own, l.type_ne_event]
      · simp only [same, or_false]
        exact and_congr_right fun there => by
          rw [payload_type (readied.touch.others q there.1 same)]
  · have early : ∀ n, (queues l).head? = some n → ¬ Expired s.heap now n := by
      intro n first expired
      cases split : queues l with
      | nil => simp [split] at first
      | cons m ys =>
          rw [split, List.head?_cons, Option.some.injEq] at first
          exact due ⟨m, ys, split, first ▸ expired⟩
    have batch : firstExpired s.heap now (queues l) = [] := by
      cases split : queues l with
      | nil => rfl
      | cons n ys => simp [firstExpired, early n (by simp [split])]
    refine ⟨0, s, eventTimerProcess_idle rep early, ?_, fun _ => Iff.rfl⟩
    rw [batch, handOver]
    simpa using Relation.ReflTransGen.refl

/-- The nodes of a report that are queued: all but the timer's own. -/
def reportedOf (s : Engine) (events : List EpollEvent) : List NodePtr :=
  (events.map EpollEvent.ptr).filter fun p => (s.heap p).fd ≠ s.master.eventTimer.timerfd

/-- What `epoll_wait` may report: nodes of the hash, each once. -/
def Reportable (s : Engine) (events : List EpollEvent) : Prop :=
  (events.map EpollEvent.ptr).Nodup ∧ ∀ event ∈ events, event.ptr ∈ s.master.event.datas

theorem queueReported_foldl {events : List EpollEvent} (rep : Rep s queues none)
    (distinct : ∀ p ∈ s.master.event.datas, ∀ q ∈ s.master.event.datas,
      (s.heap p).fd = (s.heap q).fd → p = q)
    (reportable : Reportable s events) :
    PassMoves (s, queues) (events.foldl queueReported s,
        Function.update queues .ready (queues .ready ++ reportedOf s events)) ∧
      Still s (events.foldl queueReported s) := by
  induction events generalizing s queues with
  | nil =>
      refine ⟨?_, .refl s⟩
      simpa [reportedOf] using Relation.ReflTransGen.refl
  | cons event events ih =>
      obtain ⟨nodup, stored⟩ := reportable
      obtain ⟨fresh, nodupRest⟩ := List.nodup_cons.mp nodup
      have own := stored event (by simp)
      have later := fun e (member : e ∈ events) => stored e (List.mem_cons_of_mem event member)
      by_cases timerfd : (s.heap event.ptr).fd = s.master.eventTimer.timerfd
      · rw [List.foldl_cons, queueReported_timerfd timerfd]
        have same : reportedOf s (event :: events) = reportedOf s events := by
          simp [reportedOf, timerfd]
        rw [same]
        exact ih rep distinct ⟨nodupRest, later⟩
      · obtain ⟨readied, moved⟩ := queueReported_spec rep own
          (fun m member => distinct m member event.ptr own) timerfd
        have move := PassMove.report own readied moved
        have kept : ∀ q, q ∈ (queueReported s event).master.event.datas ↔
            q ∈ s.master.event.datas ∧ q ≠ event.ptr := by
          intro q
          rw [moved.hashed, rep.hashed, move.allocated rep]
          by_cases same : q = event.ptr
          · subst same
            simp [readied.type]
          · have words := fun there : s.Allocated q => payload_type (readied.touch.others q there same)
            constructor
            · rintro ⟨there, typed⟩
              exact ⟨⟨there, (words there.1).symm.trans typed⟩, same⟩
            · rintro ⟨⟨there, typed⟩, _⟩
              exact ⟨there, (words there.1).trans typed⟩
        have fds : ∀ q, s.Allocated q → ((queueReported s event).heap q).fd = (s.heap q).fd :=
          fun q there => (move.words there).1
        have here := fun q (member : q ∈ s.master.event.datas) => ((rep.hashed q).mp member).1.1
        obtain ⟨moves, still⟩ := ih moved
          (fun p memberP q memberQ same => by
            obtain ⟨inP, _⟩ := (kept p).mp memberP
            obtain ⟨inQ, _⟩ := (kept q).mp memberQ
            rw [fds p (here p inP), fds q (here q inQ)] at same
            exact distinct p inP q inQ same)
          ⟨nodupRest, fun e member => (kept e.ptr).mpr ⟨later e member, fun same =>
            fresh (same ▸ List.mem_map_of_mem member)⟩⟩
        refine ⟨.head move ?_, readied.still.trans still⟩
        have rest : reportedOf (queueReported s event) events = reportedOf s events := by
          unfold reportedOf
          refine List.filter_congr fun q member => ?_
          obtain ⟨e, among, rfl⟩ := List.mem_map.mp member
          rw [fds _ (here _ (later e among)), readied.touch.timerfd]
        have both : reportedOf s (event :: events) = event.ptr :: reportedOf s events := by
          simp [reportedOf, timerfd]
        rw [rest, Function.update_self, Function.update_idem, List.append_assoc] at moves
        rwa [List.foldl_cons, both]

theorem firstExpired_congr {heap heap' : Chain.Heap EventNode} {now : Timespec}
    {ps : List NodePtr} (same : ∀ p ∈ ps, (heap' p).time = (heap p).time) :
    firstExpired heap' now ps = firstExpired heap now ps := by
  unfold firstExpired
  refine List.filter_congr fun p member => ?_
  exact decide_eq_decide.mpr (by rw [Expired, Expired, same p (List.mem_of_mem_take member)])

/-- The lists after the containers were polled for what is due. -/
def polled (s : Engine) (queues : Queues) (events : List EpollEvent) (now : Timespec) : Queues :=
  let queues := handOver queues .timer (firstExpired s.heap now (queues .timer))
  let queues := Function.update queues .ready (queues .ready ++ reportedOf s events)
  handOver queues .rear (firstExpired s.heap now (queues .rear))

theorem eventWaitingPoll_spec {events : List EpollEvent} (rep : Rep s queues none)
    (distinct : ∀ p ∈ s.master.event.datas, ∀ q ∈ s.master.event.datas,
      (s.heap p).fd = (s.heap q).fd → p = q)
    (reportable : Reportable s events) (now : Timespec) (settimeOk : Bool) :
    ∃ s', eventWaitingPoll s events now settimeOk = .ok s' ∧
      PassMoves (s, queues) (s', if events = [] then queues else polled s queues events now) ∧
      (settimeOk = true → s'.master.eventTimer.event = eventTimerGet s') := by
  have reset : ∀ {s₁ queues₁}, PassMoves (s, queues) (s₁, queues₁) →
      PassMoves (s, queues) (eventTimerReset s₁ settimeOk, queues₁) ∧
      (settimeOk = true → (eventTimerReset s₁ settimeOk).master.eventTimer.event =
        eventTimerGet (eventTimerReset s₁ settimeOk)) := by
    intro s₁ queues₁ moves
    have retimed := eventTimerReset_retimed s₁ settimeOk
    have rep₁ := PassMoves.rep moves rep
    refine ⟨moves.tail (.retime retimed (retimed.rep rep₁)), fun ok => ?_⟩
    subst ok
    rw [eventTimerReset_armed, rep₁.timerGet, (retimed.rep rep₁).timerGet, retimed.heap]
  cases events with
  | nil => exact ⟨_, rfl, reset .refl⟩
  | cons event events =>
      obtain ⟨k₁, s₁, run₁, moves₁, stored₁⟩ := eventTimerProcess_spec rep .timer now
      set q₁ := handOver queues .timer (firstExpired s.heap now (queues .timer)) with q₁_eq
      have rep₁ : Rep s₁ q₁ none := PassMoves.rep moves₁ rep
      have words₁ := fun q (there : s.Allocated q) => PassMoves.words moves₁ rep there
      dsimp only at words₁
      have here := fun q (member : q ∈ s.master.event.datas) => ((rep.hashed q).mp member).1.1
      have same : reportedOf s₁ (event :: events) = reportedOf s (event :: events) := by
        unfold reportedOf
        refine List.filter_congr fun q member => ?_
        obtain ⟨e, among, rfl⟩ := List.mem_map.mp member
        obtain ⟨fd, _, _, timerfd⟩ := words₁ e.ptr (here _ (reportable.2 e among))
        rw [fd, timerfd]
      obtain ⟨moves₂, _⟩ := queueReported_foldl rep₁
        (fun p memberP q memberQ equal => by
          have inP := (stored₁ p).mp memberP
          have inQ := (stored₁ q).mp memberQ
          rw [(words₁ p (here p inP)).1, (words₁ q (here q inQ)).1] at equal
          exact distinct p inP q inQ equal)
        ⟨reportable.1, fun e member => (stored₁ _).mpr (reportable.2 e member)⟩
      rw [same] at moves₂
      have moves₁₂ := moves₁.trans moves₂
      set s₂ := (event :: events).foldl queueReported s₁ with s₂_eq
      set q₂ := Function.update q₁ .ready (q₁ .ready ++ reportedOf s (event :: events)) with q₂_eq
      have rep₂ : Rep s₂ q₂ none := PassMoves.rep moves₁₂ rep
      obtain ⟨k₃, s₃, run₃, moves₃, _⟩ := eventTimerProcess_spec rep₂ .rear now
      have rears : q₂ .rear = queues .rear := by simp [q₂_eq, q₁_eq, handOver]
      have due : firstExpired s₂.heap now (q₂ .rear) = firstExpired s.heap now (q₂ .rear) := by
        rw [rears]
        exact firstExpired_congr fun p member =>
          (PassMoves.words moves₁₂ rep ((rep.listed .rear p).mp member).1.1).2.1
      rw [due] at moves₃
      obtain ⟨moves, armed⟩ := reset (moves₁₂.trans moves₃)
      refine ⟨_, ?_, ?_, armed⟩
      · have some : 0 < (event :: events).length := Nat.zero_lt_succ _
        simp only [eventWaitingPoll, if_pos some, run₁]
        dsimp only [bind, Except.bind]
        rw [← s₂_eq, run₃]
        rfl
      · rw [if_neg (List.cons_ne_nil _ _)]
        exact moves

theorem dispatch_spec (rep : Rep s queues none) (sound : Sound s) {ys : List NodePtr}
    (split : queues .ready = n :: ys) :
    ∃ s' queues', eventRun (eventListDelete s .ready n) n Engine.fetchPtr = .ok s' ∧
      Dispatch n (s, queues) (s', queues') := by
  obtain ⟨⟨here, _⟩, ready⟩ := (rep.listed .ready n).mp (by simp [split])
  have outside := eventListDelete_outside s .ready n
  have held := rep.delete (show queues .ready = [] ++ n :: ys from split)
  have touch := outside.touch here
  rw [List.nil_append] at held
  have words : ∀ t, ({ (eventListDelete s .ready n).heap n with type := t } : EventNode).payload =
      ({ s.heap n with type := t } : EventNode).payload := fun t =>
    congrArg (fun e : EventNode => ({ e with type := t } : EventNode)) (outside.payload n)
  by_cases origin : (s.heap n).addType = .event
  · have fresh : ∀ m ∈ (eventListDelete s .ready n).master.event.datas,
        ((eventListDelete s .ready n).heap m).fd ≠ ((eventListDelete s .ready n).heap n).fd := by
      intro m stored
      rw [outside.event] at stored
      rw [outside.payload.fd, outside.payload.fd]
      intro same
      have own := sound.distinct m n (sound.live_of_stored rep stored) ⟨here, origin, .inr ready⟩ same
      exact rep.hashed_unlisted stored .ready (by simp [own, split])
    obtain ⟨s', run, repRun, touchRun, stillRun, payload⟩ := eventRun_epoll held
      (by rw [outside.payload.addType]; exact origin) fresh
    exact ⟨s', _, run, .epoll split origin (touch.trans touchRun) (outside.still.trans stillRun)
      (payload.trans (words _)) repRun⟩
  · obtain ⟨s', run, repRun, touchRun, stillRun, payload⟩ := eventRun_timer held
      (by rw [outside.payload.addType]; exact origin)
    exact ⟨s', _, run, .timer split origin (touch.trans touchRun) (outside.still.trans stillRun)
      (payload.trans (words _)) repRun⟩

/-- The end of a turn: the first ready node is fetched, or there is none. -/
inductive Fetches : Waited → View → View → Prop
  | fetched {n : NodePtr} {view view' : View} : Dispatch n view view' →
      Fetches (.fetched n) view view'
  | idle {view : View} : view.2 .ready = [] → Fetches .waiting view view
  | null {view : View} : Fetches .null view view
  | retry {view : View} : Fetches .waiting view view

theorem runReady_spec (rep : Rep s queues none) (sound : Sound s) :
    ∃ w s' queues', runReady s Engine.fetchPtr = .ok (w, s') ∧
      Fetches w (s, queues) (s', queues') := by
  unfold runReady
  rw [eventListTrimHead_eq rep]
  cases split : queues .ready with
  | nil => exact ⟨.waiting, s, queues, rfl, .idle split⟩
  | cons n ys =>
      obtain ⟨s', queues', run, dispatch⟩ := dispatch_spec rep sound split
      refine ⟨.fetched n, s', queues', ?_, .fetched dispatch⟩
      simp only [List.head?_cons, Option.map_some, run]
      rfl

/-- A pass polls nothing and dispatches, or makes moves that end with the timer reset and
then dispatches. -/
theorem eventWaitingPass_spec (rep : Rep s queues none) (sound : Sound s) (wait : EpollWait)
    (reportable : queues .ready = [] → ∀ events now ok, wait = .reported events now ok →
      Reportable s events) :
    ∃ mid qmid w s' queues', eventWaitingPass s Engine.fetchPtr wait = .ok (w, s') ∧
      PassMoves (s, queues) (mid, qmid) ∧ Fetches w (mid, qmid) (s', queues') ∧
      ((mid = s ∧ qmid = queues) ∨ ∃ events now ok, wait = .reported events now ok ∧
        (ok = true → mid.master.eventTimer.event = eventTimerGet mid)) := by
  unfold eventWaitingPass
  rw [eventListTrimHead_eq rep]
  cases split : queues .ready with
  | cons n ys =>
      obtain ⟨s', queues', run, dispatch⟩ := dispatch_spec rep sound split
      refine ⟨s, queues, .fetched n, s', queues', ?_, .refl, .fetched dispatch, .inl ⟨rfl, rfl⟩⟩
      simp only [List.head?_cons, Option.map_some, run]
      rfl
  | nil =>
      have unique : ∀ p ∈ s.master.event.datas, ∀ q ∈ s.master.event.datas,
          (s.heap p).fd = (s.heap q).fd → p = q := fun p inP q inQ same =>
        sound.only rep inQ p inP same
      have poll : ∀ events now ok, wait = .reported events now ok → ∀ now',
          ∃ mid qmid w s' queues',
            (do runReady (← eventWaitingPoll s events now' ok) Engine.fetchPtr) = .ok (w, s') ∧
            PassMoves (s, queues) (mid, qmid) ∧ Fetches w (mid, qmid) (s', queues') ∧
            (ok = true → mid.master.eventTimer.event = eventTimerGet mid) := by
        intro events now ok same now'
        obtain ⟨mid, run, moves, armed⟩ := eventWaitingPoll_spec rep unique
          (reportable split events now ok same) now' ok
        obtain ⟨w, s', queues', ready, fetches⟩ :=
          runReady_spec (PassMoves.rep moves rep) (PassMoves.sound moves rep sound)
        exact ⟨mid, _, w, s', queues', by rw [run]; exact ready, moves, fetches, armed⟩
      cases wait with
      | error => exact ⟨s, queues, .waiting, s, queues, rfl, .refl, .retry, .inl ⟨rfl, rfl⟩⟩
      | reported events now ok =>
          cases events with
          | nil =>
              obtain ⟨mid, qmid, w, s', queues', run, moves, fetches, armed⟩ := poll _ _ _ rfl .zero
              exact ⟨mid, qmid, w, s', queues', run, moves, fetches, .inr ⟨_, _, _, rfl, armed⟩⟩
          | cons event events =>
              cases now with
              | none => exact ⟨s, queues, .null, s, queues, rfl, .refl, .null, .inl ⟨rfl, rfl⟩⟩
              | some now =>
                  obtain ⟨mid, qmid, w, s', queues', run, moves, fetches, armed⟩ :=
                    poll _ _ _ rfl now
                  exact ⟨mid, qmid, w, s', queues', run, moves, fetches, .inr ⟨_, _, _, rfl, armed⟩⟩

end Pass

end Poplar.EventCtl
