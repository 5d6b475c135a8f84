import Poplar.EventCtl.Partition

/-!
# Which nodes a turn of event_waiting_process queues
-/
namespace Poplar.EventCtl

/-- All that is due is queued, timers first, then reported nodes, then rear timers; both
timer lists keep what is not due. -/
structure QueuesDue (s : Engine) (events : List EpollEvent) (now : Timespec) (s' : Engine) :
    Prop where
  ready : s'.nodes .ready = (s.nodes .timer).filter (fun p => Expired s.heap now p) ++
    reportedOf s events ++ (s.nodes .rear).filter fun p => Expired s.heap now p
  timer : s'.nodes .timer = (s.nodes .timer).filter fun p => ¬ Expired s.heap now p
  rear : s'.nodes .rear = (s.nodes .rear).filter fun p => ¬ Expired s.heap now p

/-- No node behind the first of a timer list is due, and none at all if nothing was
reported. -/
def OnlyFirstsDue (s : Engine) (events : List EpollEvent) (now : Timespec) : Prop :=
  ∀ l : ListName, l.Timed →
    ∀ p ∈ if events = [] then s.nodes l else (s.nodes l).tail, ¬ Expired s.heap now p

section Lists

variable {heap : Chain.Heap EventNode} {now : Timespec} {ps : List NodePtr}

/-- Handing over the first node alone leaves what is not due only if no other is. -/
theorem drop_firstExpired :
    ps.drop (firstExpired heap now ps).length = ps.filter (fun p => ¬ Expired heap now p) ↔
      ∀ p ∈ ps.tail, ¬ Expired heap now p := by
  cases ps with
  | nil => simp [firstExpired]
  | cons p ps =>
      have all : ps = ps.filter (fun p => ¬ Expired heap now p) ↔
          ∀ p ∈ ps, ¬ Expired heap now p := by
        rw [eq_comm, List.filter_eq_self]
        simp
      by_cases due : Expired heap now p
      · simpa [firstExpired, due] using all
      · simpa [firstExpired, due] using all

theorem filter_expired (others : ∀ p ∈ ps.tail, ¬ Expired heap now p) :
    ps.filter (fun p => Expired heap now p) = firstExpired heap now ps := by
  cases ps with
  | nil => rfl
  | cons p ps =>
      have none : ps.filter (fun p => Expired heap now p) = [] := by
        rw [List.filter_eq_nil_iff]
        intro q member
        simpa using others q member
      by_cases due : Expired heap now p <;> simp [firstExpired, due, none]

end Lists

/-- The turn polls, and queues exactly what is due if and only if at most the first node of
each timer list is. -/
theorem pass_queues_due_iff {s : Engine} {queues : Queues} (rep : Rep s queues none)
    (distinct : ∀ p ∈ s.master.event.datas, ∀ q ∈ s.master.event.datas,
      (s.heap p).fd = (s.heap q).fd → p = q)
    (idle : s.nodes .ready = []) {events : List EpollEvent} (reportable : Reportable s events)
    (now : Timespec) (settimeOk : Bool) (fetch : NodePtr) :
    ∃ s', eventWaitingPoll s events now settimeOk = .ok s' ∧
      eventWaitingPass s fetch (.reported events (some now) settimeOk) = runReady s' fetch ∧
      (QueuesDue s events now s' ↔ OnlyFirstsDue s events now) := by
  obtain ⟨s', run, moves, _⟩ := eventWaitingPoll_spec rep distinct reportable now settimeOk
  have rep' := PassMoves.rep moves rep
  dsimp only at rep'
  have none : queues .ready = [] := rep.nodes_eq .ready ▸ idle
  have empty : eventListTrimHead s .ready = Option.none := by
    rw [eventListTrimHead_eq rep, none]
    rfl
  have nodes := rep.nodes_eq
  refine ⟨s', run, ?_, ?_⟩
  · unfold eventWaitingPass
    rw [empty]
    cases events with
    | nil =>
        have same : eventWaitingPoll s [] .zero settimeOk = .ok s' := run
        dsimp only
        rw [same]
        rfl
    | cons event events =>
        dsimp only
        rw [run]
        rfl
  · by_cases nothing : events = []
    · subst nothing
      have kept : ∀ l, s'.nodes l = queues l := fun l => by
        have := rep'.nodes_eq l
        simpa using this
      constructor
      · rintro ⟨_, timer, rear⟩ l timed p member
        rw [if_pos rfl] at member
        have own : s.nodes l = (s.nodes l).filter fun p => ¬ Expired s.heap now p := by
          cases timed
          · rw [← timer, kept, nodes]
          · rw [← rear, kept, nodes]
        rw [own] at member
        simpa using List.of_mem_filter member
      · intro due
        have notDue : ∀ l : ListName, l.Timed → ∀ p ∈ queues l, ¬ Expired s.heap now p :=
          fun l timed p member => due l timed p (by rwa [if_pos rfl, nodes])
        have filters : ∀ l : ListName, l.Timed →
            (queues l).filter (fun p => Expired s.heap now p) = [] ∧
              (queues l).filter (fun p => ¬ Expired s.heap now p) = queues l := by
          intro l timed
          constructor
          · rw [List.filter_eq_nil_iff]
            exact fun p member => by simpa using notDue l timed p member
          · rw [List.filter_eq_self]
            exact fun p member => by simpa using notDue l timed p member
        refine ⟨?_, ?_, ?_⟩
        · rw [kept, nodes, nodes, (filters .timer .timer).1, (filters .rear .rear).1, none]
          rfl
        · rw [kept, nodes, (filters .timer .timer).2]
        · rw [kept, nodes, (filters .rear .rear).2]
    · rw [if_neg nothing] at rep'
      have ready : s'.nodes .ready = firstExpired s.heap now (queues .timer) ++
          reportedOf s events ++ firstExpired s.heap now (queues .rear) := by
        rw [rep'.nodes_eq]
        simp [polled, handOver, none]
      have timer : s'.nodes .timer =
          (queues .timer).drop (firstExpired s.heap now (queues .timer)).length := by
        rw [rep'.nodes_eq]
        simp [polled, handOver]
      have rear : s'.nodes .rear =
          (queues .rear).drop (firstExpired s.heap now (queues .rear)).length := by
        rw [rep'.nodes_eq]
        simp [polled, handOver]
      constructor
      · rintro ⟨_, keepsTimer, keepsRear⟩ l timed p member
        rw [if_neg nothing, nodes] at member
        rw [timer, nodes] at keepsTimer
        rw [rear, nodes] at keepsRear
        cases timed
        · exact drop_firstExpired.mp keepsTimer p member
        · exact drop_firstExpired.mp keepsRear p member
      · intro due
        have others : ∀ l : ListName, l.Timed → ∀ p ∈ (queues l).tail, ¬ Expired s.heap now p :=
          fun l timed p member => due l timed p (by rwa [if_neg nothing, nodes])
        refine ⟨?_, ?_, ?_⟩
        · rw [ready, nodes, nodes, filter_expired (others .timer .timer),
            filter_expired (others .rear .rear)]
        · rw [timer, nodes]
          exact drop_firstExpired.mpr (others .timer .timer)
        · rw [rear, nodes]
          exact drop_firstExpired.mpr (others .rear .rear)

instance (s : Engine) (events : List EpollEvent) (now : Timespec) :
    Decidable (OnlyFirstsDue s events now) :=
  decidable_of_iff
    ((∀ p ∈ if events = [] then s.nodes .timer else (s.nodes .timer).tail, ¬ Expired s.heap now p) ∧
      ∀ p ∈ if events = [] then s.nodes .rear else (s.nodes .rear).tail, ¬ Expired s.heap now p)
    ⟨fun both l timed => by cases timed; exacts [both.1, both.2],
      fun every => ⟨every .timer .timer, every .rear .rear⟩⟩

/-- One of two timers is due, a rear timer is due, and a descriptor is reported. -/
theorem pass_queues_due_sample : ∃ r, replayRuns
      [.timerAdd .timer (some ⟨1, 0⟩) 2 0 3 true, .timerAdd .timer (some ⟨1, 0⟩) 2 0 30 true,
        .timerAdd .rear (some ⟨1, 0⟩) 2 0 3 true, .epollAdd 1 0 1 5] 4 1 = some r ∧
    ∃ s', eventWaitingPoll r.engine [⟨1, 1⟩, ⟨1, 5⟩] ⟨9, 0⟩ true = .ok s' ∧
      QueuesDue r.engine [⟨1, 1⟩, ⟨1, 5⟩] ⟨9, 0⟩ s' := by
  have finishes : ((replayRuns
      [.timerAdd .timer (some ⟨1, 0⟩) 2 0 3 true, .timerAdd .timer (some ⟨1, 0⟩) 2 0 30 true,
        .timerAdd .rear (some ⟨1, 0⟩) 2 0 3 true, .epollAdd 1 0 1 5] 4 1).map fun r =>
      (decide (r.engine.nodes .ready = []), decide (Reportable r.engine [⟨1, 1⟩, ⟨1, 5⟩]),
        decide (OnlyFirstsDue r.engine [⟨1, 1⟩, ⟨1, 5⟩] ⟨9, 0⟩))) = some (true, true, true) := by
    decide +kernel
  obtain ⟨r, replayed, facts⟩ := Option.map_eq_some_iff.mp finishes
  simp only [Prod.mk.injEq, decide_eq_true_eq] at facts
  obtain ⟨idle, reportable, due⟩ := facts
  have guards : ∀ (r : Run) (op : Op), decide (r.Admits op) = true → runs.guard r op :=
    fun r op admitted => (decide_eq_true_iff (p := r.Admits op)).mp admitted
  obtain ⟨queues, coherent⟩ := coherent_of_reachable (.replay guards (.start ⟨4, 1, rfl⟩) replayed)
  obtain ⟨s', run, _, exact_when⟩ := pass_queues_due_iff coherent.rep
    (fun p inP q inQ same => coherent.sound.only coherent.rep inQ p inP same) idle reportable
    ⟨9, 0⟩ true Engine.fetchPtr
  exact ⟨r, replayed, s', run, exact_when.mpr due⟩

/-- Two timers are due and one is queued. -/
theorem second_due_timer_waits : ∃ r, replayRuns
      [.timerAdd .timer (some ⟨1, 0⟩) 2 0 3 true, .timerAdd .timer (some ⟨1, 0⟩) 2 0 4 true] 4 1 =
        some r ∧ r.engine.nodes .ready = [] ∧ Reportable r.engine [⟨1, 1⟩] ∧
    ∃ s', eventWaitingPoll r.engine [⟨1, 1⟩] ⟨9, 0⟩ true = .ok s' ∧
      s'.nodes .ready = [2] ∧ s'.nodes .timer = [3] ∧
        ¬ QueuesDue r.engine [⟨1, 1⟩] ⟨9, 0⟩ s' := by
  have finishes : ((replayRuns
      [.timerAdd .timer (some ⟨1, 0⟩) 2 0 3 true, .timerAdd .timer (some ⟨1, 0⟩) 2 0 4 true] 4 1).map
      fun r => (decide (r.engine.nodes .ready = []), decide (Reportable r.engine [⟨1, 1⟩]),
        decide ((r.engine.nodes .timer).filter (fun p => ¬ Expired r.engine.heap ⟨9, 0⟩ p) = []),
        (eventWaitingPoll r.engine [⟨1, 1⟩] ⟨9, 0⟩ true).toOption.map fun s' =>
          decide (s'.nodes .ready = [2] ∧ s'.nodes .timer = [3]))) =
      some (true, true, true, some true) := by
    decide +kernel
  obtain ⟨r, replayed, facts⟩ := Option.map_eq_some_iff.mp finishes
  simp only [Prod.mk.injEq, decide_eq_true_eq] at facts
  obtain ⟨idle, reportable, left, result⟩ := facts
  cases run : eventWaitingPoll r.engine [⟨1, 1⟩] ⟨9, 0⟩ true with
  | error fault => simp [run, Except.toOption] at result
  | ok s' =>
      simp only [run, Except.toOption, Option.map_some, Option.some.injEq,
        decide_eq_true_eq] at result
      refine ⟨r, replayed, idle, reportable, s', run, result.1, result.2, fun queued => ?_⟩
      have timer := queued.timer
      rw [result.2, left] at timer
      cases timer

end Poplar.EventCtl
