import Poplar.EventCtl.Armed
import Poplar.EventCtl.Delays
import Poplar.Lib.Service

/-!
# How long a due timer waits

A turn takes one node at most from each timer list, so a timer that is due waits for as many
turns as there are timers in front of it, and for no more: those added later go behind it.
-/
namespace Poplar.EventCtl

/-! ## The expiry of a new node -/

section Added

variable {s : Engine} {queues : Queues} {l : ListName}

theorem eventTimerAddItimerspec_time (rep : Rep s queues none) (timed : l.Timed) (func arg : Nat)
    (ts : Itimerspec) (settimeOk : Bool) {n : NodePtr} {s' : Engine}
    (adds : eventTimerAddItimerspec s func l.type arg ts settimeOk = .ok (n, s')) :
    (s'.heap n).time.itValue = ts.itValue := by
  obtain ⟨m, s₁, queues₁, got, taken, type, -⟩ := eventNodeGet_spec rep l.type func arg
  have choose : (if l.type = .timer then ListName.timer else ListName.rear) = l := by
    cases timed <;> rfl
  have allowed : l.type = .timer ∨ l.type = .rear := by
    cases timed
    · exact .inl rfl
    · exact .inr rfl
  have held : Rep (s₁.modify m fun e => { e with time := ⟨⟨0, 0⟩, ts.itValue⟩ }) queues₁ (some m) :=
    taken.rep.modify _ (fun _ => ⟨rfl, rfl⟩) (.inl rfl)
  obtain ⟨mid, added, outside, -⟩ := eventListAddDue_spec held (l := l) (by simp [type])
  simp only [eventTimerAddItimerspec, if_pos allowed, choose, got, added] at adds
  cases adds
  have heap := (armFor_retimed mid n settimeOk).heap
  rw [heap, outside.payload.time]
  simp

end Added

/-! ## A turn and the timer lists -/

/-- What the end of a turn leaves of the lists: a timer on the ready list stays there or is
handed to its caller. -/
theorem Fetches.lines {w : Waited} {view view' : View} (fetches : Fetches w view view')
    (rep : Rep view.1 view.2 none) :
    (∀ l : ListName, l.Timed → view'.2 l = view.2 l ∧
      ∀ q ∈ view.2 l, (view'.1.heap q).time = (view.1.heap q).time) ∧
    ∀ n ∈ view.2 .ready, (view.1.heap n).addType ≠ .event →
      n ∈ view'.2 .ready ∨ n ∈ view'.2 .unuse := by
  cases fetches with
  | idle _ => exact ⟨fun _ _ => ⟨rfl, fun _ _ => rfl⟩, fun _ member _ => .inl member⟩
  | null => exact ⟨fun _ _ => ⟨rfl, fun _ _ => rfl⟩, fun _ member _ => .inl member⟩
  | retry => exact ⟨fun _ _ => ⟨rfl, fun _ _ => rfl⟩, fun _ member _ => .inl member⟩
  | fetched dispatch =>
    refine ⟨(dispatch.timed rep).2, ?_⟩
    intro n member timer
    cases dispatch with
    | timer split _ _ _ _ _ =>
      dsimp only at member ⊢
      rw [split] at member
      rcases List.mem_cons.mp member with own | later
      · right
        rw [own, Function.update_self]
        exact List.mem_append_right _ List.mem_cons_self
      · left
        rw [Function.update_of_ne (by decide), Function.update_self]
        exact later
    | epoll split origin _ _ _ _ =>
      dsimp only at member timer ⊢
      rw [split] at member
      rcases List.mem_cons.mp member with own | later
      · exact absurd (own ▸ origin) timer
      · left
        rw [Function.update_self]
        exact later

section Polled

variable {s : Engine} {queues : Queues} {events : List EpollEvent} {now : Timespec}

theorem polled_timed {l : ListName} (timed : l.Timed) : polled s queues events now l =
    (queues l).drop (firstExpired s.heap now (queues l)).length := by
  cases timed <;> simp [polled, handOver]

theorem polled_ready : polled s queues events now .ready =
    queues .ready ++ firstExpired s.heap now (queues .timer) ++ reportedOf s events ++
      firstExpired s.heap now (queues .rear) := by
  simp [polled, handOver]

theorem firstExpired_ready {l : ListName} (timed : l.Timed) {n : NodePtr}
    (member : n ∈ firstExpired s.heap now (queues l)) : n ∈ polled s queues events now .ready := by
  rw [polled_ready]
  cases timed with
  | timer => exact List.mem_append_left _ (List.mem_append_left _ (List.mem_append_right _ member))
  | rear => exact List.mem_append_right _ member

end Polled

/-- What a turn does to the timer lists. -/
inductive Lines (s : Engine) (queues : Queues) (wait : EpollWait) (queues' : Queues) : Prop
  | polls (event : EpollEvent) (events : List EpollEvent) (now : Timespec) (ok : Bool) :
      wait = .reported (event :: events) (some now) ok → queues .ready = [] →
      (∀ l : ListName, l.Timed →
        queues' l = (queues l).drop (firstExpired s.heap now (queues l)).length) →
      (∀ l : ListName, l.Timed → ∀ n ∈ firstExpired s.heap now (queues l),
        n ∈ queues' .ready ∨ n ∈ queues' .unuse) → Lines s queues wait queues'
  | keeps : (queues .ready = [] → ∀ event events now ok,
        wait ≠ .reported (event :: events) (some now) ok) →
      (∀ l : ListName, l.Timed → queues' l = queues l) → Lines s queues wait queues'

section Turn

variable {s : Engine} {queues : Queues}

theorem Dispatch.lines {n : NodePtr} {view' : View} (dispatch : Dispatch n (s, queues) view')
    (rep : Rep s queues none) :
    Rep view'.1 view'.2 none ∧ ∀ l : ListName, l.Timed → view'.2 l = queues l ∧
      ∀ q ∈ queues l, (view'.1.heap q).time = (s.heap q).time :=
  ⟨dispatch.rep, (dispatch.timed rep).2⟩

/-- Polling and what is fetched after it. -/
theorem poll_lines (rep : Rep s queues none) (sound : Sound s) {events : List EpollEvent}
    (reportable : Reportable s events) (now : Timespec) (ok : Bool) :
    ∃ w s' queues',
      (do runReady (← eventWaitingPoll s events now ok) Engine.fetchPtr) = .ok (w, s') ∧
      Rep s' queues' none ∧
      (∀ l : ListName, l.Timed →
        queues' l = (if events = [] then queues else polled s queues events now) l ∧
        ∀ q ∈ queues' l, (s'.heap q).time = (s.heap q).time) ∧
      ∀ n ∈ (if events = [] then queues else polled s queues events now) .ready,
        (s.heap n).addType ≠ .event → n ∈ queues' .ready ∨ n ∈ queues' .unuse := by
  have distinct : ∀ p ∈ s.master.event.datas, ∀ q ∈ s.master.event.datas,
      (s.heap p).fd = (s.heap q).fd → p = q := fun p inP q inQ same => sound.only rep inQ p inP same
  obtain ⟨mid, polls, moves, -⟩ := eventWaitingPoll_spec rep distinct reportable now ok
  generalize (if events = [] then queues else polled s queues events now) = qmid at moves ⊢
  have repMid : Rep mid qmid none := PassMoves.rep moves rep
  have words := fun q (here : s.Allocated q) => PassMoves.words moves rep here
  have allocated : ∀ q, mid.Allocated q ↔ s.Allocated q := PassMoves.allocated moves rep
  obtain ⟨w, s', queues', runs, fetches⟩ := runReady_spec repMid (PassMoves.sound moves rep sound)
  obtain ⟨timed, ready⟩ := fetches.lines repMid
  refine ⟨w, s', queues', by rw [polls]; exact runs, ?_, ?_, ?_⟩
  · cases fetches with
    | fetched dispatch => exact dispatch.rep
    | idle _ => exact repMid
    | null => exact repMid
    | retry => exact repMid
  · intro l timedL
    obtain ⟨same, times⟩ := timed l timedL
    dsimp only at same times
    refine ⟨same, ?_⟩
    intro q member
    rw [same] at member
    have here := (allocated q).mp ((repMid.listed l q).mp member).1.1
    rw [times q member, (words q here).2.1]
  · intro n member timer
    have here := (allocated n).mp ((repMid.listed .ready n).mp member).1.1
    apply ready n member
    rw [(words n here).2.2.1]
    exact timer

theorem eventWaitingPass_lines (rep : Rep s queues none) (sound : Sound s) (wait : EpollWait)
    (reportable : queues .ready = [] → ∀ events now ok, wait = .reported events now ok →
      Reportable s events) :
    ∃ w s' queues', eventWaitingPass s Engine.fetchPtr wait = .ok (w, s') ∧
      Rep s' queues' none ∧ Lines s queues wait queues' ∧
      ∀ l : ListName, l.Timed → ∀ q ∈ queues' l, (s'.heap q).time = (s.heap q).time := by
  unfold eventWaitingPass
  rw [eventListTrimHead_eq rep]
  cases split : queues .ready with
  | cons n ys =>
    obtain ⟨s', queues', run, dispatch⟩ := dispatch_spec rep sound split
    obtain ⟨rep', timed⟩ := dispatch.lines rep
    refine ⟨.fetched n, s', queues', ?_, rep', ?_, ?_⟩
    · simp only [List.head?_cons, Option.map_some, run]
      rfl
    · apply Lines.keeps
      · intro idle
        rw [split] at idle
        cases idle
      · exact fun l timedL => (timed l timedL).1
    · intro l timedL q member
      obtain ⟨same, times⟩ := timed l timedL
      exact times q (same ▸ member)
  | nil =>
    have unchanged : (∀ event events now ok, wait ≠ .reported (event :: events) (some now) ok) →
        Lines s queues wait queues := fun apart => .keeps (fun _ => apart) fun _ _ => rfl
    cases wait with
    | error =>
      exact ⟨.waiting, s, queues, rfl, rep, unchanged (by simp), fun _ _ _ _ => rfl⟩
    | reported events now ok =>
      have fair := reportable split events now ok rfl
      cases events with
      | nil =>
        obtain ⟨w, s', queues', run, rep', timed, -⟩ := poll_lines rep sound fair .zero ok
        refine ⟨w, s', queues', run, rep', ?_, fun l timedL => (timed l timedL).2⟩
        exact .keeps (fun _ => by simp) fun l timedL => (timed l timedL).1
      | cons event events =>
        cases now with
        | none =>
          exact ⟨.null, s, queues, rfl, rep, unchanged (by simp), fun _ _ _ _ => rfl⟩
        | some now =>
          obtain ⟨w, s', queues', run, rep', timed, ready⟩ := poll_lines rep sound fair now ok
          rw [if_neg (List.cons_ne_nil _ _)] at timed ready
          refine ⟨w, s', queues', run, rep', ?_, fun l timedL => (timed l timedL).2⟩
          apply Lines.polls event events now ok rfl split
          · intro l timedL
            rw [(timed l timedL).1, polled_timed timedL]
          · intro l timedL n member
            apply ready n (firstExpired_ready timedL member)
            have listed : n ∈ queues l :=
              List.mem_of_mem_take (List.mem_of_mem_filter member)
            obtain ⟨⟨here, -⟩, type⟩ := (rep.listed l n).mp listed
            apply sound.timers n here
            rw [type]
            cases timedL
            · exact .inl rfl
            · exact .inr rfl

end Turn

/-! ## The place of a timer -/

/-- The turn polls, and the node is due at the clock it reads. -/
def Serves (n : NodePtr) (r : Run) : Op → Prop
  | .wait (.reported (_ :: _) (some now) _) =>
    r.engine.nodes .ready = [] ∧ Expired r.engine.heap now n
  | _ => False

instance (n : NodePtr) (r : Run) (op : Op) : Decidable (Serves n r op) :=
  match op with
  | .wait (.reported (_ :: _) (some now) _) =>
    inferInstanceAs (Decidable (r.engine.nodes .ready = [] ∧ Expired r.engine.heap now n))
  | .wait (.reported (_ :: _) none _) | .wait (.reported [] _ _) | .wait .error | .timerAdd .. |
    .epollAdd .. | .epollMod .. | .cancel .. | .close _ => .isFalse id

/-- The node is not cancelled, and what is added is due no earlier. -/
def Quiet (n : NodePtr) (r : Run) : Op → Prop
  | .timerAdd adder (some now) _ _ time _ =>
    ¬ timespecCmp (adder.expiry now time) (r.engine.heap n).time.itValue < 0
  | .cancel event _ => event ≠ n
  | _ => True

instance (n : NodePtr) (r : Run) (op : Op) : Decidable (Quiet n r op) :=
  match op with
  | .timerAdd adder (some now) _ _ time _ =>
    inferInstanceAs (Decidable
      (¬ timespecCmp (adder.expiry now time) (r.engine.heap n).time.itValue < 0))
  | .cancel event _ => inferInstanceAs (Decidable (event ≠ n))
  | .timerAdd _ none _ _ _ _ | .epollAdd .. | .epollMod .. | .close _ | .wait _ => .isTrue trivial

/-- It waits in its list, one place forward if the command serves it, or has left. -/
def Placed (n : NodePtr) (l : ListName) (r : Run) (op : Op) (queues queues' : Queues) : Prop :=
  (n ∈ queues' l ∧ (queues' l).idxOf n + (if Serves n r op then 1 else 0) ≤ (queues l).idxOf n) ∨
    n ∈ queues' .ready ∨ n ∈ queues' .unuse

section Places

variable {r : Run} {queues queues' : Queues} {l : ListName} {n : NodePtr} {op : Op}

theorem Placed.same (idle : ¬ Serves n r op) (member : n ∈ queues l) (same : queues' l = queues l) :
    Placed n l r op queues queues' := by
  left
  rw [if_neg idle, same]
  exact ⟨member, Nat.le_refl _⟩

/-- The timers up to one that is due are due. -/
theorem Expired.earlier {heap : Chain.Heap EventNode} {now : Timespec} {p q : NodePtr}
    (due : Expired heap now q) (first : NoLater heap p q) : Expired heap now p := by
  unfold Expired NoLater at *
  rw [timespecCmp_nonpos] at first
  rw [timespecCmp_neg] at *
  omega

theorem placed_polls (rep : Rep r.engine queues none) (sorted : (queues l).Pairwise
      (Before r.engine.heap r.stamp)) (member : n ∈ queues l) {event : EpollEvent}
    {events : List EpollEvent} {now : Timespec} {ok : Bool}
    (dropped : queues' l =
      (queues l).drop (firstExpired r.engine.heap now (queues l)).length)
    (handed : ∀ m ∈ firstExpired r.engine.heap now (queues l),
      m ∈ queues' .ready ∨ m ∈ queues' .unuse) :
    Placed n l r (.wait (.reported (event :: events) (some now) ok)) queues queues' := by
  have nodup := (rep.chain l).nodup
  cases split : queues l with
  | nil =>
    rw [split] at member
    cases member
  | cons b ys =>
    by_cases due : Expired r.engine.heap now b
    · have batch : firstExpired r.engine.heap now (queues l) = [b] := by
        simp [firstExpired, split, due]
      by_cases own : n = b
      · right
        apply handed
        rw [batch, own]
        exact List.mem_cons_self
      · have behind : n ∈ (queues l).tail := by
          rw [split] at member ⊢
          exact (List.mem_cons.mp member).resolve_left own
        have forward := Line.place_tail nodup behind
        rw [batch, List.length_singleton, List.drop_one] at dropped
        left
        rw [dropped]
        refine ⟨behind, ?_⟩
        split <;> omega
    · have batch : firstExpired r.engine.heap now (queues l) = [] := by
        simp [firstExpired, split, due]
      rw [batch, List.length_nil, List.drop_zero] at dropped
      apply Placed.same _ member dropped
      rintro ⟨-, dueN⟩
      apply due
      by_cases own : n = b
      · exact own ▸ dueN
      · rw [split] at sorted member
        have later := (List.mem_cons.mp member).resolve_left own
        exact dueN.earlier (List.rel_of_pairwise_cons sorted later).noLater

/-- A timer that is due no earlier goes behind. -/
theorem placed_added (rep : Rep r.engine queues none)
    (sorted : (queues l).Pairwise (Before r.engine.heap r.stamp)) (timed : l.Timed)
    (member : n ∈ queues l) {adder : Adder} {now : Timespec} {func arg : Nat} {time : Int}
    {ok : Bool}
    {m : NodePtr} {mid : Engine}
    (value : (mid.heap m).time.itValue = adder.expiry now time)
    (quiet : Quiet n r (.timerAdd adder (some now) func arg time ok))
    (added : TimerAdded r.engine queues adder.list m mid queues') :
    Placed n l r (.timerAdd adder (some now) func arg time ok) queues queues' := by
  by_cases here : l = adder.list
  · subst here
    have behind : ∀ b ∈ (queues adder.list).take ((queues adder.list).idxOf n + 1),
        ¬ Sooner mid.heap m b := by
      intro b early
      have listed := List.mem_of_mem_take early
      have before : NoLater r.engine.heap b n := by
        rcases Line.upto_sorted sorted member b early with own | first
        · exact own ▸ .refl _ _
        · exact first.noLater
      have noEarlier : ¬ timespecCmp (adder.expiry now time) (r.engine.heap n).time.itValue < 0 :=
        quiet
      unfold Sooner
      rw [value, (added.times rep timed listed).1]
      unfold NoLater at before
      rw [timespecCmp_nonpos, timespecCmp_neg] at before
      rw [timespecCmp_neg] at noEarlier ⊢
      omega
    have idle : ¬ Serves n r (.timerAdd adder (some now) func arg time ok) := id
    left
    rw [added.queue, if_neg idle, Line.place_orderedInsert member behind]
    exact ⟨(List.mem_orderedInsert _).mpr (.inr member), Nat.le_refl _⟩
  · exact Placed.same id member (added.others l here timed.ne_unuse)

theorem exec_placed {r' : Run} (onTime : OnTime r queues) (admits : r.Admits op)
    (executes : r.exec op = .ok r') (timed : l.Timed) (member : n ∈ queues l)
    (quiet : Quiet n r op) :
    ∃ queues', Rep r'.engine queues' none ∧ Placed n l r op queues queues' := by
  obtain ⟨permits, reportable⟩ := admits
  obtain ⟨coherent, order, -⟩ := onTime
  have rep := coherent.rep
  have sound := coherent.sound
  have sorted := order.sorted l timed
  cases op with
  | timerAdd adder now func arg time ok =>
    cases now with
    | none =>
      obtain ⟨sec, nsec, same⟩ := adder.run_eq r.engine none func arg time ok
      simp only [Run.exec, same, eventAddAt] at executes
      cases executes
      exact ⟨queues, rep, Placed.same id member rfl⟩
    | some now =>
      obtain ⟨m, mid, queues', run, added⟩ := eventTimerAddItimerspec_spec rep adder.timed func arg
        ⟨⟨0, 0⟩, adder.expiry now time⟩ ok
      have value := eventTimerAddItimerspec_time rep adder.timed func arg _ ok run
      rw [(armFor_retimed mid m ok).heap] at value
      simp only [Run.exec, adder.passes_expiry now time r.engine func arg ok, run] at executes
      cases executes
      exact ⟨queues', (armFor_retimed mid m ok).rep added.rep,
        placed_added rep sorted timed member value quiet added⟩
  | epollAdd func arg epEvents fd =>
    obtain ⟨m, s', queues', run, added⟩ := sound.epollAdd rep func arg epEvents permits
    simp only [Run.exec, run] at executes
    cases executes
    exact ⟨queues', added.rep, Placed.same id member (added.others l timed.ne_unuse)⟩
  | epollMod func arg epEvents fd =>
    obtain ⟨result, s', run, repMod, -⟩ := eventEpollMod_spec rep func arg epEvents fd
    simp only [Run.exec, run] at executes
    cases executes
    exact ⟨queues, repMod, Placed.same id member rfl⟩
  | cancel event ok =>
    obtain ⟨s', queues', run, cancelled⟩ := eventCancel_spec rep (coherent.owned event permits)
      (fun m other same stored => sound.only rep stored m other same) ok
    simp only [Run.exec, run] at executes
    cases executes
    refine ⟨queues', cancelled.rep, .inl ?_⟩
    have nodup := (rep.chain l).nodup
    have stays : n ∈ (queues l).erase event := (nodup.mem_erase_iff).mpr ⟨Ne.symm quiet, member⟩
    have idle : ¬ Serves n r (.cancel event ok) := id
    rw [cancelled.others l timed.ne_unuse, if_neg idle]
    exact ⟨stays, Line.place_sublist List.erase_sublist nodup stays⟩
  | close fd =>
    cases executes
    exact ⟨queues, rep.congr rfl rfl rfl rfl (fun _ _ => ⟨rfl, rfl⟩) fun _ _ _ => ⟨rfl, rfl⟩,
      Placed.same id member rfl⟩
  | wait answer =>
    obtain ⟨w, s', queues', run, rep', lines, -⟩ := eventWaitingPass_lines rep sound answer
      fun idle events now ok same => by
        subst same
        exact reportable (by rw [(rep.chain .ready).head, idle]; rfl)
    simp only [Run.exec, run] at executes
    cases executes
    have same : (r.waited (w, s')).engine = s' := by
      cases w with
      | fetched m =>
        rw [Run.waited]
        split <;> rfl
      | null => rfl
      | waiting => rfl
    refine ⟨queues', by rw [same]; exact rep', ?_⟩
    cases lines with
    | polls event events now ok asked idle dropped handed =>
      subst asked
      exact placed_polls rep sorted member (dropped l timed) (handed l timed)
    | keeps quietly kept =>
      apply Placed.same _ member (kept l timed)
      intro serves
      unfold Serves at serves
      split at serves
      · next event events now ok asked =>
        cases asked
        rw [rep.nodes_eq] at serves
        exact quietly serves.1 event events now ok rfl
      · exact serves

end Places

/-- In a run that does not cancel it and adds nothing due before it, a timer is queued or with
its caller once it was served more often than there are timers in front of it. -/
theorem due_timer_served {r : Run} (reachable : timedRuns.Reachable r) {l : ListName}
    (timed : l.Timed) {n : NodePtr} (member : n ∈ r.engine.nodes l) {ops : List Op}
    (quiet : timedRuns.Obeys (Quiet n) ops r)
    (often : (r.engine.nodes l).idxOf n < timedRuns.tally (Serves n) ops r) :
    timedRuns.Meets (fun r => n ∈ r.engine.nodes .ready ∨ n ∈ r.engine.nodes .unuse) ops r := by
  apply Runs.System.meets_of_measure
    (I := fun r => (∃ queues, OnTime r queues) ∧ n ∈ r.engine.nodes l)
    (fun r => (r.engine.nodes l).idxOf n) _ _ ⟨onTime_of_reachable reachable, member⟩ quiet often
  · rintro r op ⟨⟨queues, onTime⟩, -⟩ ⟨admits, -⟩
    obtain ⟨r', -, ran, -⟩ := exec_coherent onTime.coherent admits
    exact ⟨r', ran⟩
  · rintro r op r' ⟨⟨queues, onTime⟩, waits⟩ ⟨admits, ok⟩ quiet ran
    rw [onTime.coherent.rep.nodes_eq] at waits
    obtain ⟨queues', rep', placed⟩ := exec_placed onTime admits ran timed waits quiet
    rcases placed with ⟨stays, forward⟩ | left
    · right
      refine ⟨⟨exec_onTime onTime admits ok ran, ?_⟩, ?_⟩
      · rw [rep'.nodes_eq]
        exact stays
      · rw [rep'.nodes_eq, onTime.coherent.rep.nodes_eq]
        exact forward
    · left
      rw [rep'.nodes_eq, rep'.nodes_eq]
      exact left

/-- Two timers are due, a third is added between two turns, and both turns are needed. -/
theorem due_timer_served_sample : ∃ r, timedRuns.replay
      (fun r op => decide (r.Admits op) && op.settimeOk) id
      [.timerAdd .timer (some ⟨1, 0⟩) 2 0 3 true, .timerAdd .timer (some ⟨1, 0⟩) 2 0 4 true]
      (Run.initial 4 1) = some r ∧ (r.engine.nodes .timer).idxOf 3 = 1 ∧
    timedRuns.Meets (fun r => 3 ∈ r.engine.nodes .ready ∨ 3 ∈ r.engine.nodes .unuse)
      [.wait (.reported [⟨1, 1⟩] (some ⟨9, 0⟩) true),
        .timerAdd .timer (some ⟨9, 0⟩) 2 0 0 true,
        .wait (.reported [⟨1, 1⟩] (some ⟨9, 0⟩) true)] r := by
  have finishes : ((timedRuns.replay (fun r op => decide (r.Admits op) && op.settimeOk) id
      [.timerAdd .timer (some ⟨1, 0⟩) 2 0 3 true, .timerAdd .timer (some ⟨1, 0⟩) 2 0 4 true]
      (Run.initial 4 1)).map fun r =>
      (decide (3 ∈ r.engine.nodes .timer), decide ((r.engine.nodes .timer).idxOf 3 = 1),
        (timedRuns.replay
          (fun r op => decide (r.Admits op) && op.settimeOk && decide (Quiet 3 r op)) id
          [.wait (.reported [⟨1, 1⟩] (some ⟨9, 0⟩) true), .timerAdd .timer (some ⟨9, 0⟩) 2 0 0 true,
            .wait (.reported [⟨1, 1⟩] (some ⟨9, 0⟩) true)] r).isSome,
        decide (1 < timedRuns.tally (Serves 3)
          [.wait (.reported [⟨1, 1⟩] (some ⟨9, 0⟩) true), .timerAdd .timer (some ⟨9, 0⟩) 2 0 0 true,
            .wait (.reported [⟨1, 1⟩] (some ⟨9, 0⟩) true)] r))) =
      some (true, true, true, true) := by
    decide +kernel
  obtain ⟨r, replayed, facts⟩ := Option.map_eq_some_iff.mp finishes
  simp only [Prod.mk.injEq, decide_eq_true_eq] at facts
  obtain ⟨member, place, whole, often⟩ := facts
  obtain ⟨r', later⟩ := Option.isSome_iff_exists.mp whole
  have guards : ∀ (r : Run) (op : Op), (decide (r.Admits op) && op.settimeOk) = true →
      timedRuns.guard r op := by
    intro r op admitted
    obtain ⟨admits, ok⟩ := Bool.and_eq_true_iff.mp admitted
    exact ⟨of_decide_eq_true admits, ok⟩
  have obeys : timedRuns.Obeys (Quiet 3) [.wait (.reported [⟨1, 1⟩] (some ⟨9, 0⟩) true),
      .timerAdd .timer (some ⟨9, 0⟩) 2 0 0 true,
      .wait (.reported [⟨1, 1⟩] (some ⟨9, 0⟩) true)] r := by
    refine .of_replay (fun r op admitted => ?_) later
    obtain ⟨admits, quiet⟩ := Bool.and_eq_true_iff.mp admitted
    exact ⟨guards r op admits, of_decide_eq_true quiet⟩
  refine ⟨r, replayed, place, ?_⟩
  apply due_timer_served (.replay guards (.start ⟨4, 1, rfl⟩) replayed) .timer member obeys
  rw [place]
  exact often

end Poplar.EventCtl
