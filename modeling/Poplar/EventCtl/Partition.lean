import Poplar.EventCtl.Passes
import Poplar.Lib.Runs

/-!
# Runs of the engine, and the partition of its nodes

The commands are the calls of the engine's users, the closing of a descriptor and
single turns of `event_waiting_process`. The bookkeeping of handles, and of the
order timers were added in, belongs to the users; the engine has no such words.
-/
namespace Poplar.EventCtl

/-- The four functions that add a timer. -/
inductive Adder where
  | timer | timerMsec | rear | rearMsec
  deriving DecidableEq, Repr

def Adder.run : Adder → Engine → Option Timespec → Nat → Nat → Int → Bool →
    Except Fault (Option NodePtr × Engine)
  | .timer => eventTimerAdd
  | .timerMsec => eventTimerAddMsec
  | .rear => eventRearAdd
  | .rearMsec => eventRearAddMsec

def Adder.list : Adder → ListName
  | .timer | .timerMsec => .timer
  | .rear | .rearMsec => .rear

/-- `epoll_ctl` does what it is asked wherever the registrations allow it. -/
inductive Op where
  | timerAdd (adder : Adder) (now : Option Timespec) (func arg : Nat) (time : Int)
      (settimeOk : Bool)
  | epollAdd (func arg epEvents : Nat) (fd : Int)
  | epollMod (func arg epEvents : Nat) (fd : Int)
  | cancel (event : NodePtr) (settimeOk : Bool)
  | close (fd : Int)
  | wait (answer : EpollWait)

/-- The events `epoll_wait` answers in a command. -/
def Op.reports : Op → List EpollEvent
  | .wait (.reported events _ _) => events
  | _ => []

/-- `owned` are the handles callers hold, `stamp` the position of a timer among all
`adds` so far. -/
structure Run where
  engine : Engine
  owned : List NodePtr
  stamp : NodePtr → Nat
  adds : Nat

namespace Run

def initial (timerfd : Int) (epEvents : Nat) : Run :=
  { engine := eventMasterCreate timerfd epEvents true, owned := [], stamp := fun _ => 0, adds := 0 }

/-- An adder answered a handle. -/
def grant (r : Run) : Option NodePtr × Engine → Run
  | (some event, s) =>
    { engine := s, owned := event :: r.owned, stamp := Function.update r.stamp event r.adds,
      adds := r.adds + 1 }
  | (none, s) => { r with engine := s }

/-- Nobody holds a handle of `event` any more. -/
def drop (r : Run) (event : NodePtr) (s : Engine) : Run :=
  { r with engine := s, owned := r.owned.filter (· ≠ event) }

/-- After a turn: a timer that was fetched is used up. -/
def waited (r : Run) : Waited × Engine → Run
  | (.fetched event, s) =>
    if (s.heap event).addType = .event then { r with engine := s } else r.drop event s
  | (_, s) => { r with engine := s }

/-- The kernel forgets the registration of a closed descriptor. -/
def exec (op : Op) (r : Run) : Except Fault Run :=
  match op with
  | .timerAdd adder now func arg time settimeOk => do
    return r.grant (← adder.run r.engine now func arg time settimeOk)
  | .epollAdd func arg epEvents fd => .ok (r.grant (eventEpollAdd r.engine func arg epEvents fd true))
  | .epollMod func arg epEvents fd => do
    let (_, s) ← eventEpollMod r.engine func arg epEvents fd true
    return { r with engine := s }
  | .cancel event settimeOk => do
    return r.drop event (← eventCancel r.engine event settimeOk true)
  | .close fd => .ok { r with engine := { r.engine with epoll := Function.update r.engine.epoll fd none } }
  | .wait answer => do return r.waited (← eventWaitingPass r.engine Engine.fetchPtr answer)

/-- Descriptors are added when the kernel does not know them, handles are cancelled by
their holders, and a descriptor is closed when no epoll node has it any more. -/
def Permits (r : Run) : Op → Prop
  | .epollAdd _ _ _ fd => r.engine.epoll fd = none
  | .cancel event _ => event ∈ r.owned
  | .close fd => ∀ p, r.engine.Live p → (r.engine.heap p).fd ≠ fd
  | .timerAdd .. | .epollMod .. | .wait _ => True

/-- `epoll_wait`, which is called with no node ready, reports nodes of the hash, each
once. -/
def Admits (r : Run) (op : Op) : Prop :=
  r.Permits op ∧ ((r.engine.list .ready).head = none → Reportable r.engine op.reports)

instance (s : Engine) (p : NodePtr) : Decidable (s.Live p) := inferInstanceAs (Decidable (_ ∧ _))

instance (s : Engine) (events : List EpollEvent) : Decidable (Reportable s events) :=
  inferInstanceAs (Decidable (_ ∧ _))

instance (r : Run) (op : Op) : Decidable (r.Permits op) :=
  match op with
  | .epollAdd _ _ _ fd => inferInstanceAs (Decidable (r.engine.epoll fd = none))
  | .cancel event _ => inferInstanceAs (Decidable (event ∈ r.owned))
  | .close fd =>
    decidable_of_iff (∀ p, p < r.engine.brk → r.engine.Live p → (r.engine.heap p).fd ≠ fd)
      ⟨fun bounded p live => bounded p live.1.2 live, fun every p _ => every p⟩
  | .timerAdd .. | .epollMod .. | .wait _ => .isTrue trivial

instance (r : Run) (op : Op) : Decidable (r.Admits op) := inferInstanceAs (Decidable (_ ∧ (_ → _ ∧ _)))

end Run

def runs : Runs.System Run Op Fault where
  start r := ∃ timerfd epEvents, r = Run.initial timerfd epEvents
  guard := Run.Admits
  exec := Run.exec

/-- Represented, sound, and the handles held are handles of nodes in use. -/
structure Coherent (r : Run) (queues : Queues) : Prop where
  rep : Rep r.engine queues none
  sound : Sound r.engine
  owned : ∀ p ∈ r.owned, r.engine.InUse p

section Steps

variable {s s' : Engine} {queues queues' : Queues} {n : NodePtr}

theorem Touch.inUse (touch : Touch n s s') {q : NodePtr} (different : q ≠ n) (inUse : s.InUse q) :
    s'.InUse q := by
  refine ⟨(touch.allocated q).mpr (.inl inUse.1), ?_⟩
  rw [payload_type (touch.others q inUse.1 different)]
  exact inUse.2

theorem sound_timerAdd (sound : Sound s) (touch : Touch n s s') (still : Still s s')
    {l : ListName} (type : (s'.heap n).type = l.type)
    (addType : (s'.heap n).addType = l.type) : Sound s' := by
  have notEvent : (s'.heap n).addType ≠ .event := by
    rw [addType]; exact l.type_ne_event
  refine sound.touch touch (fun _ => notEvent) ?_ ?_ fun live => absurd live.2.1 notEvent
  · rw [type]; exact fun impossible => absurd impossible l.type_ne_event
  · intro q live _
    rw [still.epoll]
    exact sound.registered q live

theorem sound_epollAdd (sound : Sound s) {fd : Int} {epEvents : Nat}
    (unregistered : s.epoll fd = none) (added : EpollAdded s queues fd epEvents n s' queues') :
    Sound s' := by
  have apart : ∀ q, s.Live q → (s.heap q).fd ≠ fd := fun q live same =>
    sound.registered q live (same ▸ unregistered)
  refine sound.touch added.touch ?_ (fun _ => added.addType) ?_ ?_
  · rw [added.type]
    rintro (impossible | impossible) <;> cases impossible
  · intro q live _
    rw [added.epoll, Function.update_of_ne (apart q live)]
    exact sound.registered q live
  · intro _
    rw [added.epoll, added.watched, Function.update_self]
    exact ⟨by simp, fun q live _ => apart q live⟩

/-- No node of the hash has a descriptor that the kernel does not know. -/
theorem Sound.epollAdd (sound : Sound s) (rep : Rep s queues none) (func arg epEvents : Nat)
    {fd : Int} (unregistered : s.epoll fd = none) :
    ∃ n s' queues', eventEpollAdd s func arg epEvents fd true = (some n, s') ∧
      EpollAdded s queues fd epEvents n s' queues' :=
  eventEpollAdd_spec rep func arg epEvents unregistered fun m stored same =>
    sound.registered m (sound.live_of_stored rep stored) (same ▸ unregistered)

theorem sound_cancelled {settimeOk : Bool} (sound : Sound s) (inUse : s.InUse n)
    (cancelled : Cancelled s queues n settimeOk s' queues') : Sound s' := by
  have idle : ¬ s'.Live n := fun live => by
    rcases live.2.2 with typed | typed <;> cases cancelled.unused.symm.trans typed
  refine sound.touch cancelled.touch ?_ ?_ ?_ fun live => absurd live idle
  · rw [cancelled.unused]
    rintro (impossible | impossible) <;> cases impossible
  · rw [cancelled.unused]
    exact fun impossible => by cases impossible
  · intro q live different
    rw [cancelled.epoll]
    split
    next typed =>
      by_cases same : (s.heap q).fd = (s.heap n).fd
      · have liveN : s.Live n := ⟨inUse.1, sound.events n inUse.1 typed, .inl typed⟩
        exact absurd (sound.distinct q n live liveN same) different
      · rw [Function.update_of_ne same]
        exact sound.registered q live
    next => exact sound.registered q live

theorem blank_rep (timerfd : Int) : Rep (Engine.blank timerfd) (fun _ => []) none := by
  have nothing : ∀ q, ¬ (Engine.blank timerfd).Allocated q := fun q here => by
    have := here.1
    have := here.2
    simp only [Engine.blank] at this
    omega
  have datas : (Engine.blank timerfd).master.event.datas = [] := by
    simp [Engine.blank, hashCreateSize, Hash.datas]
  refine ⟨fun _ => Chain.holds_nil _, fun _ => rfl, fun l q => ?_, fun q => ?_, ?_,
    ⟨Nat.zero_lt_succ _, fun i backet member => ?_, fun i backet member => ?_⟩, fun q here => absurd here (nothing q),
    fun q loose => ?_, fun q held => (by cases held), rfl⟩
  · simp [nothing q]
  · simp [nothing q, datas]
  · simp [datas]
  · simp [Engine.blank, hashCreateSize] at member
  · simp [Engine.blank, hashCreateSize] at member
  · simp [datas] at loose

theorem blank_sound (timerfd : Int) : Sound (Engine.blank timerfd) := by
  have nothing : ∀ q, ¬ (Engine.blank timerfd).Allocated q := fun q here => by
    have := here.1
    have := here.2
    simp only [Engine.blank] at this
    omega
  exact ⟨fun p _ live => absurd live.1 (nothing p), fun p live => absurd live.1 (nothing p),
    fun p here => absurd here (nothing p), fun p here => absurd here (nothing p)⟩

theorem Adder.timed (adder : Adder) : adder.list.Timed := by
  cases adder <;> constructor

theorem Adder.run_eq (adder : Adder) (s : Engine) (now : Option Timespec) (func arg : Nat)
    (time : Int) (settimeOk : Bool) : ∃ sec nsec, adder.run s now func arg time settimeOk =
      eventAddAt s now func adder.list.type arg sec nsec settimeOk := by
  cases adder <;> exact ⟨_, _, rfl⟩

theorem Adder.run_spec (rep : Rep s queues none) (adder : Adder) (now : Option Timespec)
    (func arg : Nat) (time : Int) (settimeOk : Bool) :
    adder.run s now func arg time settimeOk = .ok (none, s) ∨
      ∃ n mid queues', adder.run s now func arg time settimeOk =
          .ok (some n, armFor mid n settimeOk) ∧ TimerAdded s queues adder.list n mid queues' := by
  obtain ⟨sec, nsec, same⟩ := adder.run_eq s now func arg time settimeOk
  rw [same, eventAddAt.eq_def]
  cases now with
  | none => exact .inl rfl
  | some now =>
      obtain ⟨n, mid, queues', run, added⟩ := eventTimerAddItimerspec_spec rep adder.timed func arg
        ⟨⟨0, 0⟩, timespecAdjust ⟨now.tvSec + sec, now.tvNsec + nsec⟩⟩ settimeOk
      refine .inr ⟨n, mid, queues', ?_, added⟩
      dsimp only
      rw [run]
      rfl

end Steps

section Runs

variable {r r' : Run} {queues : Queues}

theorem Coherent.grant (coherent : Coherent r queues) {n : NodePtr} {s' : Engine} {queues' : Queues}
    (rep : Rep s' queues' none) (sound : Sound s') (touch : Touch n r.engine s')
    (free : ¬ r.engine.InUse n) (used : (s'.heap n).type ≠ .unused) :
    Coherent (r.grant (some n, s')) queues' := by
  refine ⟨rep, sound, fun p held => ?_⟩
  rcases List.mem_cons.mp held with own | older
  · subst own
    exact ⟨(touch.allocated p).mpr (.inr rfl), used⟩
  · have inUse := coherent.owned p older
    exact touch.inUse (fun own => free (own ▸ inUse)) inUse

theorem Coherent.drop (coherent : Coherent r queues) {n : NodePtr} {s' : Engine} {queues' : Queues}
    (rep : Rep s' queues' none) (sound : Sound s')
    (kept : ∀ q, q ≠ n → r.engine.InUse q → s'.InUse q) : Coherent (r.drop n s') queues' := by
  refine ⟨rep, sound, fun p held => ?_⟩
  obtain ⟨older, different⟩ := List.mem_filter.mp held
  exact kept p (by simpa using different) (coherent.owned p older)

/-- A new master has added one descriptor, its timer's. -/
theorem initial_added (timerfd : Int) (epEvents : Nat) : ∃ n queues',
    EpollAdded (Engine.blank timerfd) (fun _ => []) timerfd epEvents n
      (Run.initial timerfd epEvents).engine queues' := by
  obtain ⟨n, s', queues', run, added⟩ :=
    (blank_sound timerfd).epollAdd (blank_rep timerfd) 0 0 epEvents
      (show (Engine.blank timerfd).epoll timerfd = none from rfl)
  refine ⟨n, queues', ?_⟩
  simpa only [Run.initial, eventMasterCreate, run] using added

theorem initial_coherent {timerfd : Int} {epEvents : Nat} {n : NodePtr} (added : EpollAdded
    (Engine.blank timerfd) (fun _ => []) timerfd epEvents n (Run.initial timerfd epEvents).engine
      queues) : Coherent (Run.initial timerfd epEvents) queues :=
  ⟨added.rep, sound_epollAdd (blank_sound timerfd) rfl added, by simp [Run.initial]⟩

theorem PassMove.inUse {view view' : View} (move : PassMove view view')
    (rep : Rep view.1 view.2 none) {q : NodePtr} (inUse : view.1.InUse q) : view'.1.InUse q := by
  have readied : ∀ {n s s'}, Readied n s s' → s.InUse q → s'.InUse q := by
    intro n s s' readied inUse
    by_cases own : q = n
    · subst own
      exact ⟨(readied.touch.allocated q).mpr (.inl inUse.1), by simp [readied.type]⟩
    · exact readied.touch.inUse own inUse
  cases move with
  | expire _ _ _ moved _ => exact readied moved inUse
  | report _ moved _ => exact readied moved inUse
  | retime retimed _ =>
      exact ⟨(retimed.allocated q).mpr inUse.1, by rw [retimed.heap]; exact inUse.2⟩

theorem PassMoves.inUse {view view' : View} (moves : PassMoves view view')
    (rep : Rep view.1 view.2 none) {q : NodePtr} (inUse : view.1.InUse q) : view'.1.InUse q := by
  induction moves with
  | refl => exact inUse
  | tail before last ih => exact last.inUse (PassMoves.rep before rep) ih

theorem Coherent.waited (coherent : Coherent r queues) {w : Waited} {mid s' : Engine}
    {qmid queues' : Queues} (moves : PassMoves (r.engine, queues) (mid, qmid))
    (fetches : Fetches w (mid, qmid) (s', queues')) : Coherent (r.waited (w, s')) queues' := by
  have rep : Rep mid qmid none := PassMoves.rep moves coherent.rep
  have sound : Sound mid := PassMoves.sound moves coherent.rep coherent.sound
  have inUse : ∀ p ∈ r.owned, mid.InUse p := fun p held =>
    PassMoves.inUse moves coherent.rep (coherent.owned p held)
  cases fetches with
  | idle => exact ⟨rep, sound, inUse⟩
  | null => exact ⟨rep, sound, inUse⟩
  | retry => exact ⟨rep, sound, inUse⟩
  | @fetched n _ _ dispatch =>
      have repD := dispatch.rep
      have soundD := dispatch.sound rep sound
      cases dispatch with
      | timer _ origin touch _ payload _ =>
          have used := payload_addType payload
          rw [Run.waited, if_neg (by rw [used]; exact origin)]
          refine ⟨repD, soundD, fun p held => ?_⟩
          obtain ⟨older, different⟩ := List.mem_filter.mp held
          exact touch.inUse (by simpa using different) (inUse p older)
      | epoll split origin touch _ payload _ =>
          have kept := payload_addType payload
          rw [Run.waited, if_pos (by rw [kept]; exact origin)]
          refine ⟨repD, soundD, fun p held => ?_⟩
          by_cases own : p = n
          · subst own
            refine ⟨(touch.allocated p).mpr (.inr rfl), ?_⟩
            rw [payload_type payload]
            exact fun impossible => by cases impossible
          · exact touch.inUse own (inUse p held)

/-- One command: it does not fail, and what comes out is coherent again. -/
theorem exec_coherent (coherent : Coherent r queues) {op : Op} (admits : r.Admits op) :
    ∃ r' queues', r.exec op = .ok r' ∧ Coherent r' queues' := by
  obtain ⟨permits, reportable⟩ := admits
  have rep := coherent.rep
  have sound := coherent.sound
  cases op with
  | timerAdd adder now func arg time settimeOk =>
      rcases adder.run_spec rep now func arg time settimeOk with run | ⟨n, mid, queues', run, added⟩
      · exact ⟨r, queues, by simp only [Run.exec, run]; rfl, coherent⟩
      · have retimed := armFor_retimed mid n settimeOk
        have here : mid.Allocated n := (added.touch.allocated n).mpr (.inr rfl)
        have soundMid := sound_timerAdd sound added.touch added.still added.type added.addType
        refine ⟨_, queues', by simp only [Run.exec, run]; rfl, coherent.grant
          (retimed.rep added.rep) (soundMid.retimed retimed)
          (added.touch.trans (retimed.touch here)) added.free ?_⟩
        rw [retimed.heap, added.type]
        cases adder <;> decide
  | epollAdd func arg epEvents fd =>
      obtain ⟨n, s', queues', run, added⟩ := sound.epollAdd rep func arg epEvents permits
      exact ⟨_, queues', by simp only [Run.exec, run], coherent.grant added.rep
        (sound_epollAdd sound permits added) added.touch added.free (by simp [added.type])⟩
  | epollMod func arg epEvents fd =>
      obtain ⟨result, s', run, repMod, brk, _, words, epoll⟩ :=
        eventEpollMod_spec rep func arg epEvents fd
      have allocated : ∀ q, s'.Allocated q ↔ r.engine.Allocated q := fun q => by
        simp only [Engine.Allocated, brk]
      have live : ∀ q, s'.Live q ↔ r.engine.Live q := fun q => by
        simp only [Engine.Live, allocated, (words q).1, (words q).2.1]
      have known : ∀ fd', r.engine.epoll fd' ≠ none → s'.epoll fd' ≠ none := by
        rcases epoll with same | ⟨n, _, _, same⟩
        · rw [same]; exact fun _ => id
        · intro fd' registered
          rw [same]
          by_cases own : fd' = fd
          · subst own; simp
          · rwa [Function.update_of_ne own]
      refine ⟨_, queues, by simp only [Run.exec, run]; rfl, repMod, ?_, fun p held => ?_⟩
      · refine ⟨fun p q => ?_, fun p => ?_, fun p => ?_, fun p => ?_⟩
        · rw [live, live, (words p).2.2.1, (words q).2.2.1]
          exact sound.distinct p q
        · rw [live, (words p).2.2.1]
          exact fun here => known _ (sound.registered p here)
        · rw [allocated, (words p).1, (words p).2.1]
          exact sound.timers p
        · rw [allocated, (words p).1, (words p).2.1]
          exact sound.events p
      · obtain ⟨here, used⟩ := coherent.owned p held
        exact ⟨(allocated p).mpr here, by rw [(words p).1]; exact used⟩
  | cancel event settimeOk =>
      have inUse := coherent.owned event permits
      obtain ⟨s', queues', run, cancelled⟩ := eventCancel_spec rep inUse
        (fun m member same stored => sound.only rep stored m member same) settimeOk
      exact ⟨_, queues', by simp only [Run.exec, run]; rfl, coherent.drop cancelled.rep
        (sound_cancelled sound inUse cancelled) fun q different => cancelled.touch.inUse different⟩
  | close fd =>
      refine ⟨_, queues, rfl, ?_, ?_, coherent.owned⟩
      · exact rep.congr rfl rfl rfl rfl (fun _ _ => ⟨rfl, rfl⟩) fun _ _ _ => ⟨rfl, rfl⟩
      · refine ⟨sound.distinct, fun p live => ?_, sound.timers, sound.events⟩
        change Function.update r.engine.epoll fd none _ ≠ none
        rw [Function.update_of_ne (permits p live)]
        exact sound.registered p live
  | wait answer =>
      obtain ⟨mid, qmid, w, s', queues', run, moves, fetches, _⟩ := eventWaitingPass_spec rep sound
        answer fun idle events now ok same => by
          subst same
          exact reportable (by rw [(rep.chain .ready).head, idle]; rfl)
      refine ⟨r.waited (w, s'), queues', ?_, coherent.waited moves fetches⟩
      simp only [Run.exec, run]
      rfl

/-- Every state a run reaches is coherent. -/
theorem coherent_of_reachable (reachable : runs.Reachable r) : ∃ queues, Coherent r queues := by
  refine reachable.invariant (motive := fun r => ∃ queues, Coherent r queues) ?_ ?_
  · rintro _ ⟨timerfd, epEvents, rfl⟩
    obtain ⟨n, queues, added⟩ := initial_added timerfd epEvents
    exact ⟨queues, initial_coherent added⟩
  · rintro r op r' ⟨queues, coherent⟩ admits executes
    obtain ⟨r'', queues', run, next⟩ := exec_coherent coherent admits
    cases run.symm.trans executes
    exact ⟨queues', next⟩

end Runs

/-- The five containers of a master. -/
inductive Container where
  | list (name : ListName)
  | hash
  deriving DecidableEq, Repr

/-- The type word of what a container holds. -/
def Container.type : Container → EventType
  | .list name => name.type
  | .hash => .event

/-- The nodes a container holds, found along its links or in its buckets. -/
def Container.members (s : Engine) : Container → List NodePtr
  | .list name => s.nodes name
  | .hash => s.master.event.datas

/-- Each node is in one container, the one its type word names; the links, lengths and
counts of the master agree with that. -/
structure Partitioned (s : Engine) : Prop where
  placed : ∀ p, s.Allocated p → ∃! c : Container, p ∈ c.members s
  typed : ∀ p, s.Allocated p → ∀ c : Container, p ∈ c.members s ↔ (s.heap p).type = c.type
  known : ∀ c : Container, ∀ p ∈ c.members s, s.Allocated p
  linked : ∀ name, Chain.Holds s.heap (s.list name).head (s.list name).tail (s.nodes name)
  counted : ∀ name, (s.list name).length = (s.nodes name).length
  hashNodup : s.master.event.datas.Nodup
  oneEach : ∀ p ∈ s.master.event.datas, ∀ q ∈ s.master.event.datas,
    (s.heap p).fd = (s.heap q).fd → p = q
  alloc : s.master.eventsAlloc = ((Finset.range s.brk).filter fun p => s.Allocated p).card

theorem Container.type_injective {c c' : Container} (same : c.type = c'.type) : c = c' := by
  cases c with
  | list l =>
      cases c' with
      | list l' => rw [ListName.type_injective same]
      | hash => exact absurd same l.type_ne_event
  | hash =>
      cases c' with
      | list l' => exact absurd same.symm l'.type_ne_event
      | hash => rfl

theorem Coherent.partitioned {r : Run} {queues : Queues} (coherent : Coherent r queues) :
    Partitioned r.engine := by
  have rep := coherent.rep
  have members : ∀ c : Container, ∀ p, p ∈ c.members r.engine ↔
      r.engine.Allocated p ∧ (r.engine.heap p).type = c.type := by
    intro c p
    cases c with
    | list l => simpa [Container.members, Container.type, rep.nodes_eq] using rep.listed l p
    | hash => simpa [Container.members, Container.type] using rep.hashed p
  have typed : ∀ p, r.engine.Allocated p → ∀ c : Container,
      p ∈ c.members r.engine ↔ (r.engine.heap p).type = c.type := fun p here c => by
    rw [members]
    exact and_iff_right here
  refine ⟨fun p here => ?_, typed, fun c p member => ((members c p).mp member).1, fun l => ?_,
    fun l => ?_, rep.nodup, fun p inP q inQ same => coherent.sound.only rep inQ p inP same, ?_⟩
  · have place : ∃ c : Container, (r.engine.heap p).type = c.type := by
      cases type : (r.engine.heap p).type with
      | unused => exact ⟨.list .unuse, rfl⟩
      | timer => exact ⟨.list .timer, rfl⟩
      | rear => exact ⟨.list .rear, rfl⟩
      | event => exact ⟨.hash, rfl⟩
      | immediate => exact absurd type (rep.typed p here (by simp))
      | ready => exact ⟨.list .ready, rfl⟩
    obtain ⟨c, own⟩ := place
    refine ⟨c, (typed p here c).mpr own, fun c' member => ?_⟩
    exact Container.type_injective (((typed p here c').mp member).symm.trans own)
  · rw [rep.nodes_eq]; exact rep.chain l
  · rw [rep.nodes_eq]; exact rep.length l
  · have counted := rep.alloc
    have all : ((Finset.range r.engine.brk).filter fun p => r.engine.Allocated p) =
        Finset.Ioo Engine.fetchPtr r.engine.brk := by
      ext p
      rw [Finset.mem_filter, Finset.mem_range, Finset.mem_Ioo]
      exact ⟨fun both => both.2, fun here => ⟨here.2, here⟩⟩
    rw [all, Nat.card_Ioo]
    omega

/-- In every run the nodes stay partitioned, and no admitted command fails. -/
theorem partition_invariant {r : Run} (reachable : runs.Reachable r) :
    Partitioned r.engine ∧ ∀ op, r.Admits op → ∃ r', r.exec op = .ok r' := by
  obtain ⟨queues, coherent⟩ := coherent_of_reachable reachable
  refine ⟨coherent.partitioned, fun op admits => ?_⟩
  obtain ⟨r', _, run, _⟩ := exec_coherent coherent admits
  exact ⟨r', run⟩

/-- Two descriptors and two timers; one timer is cancelled, one descriptor reported while
the other timer is due, and a node is reused. -/
def sampleOps : List Op :=
  [.epollAdd 1 0 1 5, .epollAdd 1 0 1 6, .timerAdd .timer (some ⟨1, 0⟩) 2 0 3 true,
    .timerAdd .rearMsec (some ⟨1, 0⟩) 2 0 1500 true, .cancel 4 true,
    .wait (.reported [⟨1, 2⟩] (some ⟨9, 0⟩) true), .wait .error, .timerAdd .rear (some ⟨9, 0⟩) 2 0 1 true,
    .cancel 3 true, .close 6]

/-- Replay commands from a new master under the guard of `runs`. -/
def replayRuns (ops : List Op) (timerfd : Int) (epEvents : Nat) : Option Run :=
  runs.replay (fun r op => decide (r.Admits op)) id ops (Run.initial timerfd epEvents)

theorem partition_invariant_sample : ∃ r, replayRuns sampleOps 4 1 = some r ∧
    Partitioned r.engine ∧ ∀ op, r.Admits op → ∃ r', r.exec op = .ok r' := by
  have finishes : (replayRuns sampleOps 4 1).isSome = true := by decide +kernel
  obtain ⟨r, replayed⟩ := Option.isSome_iff_exists.mp finishes
  have guards : ∀ (r : Run) (op : Op), decide (r.Admits op) = true → runs.guard r op :=
    fun r op admitted => (decide_eq_true_iff (p := r.Admits op)).mp admitted
  exact ⟨r, replayed, partition_invariant (.replay guards (.start ⟨4, 1, rfl⟩) replayed)⟩

end Poplar.EventCtl
