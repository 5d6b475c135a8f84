import Poplar.Proxy.Waiting

/-!
# Peers that wait are found by their identifier

A query may get the identifier of a peer that still waits, and then its own peer is not
queued; a peer that is released takes the entry of whoever has its identifier. In a run
where neither happens every peer that waits is found.
-/
namespace Poplar.Proxy

def Call.pending (p : Nat) : Call → Option Bool
  | .waitAdded q _ => if q = p then some true else none
  | .waitDropped q _ | .teardown q _ => if q = p then some false else none
  | _ => none

/-- The query of `p` was sent, and since then it was neither answered nor timed out, and the
peer neither stopped nor deleted. -/
def awaits (p : Nat) (log : List Call) : Bool := latest (Call.pending p) log

/-- A query gets an identifier nobody in the queue has; a release takes out nobody else who
is waited for. -/
def Call.harmless (earlier : List Call) : Call → Bool
  | .waitAdded _ holder => holder.isNone
  | .waitDropped q (some (p, _)) => p == q || !awaits p earlier
  | _ => true

def Undisturbed : List Call → Bool
  | [] => true
  | call :: earlier => call.harmless earlier && Undisturbed earlier

section Logs

variable {p : Nat} {calls log : List Call}

/-- Only a query makes a peer awaited. -/
theorem awaits_before (silent : ∀ holder, .waitAdded p holder ∉ calls)
    (on : awaits p (calls ++ log) = true) : awaits p log = true := by
  induction calls with
  | nil => exact on
  | cons call calls ih =>
      have later : ∀ holder, .waitAdded p holder ∉ calls := fun holder member =>
        silent holder (List.mem_cons_of_mem _ member)
      cases about : call.pending p with
      | none =>
          apply ih later
          rwa [List.cons_append, awaits, latest_cons about] at on
      | some answer =>
          rw [List.cons_append, awaits, latest_told about] at on
          subst on
          cases call with
          | waitAdded q holder =>
              by_cases same : q = p
              · exact absurd (same ▸ List.mem_cons_self) (silent holder)
              · simp [Call.pending, same] at about
          | waitDropped q victim => simp [Call.pending] at about
          | teardown q service => simp [Call.pending] at about
          | _ => cases about

theorem undisturbed_before (undisturbed : Undisturbed (calls ++ log) = true) :
    Undisturbed log = true := by
  induction calls with
  | nil => exact undisturbed
  | cons call calls ih =>
      rw [List.cons_append, Undisturbed, Bool.and_eq_true] at undisturbed
      exact ih undisturbed.2

end Logs

namespace View

variable {v m v' : View} {p q : Nat}

/-- In a run without disturbance the peer is queued while it is awaited. -/
def Sought (v : View) (p : Nat) : Prop :=
  Undisturbed v.log = true → awaits p v.log = true → v.queue.Stores p

theorem Sought.keep (sought : v.Sought p) (calls : List Call) (log : v'.log = calls ++ v.log)
    (silent : ∀ holder, .waitAdded p holder ∉ calls)
    (queue : Undisturbed v'.log = true → awaits p v'.log = true → awaits p v.log = true →
      v.queue.Stores p → v'.queue.Stores p) : v'.Sought p := by
  intro undisturbed on
  have before : awaits p v.log = true := by
    rw [log] at on
    exact awaits_before silent on
  apply queue undisturbed on before
  rw [log] at undisturbed
  exact sought (undisturbed_before undisturbed) before

/-- Nothing was queued or released. -/
theorem Sought.same (sought : v.Sought p) (queue : v'.queue = v.queue) (calls : List Call)
    (log : v'.log = calls ++ v.log) (silent : ∀ holder, .waitAdded p holder ∉ calls) :
    v'.Sought p := by
  apply sought.keep calls log silent
  intro _ _ _ stored
  rwa [queue]

theorem Sought.closePeer (sought : v.Sought p) : (v.closePeer q).Sought p :=
  sought.same queue_closePeer [_] (log_closePeer v q) (by simp)

theorem Sought.closed (sought : v.Sought p) (closed : Closed q v v') : v'.Sought p := by
  rw [closed.result]
  obtain ⟨same, _⟩ | ⟨r, _, same⟩ := closePaired_cases v q
  · rw [same]
    exact sought.closePeer
  · rw [same]
    exact sought.closePeer.closePeer

theorem Sought.started (sought : v.Sought p) (started : Started q v v') : v'.Sought p := by
  cases started with
  | connects => exact sought.same (queue_start true) [] rfl (by simp)
  | fails => exact sought.same (queue_start false) [_, _] (log_fails v q) (by simp)
  | ignored => exact sought

/-- A release takes out the peer itself, or one that nobody waits for. -/
theorem Sought.drop (sought : v.Sought p) (queued : v.Queued) (q : Nat) : (v.drop q).Sought p := by
  apply sought.keep [_] rfl (by simp)
  intro undisturbed on before stored
  have other : q ≠ p := by
    rintro rfl
    rw [awaits, View.drop, log_note, latest_told (if_pos rfl)] at on
    cases on
  refine ((queued.drop q).2 p).mpr ⟨stored, fun equal => ?_⟩
  have log : (v.drop q).log = .waitDropped q (some (p, v.pairedOf p)) :: v.log := by
    rw [View.drop, queued.victim stored equal]
    rfl
  rw [log, Undisturbed, Bool.and_eq_true, Call.harmless, Bool.or_eq_true, beq_iff_eq,
    Bool.not_eq_true'] at undisturbed
  rcases undisturbed.1 with same | off
  · exact other same.symm
  · rw [before] at off
    cases off

theorem Sought.delete (sought : v.Sought p) (queued : v.Queued) (q : Nat) :
    (v.delete q).Sought p := by
  have retired : (v.retire q).Sought p := by
    apply sought.same queue_retire [.deleted q]
    · simp [retire, unlist, note]
    · simp
  have again : (v.retire q).Queued := queued.same queue_retire identity_retire
  exact (retired.drop again q).same rfl [] rfl (by simp)

theorem Sought.answer (sought : v.Sought p) (queued : v.Queued) (q address : Nat) :
    (v.answer q address).Sought p := by
  have noted : (v.note (.answered q address (v.pairedOf q))).Sought p :=
    sought.same rfl [_] rfl (by simp)
  have again : (v.note (.answered q address (v.pairedOf q))).Queued :=
    queued.same rfl (identity_note _)
  exact (noted.drop again q).same rfl [] rfl (by simp)

theorem Sought.opened {c : Nat} (sought : v.Sought p) (opened : Opened c v m) : m.Sought p := by
  obtain ⟨calls, log, calm⟩ := opened.log
  apply sought.same opened.same.2.1 calls log
  intro holder member
  cases (calm _ member).1

/-- The server-side peer of a request is queued unless its identifier is taken. -/
theorem Sought.waits {c : Nat} (sought : v.Sought p) (queued : v.Queued) (opened : Opened c v m)
    (id : Nat) : (m.wait v.next id).Sought p := by
  obtain ⟨_, more, _, holds⟩ :=
    (opened.queued queued).wait opened.server (opened.absent queued) id
  obtain ⟨holder, noted⟩ := log_wait m v.next id
  by_cases here : p = v.next
  · intro undisturbed _
    rw [noted, Undisturbed, Bool.and_eq_true, Call.harmless, Option.isNone_iff_eq_none] at undisturbed
    rw [here]
    apply holds
    rw [noted, undisturbed.1]
    rfl
  · apply (sought.opened opened).keep [_] noted
    · intro other member
      rw [List.mem_singleton, Call.waitAdded.injEq] at member
      exact here member.1
    · intro _ _ _ stored
      exact more p stored

/-- Every peer is queued while it is awaited. -/
structure Searched (v : View) : Prop extends Queued v where
  sought : ∀ p, v.Sought p

/-- What an info handler remembers of a peer does not matter here. -/
theorem Searched.touch (searched : v.Searched) {f : Actor → Actor}
    (known : ∀ actor, ((f actor).serviceType, (f actor).tcpPeerType, (f actor).dnsTransactionID) =
      (actor.serviceType, actor.tcpPeerType, actor.dnsTransactionID)) :
    (v.modify q f).Searched := by
  simp only [Prod.mk.injEq] at known
  refine ⟨searched.toQueued.touch (fun actor => (known actor).1) (fun actor => (known actor).2.1)
    fun actor => (known actor).2.2, fun p => ?_⟩
  exact (searched.sought p).same rfl [] rfl (by simp)

theorem Searched.infoRun (searched : v.Searched) : (v.infoRun q).Searched :=
  ⟨searched.toQueued.same rfl identity_infoRun, fun p =>
    (searched.sought p).same rfl [_] rfl (by simp)⟩

theorem Searched.delete (searched : v.Searched) (live : (v.actors q).isSome) :
    (v.delete q).Searched :=
  ⟨(searched.toQueued.delete live).1, fun p => (searched.sought p).delete searched.toQueued q⟩

theorem kept_searched : Kept Searched where
  accept searched := by
    refine ⟨kept_queued.accept searched.toQueued, fun p => ?_⟩
    exact (searched.sought p).same rfl [] rfl (by simp)
  note {v call} bytes searched := by
    refine ⟨kept_queued.note bytes searched.toQueued, fun p => ?_⟩
    refine (searched.sought p).same rfl [call] rfl fun holder member => ?_
    rw [List.mem_singleton] at member
    subst member
    cases bytes
  closePeer live searched := ⟨searched.toQueued.closePeer, fun p => (searched.sought p).closePeer⟩
  request {v m v' c} client opened resolved searched := by
    refine ⟨kept_queued.request client opened resolved searched.toQueued, fun p => ?_⟩
    have begun := (searched.sought p).opened opened
    cases resolved with
    | starts started => exact begun.started started
    | waits id => exact (searched.sought p).waits searched.toQueued opened id
    | unsent closed => exact begun.closed closed
  establish connecting searched := by
    refine ⟨kept_queued.establish connecting searched.toQueued, fun p => ?_⟩
    exact (searched.sought p).same rfl [] rfl (by simp)
  clientInfos _ turns searched :=
    turns.keeps (fun _ _ searched => searched.touch fun _ => rfl)
      (fun _ _ searched => searched.touch fun _ => rfl)
      (fun live searched => searched.delete live) searched.infoRun
  serverInfos _ turns searched :=
    turns.keeps (fun _ _ searched => searched.touch fun _ => rfl)
      (fun _ _ searched => searched.touch fun _ => rfl)
      (fun live searched => searched.delete live) searched.infoRun
  timeout {v v' q} closed searched := by
    refine ⟨kept_queued.timeout closed searched.toQueued, fun p => ?_⟩
    have off : (v.setWait q false).Queued :=
      searched.toQueued.same rfl (identity_setWait false)
    have quiet : (v.setWait q false).Sought p := (searched.sought p).same rfl [] rfl (by simp)
    exact (quiet.drop off q).closed closed
  noAddress {v q} stored searched :=
    ⟨kept_queued.noAddress stored searched.toQueued, fun p =>
      (searched.sought p).answer searched.toQueued q 0⟩
  answered stored address started searched :=
    ⟨kept_queued.answered stored address started searched.toQueued, fun p =>
      ((searched.sought p).answer searched.toQueued _ _).started started⟩

theorem Reached.searched (reached : Reached v) : v.Searched := by
  refine kept_searched.reached ⟨queued_init, fun p => ?_⟩ reached
  intro _ on
  cases on

end View

/-- In every run whose queries got identifiers that nobody in the queue had, and whose
releases took out nobody else who was awaited: every awaited peer is found by its
identifier, and no two have the same. -/
theorem awaited_found {s : Popd} (reachable : system.Reachable s)
    (undisturbed : Undisturbed s.log = true) :
    (∀ p, awaits p s.log = true → s.Findable p) ∧
      ∀ p q, awaits p s.log = true → awaits q s.log = true → s.idOf p = s.idOf q → p = q := by
  have searched := (reachable_view reachable).searched
  have found : ∀ p, awaits p s.log = true → s.Findable p := by
    intro p on
    exact (findable_iff searched.toQueued).mpr (searched.sought p undisturbed on)
  refine ⟨found, fun p q onP onQ same => ?_⟩
  obtain ⟨id, own, hit⟩ := (found p onP).found
  obtain ⟨id', own', hit'⟩ := (found q onQ).found
  rw [own, own', Option.some.injEq] at same
  subst same
  exact Option.some.inj (hit.symm.trans hit')

/-- Two clients wait for two answers. -/
theorem awaited_found_sample : ∃ s, system.Reachable s ∧ s.Findable 3 ∧ s.Findable 4 := by
  have runs : (replay (fun n => if n = 2 ∨ n = 6 then { read := getRequest } else {})
      [.accept [(5, 1, 2), (6, 1, 3)] false, .socket 1 true false false,
        .socket 2 true false false]).map
      (fun s => (Undisturbed s.log, awaits 3 s.log, awaits 4 s.log)) = some (true, true, true) := by
    decide +kernel
  obtain ⟨s, ran, facts⟩ := Option.map_eq_some_iff.mp runs
  simp only [Prod.mk.injEq] at facts
  obtain ⟨undisturbed, third, fourth⟩ := facts
  obtain ⟨found, _⟩ := awaited_found (replay_reachable ran) undisturbed
  exact ⟨s, replay_reachable ran, found 3 third, found 4 fourth⟩

/-- The second client leaves without having asked for anything; its end releases the peer
that waits with the identifier 0. -/
theorem awaited_lost : ∃ s, system.Reachable s ∧ awaits 3 s.log = true ∧ ¬ s.Findable 3 := by
  have runs : (replay (fun n => if n = 2 then { read := getRequest } else { retry := n ≠ 6 })
      [.accept [(5, 1, 2), (6, 1, 3)] false, .socket 1 true false false,
        .socket 2 true false false, .infoDeal 2]).map
      (fun s => (awaits 3 s.log, s.dnsAckWaitQueue.datas)) = some (true, []) := by decide +kernel
  obtain ⟨s, ran, facts⟩ := Option.map_eq_some_iff.mp runs
  simp only [Prod.mk.injEq] at facts
  have reachable := replay_reachable ran
  refine ⟨s, reachable, facts.1, fun findable => ?_⟩
  have member : 3 ∈ s.dnsAckWaitQueue.datas :=
    (reachable_view reachable).queued.datas.mp findable.queued
  rw [facts.2] at member
  cases member

end Poplar.Proxy
