import Poplar.Proxy.Cached
import Poplar.Proxy.Queue

/-!
# Peers that wait for an answer, and their end

What the log says about the query of a peer is what its timer and the queue say. Stopping
a server-side peer touches neither.
-/
namespace Poplar.Proxy

def Call.query (p : Nat) : Call → Option Bool
  | .waitAdded q _ => if q = p then some true else none
  | .waitDropped q _ => if q = p then some false else none
  | _ => none

/-- The last call about the query of `p` decides whether `p` waits. -/
def waits (p : Nat) (log : List Call) : Bool := latest (Call.query p) log

/-- A call that is not about queries. -/
def Call.calm : Call → Bool
  | .waitAdded _ _ | .waitDropped _ _ | .answered _ _ _ => false
  | _ => true

/-- A query is sent before its peer is torn down, and answered while the peer waits. -/
def Call.fits (earlier : List Call) : Call → Prop
  | .waitAdded p _ => ∀ service, .teardown p service ∉ earlier
  | .answered p _ _ => waits p earlier = true
  | _ => True

def Fitting : List Call → Prop
  | [] => True
  | call :: earlier => call.fits earlier ∧ Fitting earlier

section Logs

variable {p : Nat} {calls log : List Call}

theorem waits_cons {call : Call} (other : call.query p = none) :
    waits p (call :: log) = waits p log :=
  latest_cons other

theorem waits_added {holder : Option Nat} : waits p (.waitAdded p holder :: log) = true :=
  latest_told (if_pos rfl)

theorem waits_dropped {victim : Option (Nat × Option Nat)} :
    waits p (.waitDropped p victim :: log) = false :=
  latest_told (if_pos rfl)

theorem Call.calm_query {call : Call} (calm : call.calm) : call.query p = none := by
  cases call with
  | waitAdded => cases calm
  | waitDropped => cases calm
  | _ => rfl

theorem Call.calm_fits {call : Call} (calm : call.calm) : call.fits log := by
  cases call with
  | waitAdded => cases calm
  | answered => cases calm
  | _ => trivial

theorem Call.calm_of_bytes {call : Call} (bytes : call.bytes = true) : call.calm = true := by
  cases call with
  | waitAdded => cases bytes
  | waitDropped => cases bytes
  | answered => cases bytes
  | _ => rfl

theorem waits_calm (calm : ∀ call ∈ calls, call.calm) : waits p (calls ++ log) = waits p log :=
  latest_append fun call member => Call.calm_query (calm call member)

theorem Fitting.calm (fitting : Fitting log) (calm : ∀ call ∈ calls, call.calm) :
    Fitting (calls ++ log) := by
  induction calls with
  | nil => exact fitting
  | cons call calls ih =>
      constructor
      · exact Call.calm_fits (calm call List.mem_cons_self)
      · exact ih fun other member => calm other (List.mem_cons_of_mem _ member)

/-- A peer torn down when it does not wait never waits again. The induction is on what was
logged since. -/
theorem Fitting.settled {later earlier : List Call} {service : Option ServiceType}
    (fitting : Fitting (later ++ .teardown p service :: earlier)) (off : waits p earlier = false) :
    waits p (later ++ .teardown p service :: earlier) = false ∧
      ∀ address partner, .answered p address partner ∉ later := by
  induction later with
  | nil =>
      rw [List.nil_append, waits_cons rfl]
      exact ⟨off, fun _ _ member => by cases member⟩
  | cons call later ih =>
      obtain ⟨fits, fitting⟩ := fitting
      obtain ⟨still, silent⟩ := ih fitting
      have torn : .teardown p service ∈ later ++ .teardown p service :: earlier :=
        List.mem_append_right _ List.mem_cons_self
      constructor
      · cases about : call.query p with
        | none => rwa [List.cons_append, waits_cons about]
        | some answer =>
            cases call with
            | waitAdded q holder =>
                by_cases same : q = p
                · exact absurd (same ▸ torn) (fits service)
                · simp [Call.query, same] at about
            | waitDropped q victim =>
                by_cases same : q = p
                · rw [same]
                  exact waits_dropped
                · simp [Call.query, same] at about
            | _ => cases about
      · intro address partner member
        rcases List.mem_cons.mp member with rfl | before
        · exact absurd (still.symm.trans fits) Bool.false_ne_true
        · exact silent address partner before

/-- A peer that waits goes on waiting until its own query is dropped. -/
theorem waits_until {later earlier : List Call} (on : waits p earlier = true)
    (kept : ∀ victim, .waitDropped p victim ∉ later) : waits p (later ++ earlier) = true := by
  induction later with
  | nil => exact on
  | cons call later ih =>
      have still := ih fun victim member => kept victim (List.mem_cons_of_mem _ member)
      cases about : call.query p with
      | none => rwa [List.cons_append, waits_cons about]
      | some answer =>
          cases call with
          | waitAdded q holder =>
              by_cases same : q = p
              · rw [same]
                exact waits_added
              · simp [Call.query, same] at about
          | waitDropped q victim =>
              by_cases same : q = p
              · exact absurd (same ▸ List.mem_cons_self) (kept victim)
              · simp [Call.query, same] at about
          | _ => cases about

end Logs

namespace View

variable {v m v' : View} {p q : Nat}

/-- `t_DnsWaitAck` is set. -/
def armed (v : View) (p : Nat) : Bool := ((v.actors p).map Actor.tDnsWaitAck).getD false

/-! ## Timers -/

theorem armed_modify {f : Actor → Actor} (same : ∀ actor, (f actor).tDnsWaitAck = actor.tDnsWaitAck) :
    (v.modify p f).armed = v.armed := by
  funext q
  rw [armed, map_modify v p q same]
  rfl

@[simp] theorem armed_note (call : Call) : (v.note call).armed = v.armed := rfl

@[simp] theorem armed_cancel : (v.cancel p).armed = v.armed := by
  unfold cancel
  cases v.pairedOf p <;> simp [unpair, armed_modify]

theorem armed_setWait (live : (v.actors p).isSome) (on : Bool) :
    (v.setWait p on).armed = Function.update v.armed p on := by
  obtain ⟨actor, found⟩ := Option.isSome_iff_exists.mp live
  funext q
  by_cases here : q = p
  · subst here
    simp [armed, setWait, modify_actors, found]
  · simp [armed, setWait, modify_actors, here]

/-- Only server-side peers have the timer, so that closing a client switches off nothing. -/
theorem armed_closePeer (servers : v.armed p = true → v.typeOf p = some .server) :
    (v.closePeer p).armed = v.armed := by
  unfold closePeer
  split
  next server => simp [stop, setStatus, teardown, clientInfo, forgetInfo, armed_modify]
  next client =>
    have off : v.armed p = false := by
      cases on : v.armed p with
      | false => rfl
      | true => exact absurd (servers on) client
    have quiet : (v.modify p fun actor =>
        { actor with tDnsWaitAck := false, tInfoDeal := none }).armed = v.armed := by
      funext q
      by_cases here : q = p
      · subst here
        rw [off, armed, modify_actors, Function.update_self]
        cases v.actors q <;> rfl
      · rw [armed, modify_actors, Function.update_of_ne here, armed]
    simp [close, teardown, serverInfo, forgetInfo, armed_modify, quiet]

theorem armed_start (connects : Bool) : (v.start p connects).armed = v.armed := by
  cases connects <;> simp [start, setStatus, teardown, clientInfo, armed_modify]

theorem armed_alloc {actor : Actor} (off : actor.tDnsWaitAck = false) :
    (v.alloc actor).armed = v.armed := by
  funext q
  by_cases here : q = v.next
  · simp [armed, alloc, here, off, v.fresh v.next (Nat.le_refl _)]
  · simp [armed, alloc, here]

theorem armed_openServer : (v.openServer p).armed = v.armed := by
  have alone : serverActor.tDnsWaitAck = false := rfl
  simp [openServer, pair, armed_modify, armed_alloc alone]

theorem armed_remove : (v.remove p).armed = Function.update v.armed p false := by
  funext q
  by_cases here : q = p
  · simp [armed, remove, here]
  · simp [armed, remove, here]

theorem armed_delete : (v.delete p).armed = Function.update v.armed p false := by
  have others (q : Nat) (other : q ≠ p) : (v.retire p).armed q = v.armed q := by
    have cancelled : (v.retire p).armed = ((v.note (.deleted p)).modify p fun actor =>
      { actor with tInfoDeal := none, tDnsWaitAck := false }).armed := armed_cancel
    rw [cancelled, armed, modify_actors, Function.update_of_ne other]
    rfl
  rw [delete_eq, armed_remove]
  funext q
  by_cases here : q = p
  · rw [here, Function.update_self, Function.update_self]
  · rw [Function.update_of_ne here, Function.update_of_ne here]
    exact others q here

/-! ## Every view -/

/-- Exactly the peers that wait by the log have their timer set, among them those queued. -/
structure Waits (v : View) : Prop extends Queued v where
  timer : ∀ p, v.armed p = waits p v.log
  servers : ∀ p, v.armed p = true → v.typeOf p = some .server
  queued : ∀ p, v.queue.Stores p → v.armed p = true
  fitting : Fitting v.log
  known : ∀ p service, .teardown p service ∈ v.log → p < v.next

theorem typeOf_congr (same : v'.identity p = v.identity p) : v'.typeOf p = v.typeOf p := by
  have parts (w : View) : w.typeOf p = (w.identity p).map fun known => known.2.1 := by
    simp [typeOf, identity, Function.comp_def]
  rw [parts, parts, same]

/-- A change that is not about queries. -/
theorem Waits.calm (wait : v.Waits) (queued : v'.Queued) (queue : v'.queue = v.queue)
    (armed : v'.armed = v.armed) (next : v.next ≤ v'.next)
    (same : ∀ p, p < v.next → v'.identity p = v.identity p) (calls : List Call)
    (log : v'.log = calls ++ v.log) (calm : ∀ call ∈ calls, call.calm)
    (known : ∀ p service, .teardown p service ∈ calls → p < v'.next) : v'.Waits := by
  refine ⟨queued, ?_, ?_, ?_, ?_, ?_⟩
  · intro p
    rw [armed, log, waits_calm calm]
    exact wait.timer p
  · intro p on
    rw [armed] at on
    have server := wait.servers p on
    rw [typeOf_congr (same p (inside_of_live (live_of_type server)))]
    exact server
  · intro p stored
    rw [queue] at stored
    rw [armed]
    exact wait.queued p stored
  · rw [log]
    exact wait.fitting.calm calm
  · intro p service member
    rw [log] at member
    rcases List.mem_append.mp member with new | old
    · exact known p service new
    · exact Nat.lt_of_lt_of_le (wait.known p service old) next

/-- A change of what peers remember that leaves the log alone. -/
theorem Waits.silent (wait : v.Waits) (queue : v'.queue = v.queue) (armed : v'.armed = v.armed)
    (next : v'.next = v.next) (same : v'.identity = v.identity) (log : v'.log = v.log) :
    v'.Waits :=
  wait.calm (wait.toQueued.same queue same) queue armed (Nat.le_of_eq next.symm)
    (fun p _ => congrFun same p) [] log (fun _ member => by cases member)
    fun _ _ member => by cases member

theorem Waits.touch (wait : v.Waits) {f : Actor → Actor}
    (service : ∀ actor, (f actor).serviceType = actor.serviceType)
    (type : ∀ actor, (f actor).tcpPeerType = actor.tcpPeerType)
    (id : ∀ actor, (f actor).dnsTransactionID = actor.dnsTransactionID)
    (timer : ∀ actor, (f actor).tDnsWaitAck = actor.tDnsWaitAck) : (v.modify p f).Waits :=
  wait.silent rfl (armed_modify timer) rfl (identity_modify service type id) rfl

@[simp] theorem next_cancel : (v.cancel p).next = v.next := by
  unfold cancel
  cases v.pairedOf p <;> rfl

@[simp] theorem next_closePeer : (v.closePeer p).next = v.next := by
  unfold closePeer
  split
  · exact next_cancel
  · exact next_cancel

theorem Waits.closePeer (wait : v.Waits) (live : (v.actors p).isSome) : (v.closePeer p).Waits := by
  refine wait.calm wait.toQueued.closePeer queue_closePeer (armed_closePeer (wait.servers p))
    (Nat.le_of_eq next_closePeer.symm) (fun q _ => congrFun identity_closePeer q) [_]
    (log_closePeer v p) (by simp [Call.calm]) ?_
  intro q service member
  rw [List.mem_singleton, Call.teardown.injEq] at member
  rw [next_closePeer, member.1]
  exact inside_of_live live

theorem Waits.closed (wait : v.Waits) (closed : Closed p v v') : v'.Waits :=
  closed.keeps (fun live wait => wait.closePeer live) wait

theorem Waits.started (wait : v.Waits) (started : Started p v v') : v'.Waits := by
  refine started.keeps (fun connects idle wait => ?_) wait
  have queued := wait.toQueued.same (queue_start (p := p) connects) (identity_start connects)
  have known (q : Nat) (_ : q < v.next) := congrFun (identity_start (v := v) (p := p) connects) q
  cases connects with
  | true =>
      exact wait.calm queued rfl (armed_start true) (Nat.le_refl _) known [] rfl
        (fun _ member => by cases member) fun _ _ member => by cases member
  | false =>
      refine wait.calm queued rfl (armed_start false) (Nat.le_refl _) known [_, _]
        (log_fails v p) (by simp [Call.calm]) ?_
      intro q service member
      simp only [List.mem_cons, Call.teardown.injEq, reduceCtorEq, List.not_mem_nil,
        or_false] at member
      obtain ⟨actor, found, _⟩ := Option.map_eq_some_iff.mp idle
      have inside : p < v.next := inside_of_live (Option.isSome_of_eq_some found)
      rwa [member.1]

theorem Opened.log {c : Nat} (opened : Opened c v m) : ∃ calls, m.log = calls ++ v.log ∧
    ∀ call ∈ calls, call.calm ∧ ∀ p service, call ≠ .teardown p service := by
  induction opened with
  | made => exact ⟨[_], openServer_log v c, by simp [Call.calm]⟩
  | note bytes _ ih =>
      obtain ⟨calls, same, calm⟩ := ih
      refine ⟨_ :: calls, congrArg (List.cons _) same, List.forall_mem_cons.mpr ⟨?_, calm⟩⟩
      constructor
      · exact Call.calm_of_bytes bytes
      · rintro p service rfl
        cases bytes

theorem Waits.opened {c : Nat} (wait : v.Waits) (opened : Opened c v m) : m.Waits := by
  obtain ⟨calls, log, calm⟩ := opened.log
  obtain ⟨actors, queue, next, _⟩ := opened.same
  have armed : m.armed = v.armed := by
    rw [← armed_openServer (v := v) (p := c)]
    funext q
    rw [View.armed, actors]
    rfl
  refine wait.calm (opened.queued wait.toQueued) queue armed (by omega) (fun q inside => ?_) calls
    log (fun call member => (calm call member).1) fun q service member => ?_
  · rw [opened.identity, Function.update_of_ne (Nat.ne_of_lt inside)]
  · exact absurd rfl ((calm _ member).2 q service)

/-- Only a peer that was just made starts to wait. -/
theorem Waits.waits {c : Nat} (wait : v.Waits) (opened : Opened c v m) (id : Nat) :
    (m.wait v.next id).Waits := by
  have begun := wait.opened opened
  obtain ⟨actor, found, server⟩ := opened.server
  obtain ⟨queued, _, only, _⟩ :=
    begun.toQueued.wait opened.server (opened.absent wait.toQueued) id
  have live : ((m.modify v.next fun actor => { actor with dnsTransactionID := id }).enqueue
      v.next |>.actors v.next).isSome := live_modify (Option.isSome_of_eq_some found)
  have armed : (m.wait v.next id).armed = Function.update m.armed v.next true := by
    have added (w : View) : (w.enqueue v.next).armed = w.armed := rfl
    have named : (m.modify v.next fun actor =>
        { actor with dnsTransactionID := id }).armed = m.armed := armed_modify fun _ => rfl
    rw [View.wait, armed_setWait live, added, named]
  obtain ⟨holder, log⟩ := log_wait m v.next id
  have typed : ∀ q, (m.wait v.next id).typeOf q = m.typeOf q := by
    intro q
    refine (map_modify _ _ q fun _ => ?_).trans (map_modify _ _ q fun _ => ?_)
    · rfl
    · rfl
  refine ⟨queued, ?_, ?_, ?_, ?_, ?_⟩
  · intro q
    rw [armed, log]
    by_cases here : q = v.next
    · rw [here, Function.update_self, waits_added]
    · rw [Function.update_of_ne here, waits_cons (by simp [Call.query, Ne.symm here])]
      exact begun.timer q
  · intro q on
    rw [typed]
    rw [armed] at on
    by_cases here : q = v.next
    · rw [here, typeOf, found, Option.map_some, server]
    · rw [Function.update_of_ne here] at on
      exact begun.servers q on
  · intro q stored
    rw [armed]
    by_cases here : q = v.next
    · rw [here, Function.update_self]
    · rw [Function.update_of_ne here]
      exact begun.queued q ((only q stored).resolve_right here)
  · rw [log]
    refine ⟨fun service torn => ?_, begun.fitting⟩
    obtain ⟨calls, same, calm⟩ := opened.log
    rw [same] at torn
    rcases List.mem_append.mp torn with new | old
    · exact (calm _ new).2 _ _ rfl
    · exact Nat.lt_irrefl _ (wait.known _ service old)
  · intro q service torn
    rw [log] at torn
    rcases List.mem_cons.mp torn with new | old
    · cases new
    · exact begun.known q service old

/-- The timer of a peer goes off and its identifier leaves the queue. -/
theorem Waits.dropped (wait : v.Waits) (queued : v'.Queued)
    (stores : ∀ q, v'.queue.Stores q → v.queue.Stores q ∧ q ≠ p)
    (armed : v'.armed = Function.update v.armed p false) (next : v'.next = v.next)
    (same : ∀ q, q ≠ p → v'.identity q = v.identity q) {victim : Option (Nat × Option Nat)}
    (log : v'.log = .waitDropped p victim :: v.log) : v'.Waits := by
  have others (q : Nat) (other : q ≠ p) : v'.armed q = v.armed q := by
    rw [armed, Function.update_of_ne other]
  refine ⟨queued, ?_, ?_, ?_, ?_, ?_⟩
  · intro q
    rw [log]
    by_cases here : q = p
    · rw [here, armed, Function.update_self, waits_dropped]
    · rw [others q here, waits_cons (by simp [Call.query, Ne.symm here])]
      exact wait.timer q
  · intro q on
    have other : q ≠ p := by
      rintro rfl
      rw [armed, Function.update_self] at on
      cases on
    rw [typeOf_congr (same q other)]
    rw [others q other] at on
    exact wait.servers q on
  · intro q stored
    obtain ⟨before, other⟩ := stores q stored
    rw [others q other]
    exact wait.queued q before
  · rw [log]
    exact ⟨trivial, wait.fitting⟩
  · intro q service torn
    rw [log] at torn
    rw [next]
    rcases List.mem_cons.mp torn with new | old
    · cases new
    · exact wait.known q service old

/-- A call that changes nothing else. -/
theorem Waits.note (wait : v.Waits) {call : Call} (fits : call.fits v.log)
    (quiet : ∀ p, call.query p = none) (known : ∀ p service, call ≠ .teardown p service) :
    (v.note call).Waits := by
  refine ⟨wait.toQueued.same rfl (identity_note call), ?_, wait.servers, wait.queued,
    ⟨fits, wait.fitting⟩, ?_⟩
  · intro p
    rw [armed_note, log_note, waits_cons (quiet p)]
    exact wait.timer p
  · intro p service torn
    rcases List.mem_cons.mp torn with new | old
    · exact absurd new.symm (known p service)
    · exact wait.known p service old

theorem Waits.answer (wait : v.Waits) (stored : v.queue.Stores p) (address : Nat) :
    (v.answer p address).Waits := by
  have noted : (v.note (.answered p address (v.pairedOf p))).Waits := by
    refine wait.note ?_ (fun _ => rfl) fun _ _ same => by cases same
    exact (wait.timer p).symm.trans (wait.queued p stored)
  obtain ⟨_, stores⟩ := noted.toQueued.drop p
  obtain ⟨actor, found, _⟩ := wait.live p stored
  refine noted.dropped (p := p) wait.toQueued.answer ?_ ?_ rfl ?_ rfl
  · intro q there
    obtain ⟨before, other⟩ := (stores q).mp there
    exact ⟨before, fun same => other (same ▸ rfl)⟩
  · exact armed_setWait (v := (v.note _).drop p) (Option.isSome_of_eq_some found) false
  · exact fun q _ => congrFun (identity_setWait false) q

theorem Waits.timedOut (wait : v.Waits) (live : (v.actors p).isSome) :
    ((v.setWait p false).drop p).Waits := by
  have off : (v.setWait p false).Queued := wait.toQueued.same rfl (identity_setWait false)
  obtain ⟨queued, stores⟩ := off.drop p
  refine wait.dropped queued ?_ (armed_setWait live false) rfl ?_ rfl
  · intro q there
    obtain ⟨before, other⟩ := (stores q).mp there
    exact ⟨before, fun same => other (same ▸ rfl)⟩
  · exact fun q _ => congrFun (identity_setWait false) q

theorem Waits.delete (wait : v.Waits) (live : (v.actors p).isSome) : (v.delete p).Waits := by
  have noted : (v.note (.deleted p)).Waits :=
    wait.note trivial (fun _ => rfl) fun _ _ same => by cases same
  obtain ⟨queued, stores⟩ := wait.toQueued.delete live
  obtain ⟨victim, log⟩ := log_delete v p
  refine noted.dropped queued ?_ armed_delete ?_ ?_ log
  · intro q there
    obtain ⟨before, other⟩ := (stores q).mp there
    exact ⟨before, fun same => other (same ▸ rfl)⟩
  · exact next_cancel
  · intro q other
    rw [identity_delete, Function.update_of_ne other]
    rfl

theorem Waits.infoRun (wait : v.Waits) : (v.infoRun p).Waits := by
  have noted : (v.note (.infoRun p (v.typeOf p) (decide (p ∈ v.listed)))).Waits :=
    wait.note trivial (fun _ => rfl) fun _ _ same => by cases same
  exact noted.touch (p := p) (f := fun actor => { actor with tInfoDeal := none })
    (fun _ => rfl) (fun _ => rfl) (fun _ => rfl) fun _ => rfl

theorem kept_waits : Kept Waits where
  accept {v} wait := by
    refine wait.calm (kept_queued.accept wait.toQueued) rfl (armed_alloc rfl) (Nat.le_succ _)
      (fun q inside => ?_) [] rfl (fun _ member => by cases member) fun _ _ member => by cases member
    have enlisted : v.accept.identity = (v.alloc clientActor).identity := rfl
    rw [enlisted, identity_alloc, Function.update_of_ne (Nat.ne_of_lt inside)]
  note {v call} bytes wait := by
    refine wait.note ?_ (fun p => ?_) fun p service same => ?_
    · exact Call.calm_fits (Call.calm_of_bytes bytes)
    · exact Call.calm_query (Call.calm_of_bytes bytes)
    · cases same
      cases bytes
  closePeer live wait := wait.closePeer live
  request _ opened resolved wait := by
    cases resolved with
    | starts started => exact (wait.opened opened).started started
    | waits id => exact wait.waits opened id
    | unsent closed => exact (wait.opened opened).closed closed
  establish {v p} _ wait := by
    have enlisted : (v.enlist p).Waits := wait.silent rfl rfl rfl rfl rfl
    have informed : ((v.enlist p).clientInfo p .connectionSuccess).Waits :=
      enlisted.touch (fun _ => rfl) (fun _ => rfl) (fun _ => rfl) fun _ => rfl
    exact informed.touch (p := p) (f := fun actor => { actor with tcpClientStatus := .establish })
      (fun _ => rfl) (fun _ => rfl) (fun _ => rfl) fun _ => rfl
  clientInfos _ turns wait :=
    turns.keeps (fun _ _ wait => wait.touch (fun _ => rfl) (fun _ => rfl) (fun _ => rfl) fun _ => rfl)
      (fun _ _ wait => wait.touch (fun _ => rfl) (fun _ => rfl) (fun _ => rfl) fun _ => rfl)
      (fun live wait => wait.delete live) wait.infoRun
  serverInfos _ turns wait :=
    turns.keeps (fun _ _ wait => wait.touch (fun _ => rfl) (fun _ => rfl) (fun _ => rfl) fun _ => rfl)
      (fun _ _ wait => wait.touch (fun _ => rfl) (fun _ => rfl) (fun _ => rfl) fun _ => rfl)
      (fun live wait => wait.delete live) wait.infoRun
  timeout {v v' p} closed wait := by
    have live : (v.actors p).isSome := by
      have there : ((v.setWait p false).actors p).isSome := closed.live
      rwa [setWait, modify_actors, Function.update_self, Option.isSome_map] at there
    exact (wait.timedOut live).closed closed
  noAddress stored wait := wait.answer stored 0
  answered stored _ started wait := (wait.answer stored _).started started

theorem waits_init : init.Waits := by
  have off (p : Nat) : init.armed p = false := by
    by_cases first : p = 0
    · simp [armed, init, first]
    · simp [armed, init, first]
  refine ⟨queued_init, off, ?_, ?_, trivial, ?_⟩
  · intro p on
    rw [off] at on
    cases on
  · intro p stored
    obtain ⟨i, backet, member, _⟩ := stored
    cases member
  · intro p service torn
    cases torn

theorem Reached.waits (reached : Reached v) : v.Waits := kept_waits.reached waits_init reached

end View

theorem timer_view {s : Popd} {p : Nat} : s.view.armed p = true ↔
    ∃ peer, s.peers p = some peer ∧ peer.tDnsWaitAck = true := by
  unfold View.armed
  cases found : s.peers p with
  | none => simp [Popd.view, found]
  | some peer => simp [Popd.view, found]

/-- A peer that does not wait when it is torn down is out of the queue for good, its timer is
off and no answer reaches it. One that waits has its timer until its own query is dropped. -/
theorem stopped_settled {s : Popd} (reachable : system.Reachable s) {p : Nat}
    {service : Option ServiceType} {later earlier : List Call}
    (split : s.log = later ++ .teardown p service :: earlier) :
    (waits p earlier = false → ¬ s.dnsAckWaitQueue.Stores p ∧
      (∀ peer, s.peers p = some peer → peer.tDnsWaitAck = false) ∧
      ∀ address partner, .answered p address partner ∉ later) ∧
    (waits p earlier = true → (∀ victim, .waitDropped p victim ∉ later) →
      ∃ peer, s.peers p = some peer ∧ peer.tDnsWaitAck = true) := by
  have wait := (reachable_view reachable).waits
  have log : s.view.log = later ++ .teardown p service :: earlier := split
  constructor
  · intro off
    have fitting := wait.fitting
    rw [log] at fitting
    obtain ⟨still, silent⟩ := fitting.settled off
    have notArmed : s.view.armed p = false := by rw [wait.timer p, log, still]
    refine ⟨fun stored => ?_, fun peer found => ?_, silent⟩
    · rw [wait.queued p stored] at notArmed
      cases notArmed
    · simpa [View.armed, Popd.view, found] using notArmed
  · intro on kept
    refine timer_view.mp ?_
    rw [wait.timer p, log]
    exact waits_until ((waits_cons rfl).trans on) kept

/-- A request for `a.b`, and a socket that fails at the call with number `fails`. -/
def lookupRun (fails : Nat) (n : Nat) : Answer :=
  if n = 1 then { read := Http.ascii "GET http://a.b/ HTTP/1.1\r\n\r\n" } else { retry := n ≠ fails }

theorem stopped_settled_sample : ∃ s, system.Reachable s ∧ ¬ s.dnsAckWaitQueue.Stores 2 ∧
    ∃ peer, s.peers 2 = some peer ∧ peer.tDnsWaitAck = false := by
  have runs : (replay (lookupRun 0) [.accept [(5, 1, 2)] false, .socket 1 true false false,
      .dnsWaitAckTimeout 2, .infoDeal 1]).map (fun s => (decide (s.log = s.log.take 3 ++
        .teardown 2 (some .httpProxy) :: s.log.drop 4), waits 2 (s.log.drop 4),
        (s.peers 2).isSome)) = some (true, false, true) := by decide +kernel
  obtain ⟨s, ran, facts⟩ := Option.map_eq_some_iff.mp runs
  simp only [Prod.mk.injEq, decide_eq_true_eq] at facts
  obtain ⟨split, off, live⟩ := facts
  have reachable := replay_reachable ran
  obtain ⟨out, timers, _⟩ := (stopped_settled reachable split).1 off
  obtain ⟨peer, found⟩ := Option.isSome_iff_exists.mp live
  exact ⟨s, reachable, out, peer, found, timers peer found⟩

/-- The client goes away while the query is not answered; the answer then comes. -/
theorem stopped_peer_connects : ∃ s later earlier, system.Reachable s ∧
    s.log = later ++ .teardown 2 (some .httpProxy) :: earlier ∧ waits 2 earlier = true ∧
    .answered 2 0x0A000001 none ∈ later ∧
    (s.peers 2).map (fun peer => peer.tcpClientStatus) = some .connect := by
  have runs : (replay (lookupRun 5) [.accept [(5, 1, 2)] false, .socket 1 true false false,
      .socket 1 true false false, .datagram (hostReply 0 60 1) DNS_SERVER_ADDRESS 53]).map
      (fun s => (decide (s.log = s.log.take 3 ++ .teardown 2 (some .httpProxy) :: s.log.drop 4),
        waits 2 (s.log.drop 4), decide (.answered 2 0x0A000001 none ∈ s.log.take 3),
        (s.peers 2).map (fun peer => peer.tcpClientStatus))) =
      some (true, true, true, some .connect) := by decide +kernel
  obtain ⟨s, ran, facts⟩ := Option.map_eq_some_iff.mp runs
  simp only [Prod.mk.injEq, decide_eq_true_eq] at facts
  obtain ⟨split, on, answered, connecting⟩ := facts
  exact ⟨s, _, _, replay_reachable ran, split, on, answered, connecting⟩

end Poplar.Proxy
