import Poplar.Proxy.Ops

/-!
# Changes that neither read, nor queue, nor pair

Most of what the daemon does leaves the sides and services of peers as they are, only
takes partners away, and records nothing about bytes. Such changes compose.
-/
namespace Poplar.Proxy

/-- A call that says nothing about bytes or new pairs. -/
def Call.quiet : Call → Bool
  | .chunk _ _ _ | .queued _ _ _ | .requested _ _ _ | .paired _ _ _ _ => false
  | _ => true

namespace View

structure Mild (v v' : View) : Prop where
  next : v.next ≤ v'.next
  log : ∃ calls, v'.log = calls ++ v.log ∧ ∀ call ∈ calls, call.quiet
  old : ∀ p actor', p < v.next → v'.actors p = some actor' → ∃ actor, v.actors p = some actor ∧
    actor'.tcpPeerType = actor.tcpPeerType ∧ actor'.serviceType = actor.serviceType
  new : ∀ p actor', v.next ≤ p → v'.actors p = some actor' → actor'.tcpPeerType = .client →
    actor'.serviceType = .httpProxy
  pairs : ∀ p q, v'.pairedOf p = some q → v.pairedOf p = some q

variable {v m v' : View} {p : Nat}

theorem Mild.refl (v : View) : Mild v v where
  next := Nat.le_refl _
  log := ⟨[], rfl, by simp⟩
  old p actor' _ found := ⟨actor', found, rfl, rfl⟩
  new p actor' outside found := by
    rw [v.fresh p outside] at found
    cases found
  pairs _ _ paired := paired

theorem Mild.trans (first : Mild v m) (second : Mild m v') : Mild v v' := by
  constructor
  · exact Nat.le_trans first.next second.next
  · obtain ⟨calls, log, quiet⟩ := first.log
    obtain ⟨calls', log', quiet'⟩ := second.log
    refine ⟨calls' ++ calls, by rw [log', log, List.append_assoc], ?_⟩
    intro call member
    rcases List.mem_append.mp member with later | earlier
    · exact quiet' call later
    · exact quiet call earlier
  · intro p actor' inside found
    obtain ⟨actor, live, type, service⟩ :=
      second.old p actor' (Nat.lt_of_lt_of_le inside first.next) found
    obtain ⟨before, found', type', service'⟩ := first.old p actor inside live
    exact ⟨before, found', type.trans type', service.trans service'⟩
  · intro p actor' outside found client
    by_cases inside : p < m.next
    · obtain ⟨actor, live, type, service⟩ := second.old p actor' inside found
      rw [service]
      exact first.new p actor outside live (type ▸ client)
    · exact second.new p actor' (Nat.not_lt.mp inside) found client
  · intro p q paired
    exact first.pairs p q (second.pairs p q paired)

/-- Peers stay where they are. -/
theorem Mild.of_actors (next : v'.next = v.next) (actors : v'.actors = v.actors)
    (log : ∃ calls, v'.log = calls ++ v.log ∧ ∀ call ∈ calls, call.quiet) : Mild v v' where
  next := Nat.le_of_eq next.symm
  log := log
  old p actor' _ found := ⟨actor', actors ▸ found, rfl, rfl⟩
  new p actor' outside found := by
    rw [actors, v.fresh p outside] at found
    cases found
  pairs p q paired := by
    rw [pairedOf, actors] at paired
    exact paired

theorem Mild.note (v : View) {call : Call} (quiet : call.quiet) : Mild v (v.note call) :=
  .of_actors rfl rfl ⟨[call], rfl, by simpa using quiet⟩

theorem Mild.drop (v : View) (p : Nat) : Mild v (v.drop p) :=
  .of_actors rfl rfl ⟨[_], rfl, by simp [Call.quiet]⟩

theorem Mild.enqueue (v : View) (p : Nat) : Mild v (v.enqueue p) :=
  .of_actors rfl rfl ⟨[_], rfl, by simp [Call.quiet]⟩

theorem Mild.enlist (v : View) (p : Nat) : Mild v (v.enlist p) :=
  .of_actors rfl rfl ⟨[], rfl, by simp⟩

theorem Mild.unlist (v : View) (p : Nat) : Mild v (v.unlist p) :=
  .of_actors rfl rfl ⟨[], rfl, by simp⟩

theorem Mild.modify (v : View) (p : Nat) {f : Actor → Actor}
    (type : ∀ actor, (f actor).tcpPeerType = actor.tcpPeerType)
    (service : ∀ actor, (f actor).serviceType = actor.serviceType)
    (paired : ∀ actor q, (f actor).pairedPeer = some q → actor.pairedPeer = some q) :
    Mild v (v.modify p f) where
  next := Nat.le_refl _
  log := ⟨[], rfl, by simp⟩
  old q actor' _ found := by
    rw [modify_actors] at found
    by_cases here : q = p
    · subst here
      rw [Function.update_self, Option.map_eq_some_iff] at found
      obtain ⟨actor, live, rfl⟩ := found
      exact ⟨actor, live, type actor, service actor⟩
    · rw [Function.update_of_ne here] at found
      exact ⟨actor', found, rfl, rfl⟩
  new q actor' outside found := by
    rw [(v.modify p f).fresh q outside] at found
    cases found
  pairs q r partner := by
    rw [pairedOf, modify_actors] at partner
    by_cases here : q = p
    · subst here
      rw [Function.update_self] at partner
      obtain ⟨actor', found, back⟩ := Option.bind_eq_some_iff.mp partner
      obtain ⟨actor, live, rfl⟩ := Option.map_eq_some_iff.mp found
      rw [pairedOf, live]
      exact paired actor r back
    · rwa [Function.update_of_ne here] at partner

theorem Mild.remove (v : View) (p : Nat) : Mild v (v.remove p) where
  next := Nat.le_refl _
  log := ⟨[], rfl, by simp⟩
  old q actor' _ found := by
    by_cases here : q = p
    · simp [View.remove, here] at found
    · simp only [View.remove, Function.update_of_ne here] at found
      exact ⟨actor', found, rfl, rfl⟩
  new q actor' outside found := by
    rw [(v.remove p).fresh q outside] at found
    cases found
  pairs q r partner := by
    rw [pairedOf_remove, Pairings.clear_some] at partner
    exact partner.2

/-- A new peer without a partner, in the service of the proxy when it is a client's. -/
theorem Mild.alloc (v : View) {actor : Actor} (alone : actor.pairedPeer = none)
    (service : actor.tcpPeerType = .client → actor.serviceType = .httpProxy) :
    Mild v (v.alloc actor) where
  next := Nat.le_succ _
  log := ⟨[], rfl, by simp⟩
  old q actor' inside found := by
    simp only [View.alloc, Function.update_of_ne (Nat.ne_of_lt inside)] at found
    exact ⟨actor', found, rfl, rfl⟩
  new q actor' outside found := by
    by_cases here : q = v.next
    · simp only [View.alloc, here, Function.update_self, Option.some.injEq] at found
      exact found ▸ service
    · simp only [View.alloc, Function.update_of_ne here] at found
      rw [v.fresh q outside] at found
      cases found
  pairs q r partner := by rwa [pairedOf_alloc v alone] at partner

theorem Mild.unpair (v : View) (p : Nat) : Mild v (v.unpair p) :=
  .modify v p (fun _ => rfl) (fun _ => rfl) (by simp)

theorem Mild.cancel (v : View) (p : Nat) : Mild v (v.cancel p) := by
  unfold View.cancel
  cases v.pairedOf p with
  | none => exact .unpair v p
  | some q => exact (Mild.unpair v q).trans (.unpair _ p)

theorem Mild.touch (v : View) (p : Nat) {f : Actor → Actor}
    (type : ∀ actor, (f actor).tcpPeerType = actor.tcpPeerType)
    (service : ∀ actor, (f actor).serviceType = actor.serviceType)
    (paired : ∀ actor, (f actor).pairedPeer = actor.pairedPeer) : Mild v (v.modify p f) :=
  .modify v p type service fun actor _ same => paired actor ▸ same

theorem Mild.teardown (v : View) (p : Nat) : Mild v (v.teardown p) := .note v rfl

theorem Mild.clientInfo (v : View) (p : Nat) (info : TcpClientInfo) :
    Mild v (v.clientInfo p info) :=
  .touch v p (fun _ => rfl) (fun _ => rfl) fun _ => rfl

theorem Mild.setStatus (v : View) (p : Nat) (status : TcpClientStatus) :
    Mild v (v.setStatus p status) :=
  .touch v p (fun _ => rfl) (fun _ => rfl) fun _ => rfl

theorem Mild.setWait (v : View) (p : Nat) (armed : Bool) : Mild v (v.setWait p armed) :=
  .touch v p (fun _ => rfl) (fun _ => rfl) fun _ => rfl

theorem Mild.forgetInfo (v : View) (p : Nat) : Mild v (v.forgetInfo p) :=
  .touch v p (fun _ => rfl) (fun _ => rfl) fun _ => rfl

theorem Mild.closePeer (v : View) (p : Nat) : Mild v (v.closePeer p) := by
  unfold View.closePeer
  split
  · exact (((((Mild.cancel v p).trans (.forgetInfo _ p)).trans (.clientInfo _ p _)).trans
      (.teardown _ p)).trans (.setStatus _ p _))
  · have begun : Mild v (v.modify p fun actor =>
        { actor with tDnsWaitAck := false, tInfoDeal := none }) :=
      .touch v p (fun _ => rfl) (fun _ => rfl) fun _ => rfl
    have ended (v : View) : Mild v (v.serverInfo p .break') :=
      .touch v p (fun _ => rfl) (fun _ => rfl) fun _ => rfl
    exact (((begun.trans (.cancel _ p)).trans (.forgetInfo _ p)).trans (ended _)).trans
      (.teardown _ p)

theorem Closed.mild (closed : Closed p v v') : Mild v v' := by
  rw [closed.result]
  obtain ⟨same, _⟩ | ⟨q, _, same⟩ := closePaired_cases v p
  · rw [same]
    exact .closePeer v p
  · rw [same]
    exact (Mild.closePeer v q).trans (.closePeer _ p)

theorem Started.mild (started : Started p v v') : Mild v v' := by
  cases started with
  | connects => exact .setStatus v p _
  | fails =>
      have noted : Mild v (v.note (.connectFailed p (v.pairedOf p))) := .note v rfl
      exact (noted.trans (.clientInfo _ p _)).trans (.teardown _ p)
  | ignored => exact .refl v

theorem Mild.wait (v : View) (p id : Nat) : Mild v (v.wait p id) := by
  have identified : Mild v (v.modify p fun actor => { actor with dnsTransactionID := id }) :=
    .touch v p (fun _ => rfl) (fun _ => rfl) fun _ => rfl
  exact (identified.trans (.enqueue _ p)).trans (.setWait _ p true)

theorem Resolved.mild {server client : Nat} (resolved : Resolved server client v v') :
    Mild v v' := by
  cases resolved with
  | starts started => exact started.mild
  | waits id => exact .wait v server id
  | unsent closed => exact closed.mild

theorem Written.mild (written : Written p v v') : Mild v v' := by
  obtain rfl | closed := written
  · exact .refl _
  · exact closed.mild

theorem Mild.delete (v : View) (p : Nat) : Mild v (v.delete p) := by
  have noted : Mild v (v.note (.deleted p)) := .note v rfl
  have off (v : View) : Mild v (v.modify p fun actor =>
      { actor with tInfoDeal := none, tDnsWaitAck := false }) :=
    .touch v p (fun _ => rfl) (fun _ => rfl) fun _ => rfl
  exact ((((noted.trans (off _)).trans (.cancel _ p)).trans (.unlist _ p)).trans
    (.drop _ p)).trans (.remove _ p)

theorem Mild.infoRun (v : View) (p : Nat) : Mild v (v.infoRun p) := by
  have noted : Mild v (v.note (.infoRun p (v.typeOf p) (decide (p ∈ v.listed)))) := .note v rfl
  exact noted.trans (.touch _ p (fun _ => rfl) (fun _ => rfl) fun _ => rfl)

theorem Infos.mild {ι : Type} {infos : Actor → List ι} {rest : List ι → Actor → Actor}
    {ends : ι → Prop} {kind : InfoDeal} {n : Nat} (turns : Infos p infos rest ends kind n v v')
    (take : ∀ (v : View) others, Mild v (v.modify p (rest others))) : Mild v v' := by
  induction turns with
  | out => exact .refl _
  | empty => exact .refl _
  | later => exact .touch _ p (fun _ => rfl) (fun _ => rfl) fun _ => rfl
  | keep _ _ _ _ _ ih => exact (take _ _).trans ih
  | delete _ _ _ _ _ _ ih => exact ((take _ _).trans (.delete _ p)).trans ih

theorem Mild.answer (v : View) (p address : Nat) : Mild v (v.answer p address) := by
  have noted : Mild v (v.note (.answered p address (v.pairedOf p))) := .note v rfl
  exact (noted.trans (.drop _ p)).trans (.setWait _ p false)

theorem Mild.accept (v : View) : Mild v v.accept :=
  (Mild.alloc v rfl fun _ => rfl).trans (.enlist _ _)

/-- Only reading is more than mild. -/
theorem Step.mild_or_reads (step : Step v v') : Mild v v' ∨ ∃ p, Reads p v v' := by
  cases step with
  | accept => exact .inl (.accept v)
  | reads p reads => exact .inr ⟨p, reads⟩
  | closes p closed => exact .inl closed.mild
  | establishes p =>
      exact .inl (((Mild.enlist v p).trans (.clientInfo _ p _)).trans (.setStatus _ p _))
  | clientInfos p _ _ turns =>
      exact .inl ((Mild.infoRun v p).trans (turns.mild fun v _ =>
        .touch v p (fun _ => rfl) (fun _ => rfl) fun _ => rfl))
  | serverInfos p _ _ turns =>
      exact .inl ((Mild.infoRun v p).trans (turns.mild fun v _ =>
        .touch v p (fun _ => rfl) (fun _ => rfl) fun _ => rfl))
  | timeout p closed =>
      exact .inl (((Mild.setWait v p false).trans (.drop _ p)).trans closed.mild)
  | noAddress p => exact .inl (.answer v p 0)
  | answered p _ _ started => exact .inl ((Mild.answer v p _).trans started.mild)

end View

end Poplar.Proxy
