import Poplar.Lib.Pairings
import Poplar.Proxy.View

/-!
# What the operations on views change

One equation for each operation and each part of the view that somebody asks for: the
partners, the sides and services of peers, the log, the lists.
-/
namespace Poplar.Proxy.View

variable (v : View) (p q : Nat)

theorem remove_actors : (v.remove p).actors = Function.update v.actors p none := rfl

theorem accept_actors : v.accept.actors = Function.update v.actors v.next (some clientActor) := rfl

/-! ## Partners -/

@[simp] theorem pairedOf_note (call : Call) : (v.note call).pairedOf = v.pairedOf := rfl

@[simp] theorem pairedOf_enlist : (v.enlist p).pairedOf = v.pairedOf := rfl

@[simp] theorem pairedOf_unlist : (v.unlist p).pairedOf = v.pairedOf := rfl

@[simp] theorem pairedOf_drop : (v.drop p).pairedOf = v.pairedOf := rfl

@[simp] theorem pairedOf_enqueue : (v.enqueue p).pairedOf = v.pairedOf := rfl

theorem bind_modify {β : Type} {f : Actor → Actor} {g : Actor → Option β}
    (same : ∀ actor, g (f actor) = g actor) :
    ((v.modify p f).actors q).bind g = (v.actors q).bind g := by
  rw [modify_actors]
  by_cases here : q = p
  · subst here
    rw [Function.update_self, Option.bind_map]
    exact congrArg _ (funext same)
  · rw [Function.update_of_ne here]

theorem pairedOf_modify {f : Actor → Actor} (same : ∀ actor, (f actor).pairedPeer = actor.pairedPeer) :
    (v.modify p f).pairedOf = v.pairedOf :=
  funext fun q => bind_modify v p q same

@[simp] theorem pairedOf_unpair : (v.unpair p).pairedOf = Pairings.clear v.pairedOf p := by
  funext q
  by_cases here : q = p
  · subst here
    rw [pairedOf, unpair, modify_actors, Function.update_self, Pairings.clear, Function.update_self]
    cases v.actors q <;> rfl
  · rw [pairedOf, unpair, modify_actors, Function.update_of_ne here, Pairings.clear,
      Function.update_of_ne here, pairedOf]

@[simp] theorem pairedOf_cancel : (v.cancel p).pairedOf = Pairings.cancel v.pairedOf p := by
  unfold View.cancel Pairings.cancel
  cases v.pairedOf p <;> simp only [pairedOf_unpair]

@[simp] theorem pairedOf_remove : (v.remove p).pairedOf = Pairings.clear v.pairedOf p := by
  funext q
  by_cases here : q = p
  · simp [pairedOf, remove, Pairings.clear, here]
  · simp [pairedOf, remove, Pairings.clear, here]

theorem pairedOf_fresh (outside : v.next ≤ p) : v.pairedOf p = none := by
  rw [pairedOf, v.fresh p outside, Option.bind_none]

theorem pairedOf_alloc {actor : Actor} (alone : actor.pairedPeer = none) :
    (v.alloc actor).pairedOf = v.pairedOf := by
  funext q
  by_cases here : q = v.next
  · rw [here, pairedOf_fresh v _ (Nat.le_refl _)]
    simpa [pairedOf, alloc] using alone
  · simp [pairedOf, alloc, here]

theorem pairedOf_pair {v : View} {p q : Nat} (liveP : (v.actors p).isSome)
    (liveQ : (v.actors q).isSome) : (v.pair p q).pairedOf = Pairings.join v.pairedOf p q := by
  obtain ⟨actorP, foundP⟩ := Option.isSome_iff_exists.mp liveP
  obtain ⟨actorQ, foundQ⟩ := Option.isSome_iff_exists.mp liveQ
  funext r
  unfold Pairings.join
  by_cases isQ : r = q
  · subst isQ
    by_cases same : r = p
    · subst same
      simp [pairedOf, pair, note, modify_actors, foundP]
    · simp [pairedOf, pair, note, modify_actors, foundQ, same]
  · by_cases isP : r = p
    · subst isP
      simp [pairedOf, pair, note, modify_actors, foundP, isQ]
    · simp [pairedOf, pair, note, modify_actors, isP, isQ]

theorem live_of_type {v : View} {p : Nat} {side : TcpPeerType} (type : v.typeOf p = some side) :
    (v.actors p).isSome := by
  rw [typeOf, Option.map_eq_some_iff] at type
  obtain ⟨actor, found, _⟩ := type
  rw [found]
  rfl

theorem inside_of_live {v : View} {p : Nat} (live : (v.actors p).isSome) : p < v.next := by
  by_contra outside
  simp [v.fresh p (Nat.not_lt.mp outside)] at live

/-- The new server-side peer and its client are joined. -/
theorem pairedOf_openServer {v : View} {p : Nat} (live : (v.actors p).isSome) :
    (v.openServer p).pairedOf = Pairings.join v.pairedOf v.next p := by
  have other : p ≠ v.next := Nat.ne_of_lt (inside_of_live live)
  rw [openServer, pairedOf_pair (by simp [alloc]) (by simp [alloc, other, live]),
    pairedOf_alloc v rfl]

theorem openServer_actors {v : View} {p q : Nat} (notClient : q ≠ p) (notServer : q ≠ v.next) :
    (v.openServer p).actors q = v.actors q := by
  simp [openServer, pair, note, modify_actors, alloc, notClient, notServer]

/-- Sides and services of the peers there before stay. -/
theorem openServer_sides {v : View} {p q : Nat} {actor' : Actor} (live : (v.actors p).isSome)
    (found : (v.openServer p).actors q = some actor') :
    (q = v.next ∧ actor'.tcpPeerType = .server) ∨ ∃ actor, v.actors q = some actor ∧
      actor'.tcpPeerType = actor.tcpPeerType ∧ actor'.serviceType = actor.serviceType := by
  have other : p ≠ v.next := Nat.ne_of_lt (inside_of_live live)
  by_cases notServer : q = v.next
  · subst notServer
    simp only [openServer, pair, note, modify_actors, alloc, Function.update_of_ne (Ne.symm other),
      Function.update_self, Option.map_some, Option.some.injEq] at found
    exact .inl ⟨rfl, by rw [← found]; rfl⟩
  · refine .inr ?_
    by_cases notClient : q = p
    · subst notClient
      simp only [openServer, pair, note, modify_actors, alloc, Function.update_of_ne notServer,
        Function.update_self, Option.map_eq_some_iff] at found
      obtain ⟨actor, there, rfl⟩ := found
      exact ⟨actor, there, rfl, rfl⟩
    · rw [openServer_actors notClient notServer] at found
      exact ⟨actor', found, rfl, rfl⟩

theorem openServer_log (v : View) (p : Nat) :
    (v.openServer p).log = .paired v.next p (v.pairedOf v.next) (v.pairedOf p) :: v.log := by
  rw [← pairedOf_alloc v (rfl : serverActor.pairedPeer = none)]
  rfl

@[simp] theorem pairedOf_closePeer : (v.closePeer p).pairedOf = Pairings.cancel v.pairedOf p := by
  unfold closePeer
  split
  · simp [stop, setStatus, teardown, clientInfo, forgetInfo, pairedOf_modify]
  · simp [close, teardown, serverInfo, forgetInfo, pairedOf_modify]

@[simp] theorem pairedOf_delete : (v.delete p).pairedOf = Pairings.clear (Pairings.cancel v.pairedOf p) p := by
  simp [delete, pairedOf_modify]

@[simp] theorem pairedOf_start (connects : Bool) : (v.start p connects).pairedOf = v.pairedOf := by
  cases connects <;> simp [start, setStatus, teardown, clientInfo, pairedOf_modify]

@[simp] theorem pairedOf_establish : (v.establish p).pairedOf = v.pairedOf := by
  simp [establish, setStatus, clientInfo, pairedOf_modify]

@[simp] theorem pairedOf_setWait (armed : Bool) : (v.setWait p armed).pairedOf = v.pairedOf := by
  simp [setWait, pairedOf_modify]

@[simp] theorem pairedOf_wait (id : Nat) : (v.wait p id).pairedOf = v.pairedOf := by
  simp [wait, pairedOf_modify]

@[simp] theorem pairedOf_answer (address : Nat) : (v.answer p address).pairedOf = v.pairedOf := by
  simp [answer]

@[simp] theorem pairedOf_infoRun : (v.infoRun p).pairedOf = v.pairedOf := by
  simp [infoRun, pairedOf_modify]

@[simp] theorem pairedOf_accept : v.accept.pairedOf = v.pairedOf := by
  simp [accept, pairedOf_alloc, clientActor]

theorem closePaired_cases : v.closePaired p = v.closePeer p ∧ v.pairedOf p = none ∨
    ∃ q, v.pairedOf p = some q ∧ v.closePaired p = (v.closePeer q).closePeer p := by
  unfold closePaired
  cases partner : v.pairedOf p with
  | none => exact .inl ⟨rfl, rfl⟩
  | some q => exact .inr ⟨q, rfl, rfl⟩

/-! ## Sides and services -/

theorem map_modify {β : Type} {f : Actor → Actor} {g : Actor → β}
    (same : ∀ actor, g (f actor) = g actor) :
    ((v.modify p f).actors q).map g = (v.actors q).map g := by
  rw [modify_actors]
  by_cases here : q = p
  · subst here
    rw [Function.update_self, Option.map_map]
    exact congrArg (fun f => (v.actors q).map f) (funext same)
  · rw [Function.update_of_ne here]

theorem serviceOf_modify {f : Actor → Actor}
    (same : ∀ actor, (f actor).serviceType = actor.serviceType) :
    (v.modify p f).serviceOf q = v.serviceOf q :=
  map_modify v p q same

@[simp] theorem serviceOf_cancel : (v.cancel p).serviceOf q = v.serviceOf q := by
  unfold cancel
  cases v.pairedOf p <;> simp [unpair, serviceOf_modify]

/-! ## The log -/

@[simp] theorem log_note (call : Call) : (v.note call).log = call :: v.log := rfl

@[simp] theorem log_modify (f : Actor → Actor) : (v.modify p f).log = v.log := rfl

@[simp] theorem log_cancel : (v.cancel p).log = v.log := by
  unfold cancel
  cases v.pairedOf p <;> rfl

theorem log_closePeer : (v.closePeer p).log = .teardown p (v.serviceOf p) :: v.log := by
  unfold closePeer
  split
  · simp [stop, setStatus, teardown, note, clientInfo, serviceOf_modify, forgetInfo]
  · simp [close, teardown, note, serverInfo, serviceOf_modify, forgetInfo]

theorem log_fails : (v.start p false).log =
    .teardown p (v.serviceOf p) :: .connectFailed p (v.pairedOf p) :: v.log := by
  have same : ((v.note (.connectFailed p (v.pairedOf p))).clientInfo p .connectionError).serviceOf p =
      v.serviceOf p := serviceOf_modify _ _ _ fun _ => rfl
  rw [start, if_neg Bool.false_ne_true, teardown, same]
  rfl

/-- The calls a peer and its partner leave when both are closed. -/
theorem log_closePaired : ∃ calls, (v.closePaired p).log = calls ++ v.log ∧
    ∀ call ∈ calls, ∃ q service, call = .teardown q service := by
  obtain ⟨same, _⟩ | ⟨q, _, same⟩ := closePaired_cases v p
  · exact ⟨[_], by rw [same, log_closePeer]; rfl, by simp⟩
  · exact ⟨[_, _], by rw [same, log_closePeer, log_closePeer]; rfl, by simp⟩

theorem log_wait (id : Nat) : ∃ holder, (v.wait p id).log = .waitAdded p holder :: v.log :=
  ⟨_, rfl⟩

theorem log_delete : ∃ victim, (v.delete p).log = .waitDropped p victim :: .deleted p :: v.log := by
  refine ⟨_, congrArg (List.cons _) ?_⟩
  simp [unlist, note]

end Poplar.Proxy.View
