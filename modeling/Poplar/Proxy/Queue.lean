import Poplar.Proxy.Invariants
import Poplar.Proxy.Pairing

/-!
# The queue of peers that wait for an answer

No two queued peers have one transaction identifier, so the search by identifier is exact;
a release takes out whichever peer has the identifier of the peer it is given.
-/
namespace Poplar.Proxy

namespace View

/-- Queued peers are live server-side peers, sorted under their identifiers, each once and
no two under one. -/
structure Queued (v : View) : Prop where
  keyed : v.queue.Keyed v.waitFuncs
  live : ∀ p, v.queue.Stores p → ∃ actor, v.actors p = some actor ∧ actor.tcpPeerType = .server
  distinct : ∀ p q, v.queue.Stores p → v.queue.Stores q →
    v.waitFuncs.deref p = v.waitFuncs.deref q → p = q
  nodup : v.queue.datas.Nodup

variable {v v' : View} {p q id : Nat}

theorem Queued.lookup (queued : v.Queued) :
    dnsWaitAckQueueLookupByID v.queue id = some p ↔ v.queue.Stores p ∧ v.waitFuncs.deref p = id := by
  unfold dnsWaitAckQueueLookupByID
  constructor
  · intro found
    obtain ⟨backet, search, rfl⟩ := Option.map_eq_some_iff.mp found
    have member := List.mem_of_find?_eq_some search
    have key : backet.key = id := by simpa using List.find?_some search
    exact ⟨⟨_, backet, member, rfl⟩, (queued.keyed.key _ backet member).symm.trans key⟩
  · rintro ⟨⟨i, backet, member, rfl⟩, rfl⟩
    have key : backet.key = v.waitFuncs.deref backet.data := queued.keyed.key i backet member
    have bucket : v.waitFuncs.deref backet.data % v.queue.size = i := by
      rw [← key, queued.keyed.bucket i backet member]
    rw [bucket]
    cases search : (v.queue.index i).find? fun other => other.key == v.waitFuncs.deref backet.data with
    | none =>
        have misses := List.find?_eq_none.mp search backet member
        simp [key] at misses
    | some other =>
        have inBucket := List.mem_of_find?_eq_some search
        have same : other.key = v.waitFuncs.deref backet.data := by
          simpa using List.find?_some search
        have otherKey : other.key = v.waitFuncs.deref other.data :=
          queued.keyed.key i other inBucket
        rw [Option.map_some, queued.distinct other.data backet.data ⟨i, other, inBucket, rfl⟩
          ⟨i, backet, member, rfl⟩ (otherKey.symm.trans same)]

theorem Queued.datas (queued : v.Queued) : v.queue.Stores p ↔ p ∈ v.queue.datas :=
  queued.keyed.stores_iff

/-- A release takes out whoever has the identifier of `p`. -/
theorem Queued.drop (queued : v.Queued) (p : Nat) :
    (v.drop p).Queued ∧ ∀ q, (v.drop p).queue.Stores q ↔
      v.queue.Stores q ∧ v.waitFuncs.deref q ≠ v.waitFuncs.deref p := by
  by_cases held : ∃ q, v.queue.Stores q ∧ v.waitFuncs.deref q = v.waitFuncs.deref p
  · obtain ⟨holder, stored, same⟩ := held
    obtain ⟨_, keyed, perm⟩ := hashRelease_unique queued.keyed (v.waitFuncs.deref p)
      (queued.datas.mp stored) same (beq_iff_eq.mpr same) (by
        intro d member _ equal
        exact queued.distinct d holder (queued.datas.mpr member) stored
          ((beq_iff_eq.mp equal).trans same.symm))
    have nodup := perm.nodup_iff.mp queued.nodup
    have stores : ∀ q, (v.drop p).queue.Stores q ↔
        v.queue.Stores q ∧ v.waitFuncs.deref q ≠ v.waitFuncs.deref p := by
      intro q
      have left : (v.drop p).queue.Stores q ↔ q ∈ (v.drop p).queue.datas := keyed.stores_iff
      rw [left, queued.datas, perm.mem_iff, List.mem_cons]
      constructor
      · intro member
        refine ⟨.inr member, fun equal => ?_⟩
        have isHolder := queued.distinct q holder
          (queued.datas.mpr (perm.mem_iff.mpr (List.mem_cons_of_mem _ member))) stored
          (equal.trans same.symm)
        exact (List.nodup_cons.mp nodup).1 (isHolder ▸ member)
      · rintro ⟨rfl | member, different⟩
        · exact absurd same different
        · exact member
    refine ⟨⟨keyed, fun q there => queued.live q ((stores q).mp there).1, ?_,
      (List.nodup_cons.mp nodup).2⟩, stores⟩
    intro q r thereQ thereR equal
    exact queued.distinct q r ((stores q).mp thereQ).1 ((stores r).mp thereR).1 equal
  · have absent : hashRelease v.waitFuncs v.queue (v.waitFuncs.deref p) = (none, v.queue) := by
      refine hashRelease_absent queued.keyed fun d member equal => ?_
      exact absurd ⟨d, queued.datas.mpr member, equal⟩ held
    have same : (v.drop p).queue = v.queue := by simp only [View.drop, absent]
    refine ⟨⟨same ▸ queued.keyed, same ▸ queued.live, same ▸ queued.distinct, same ▸ queued.nodup⟩,
      fun q => ?_⟩
    rw [same]
    exact ⟨fun there => ⟨there, fun equal => held ⟨q, there, equal⟩⟩, fun both => both.1⟩

theorem Queued.victim (queued : v.Queued) (stored : v.queue.Stores p)
    (equal : v.waitFuncs.deref p = v.waitFuncs.deref q) :
    (hashRelease v.waitFuncs v.queue (v.waitFuncs.deref q)).1 = some p := by
  refine (hashRelease_unique queued.keyed _ (queued.datas.mp stored) equal
    (beq_iff_eq.mpr equal) ?_).1
  intro d member _ same
  exact queued.distinct d p (queued.datas.mpr member) stored
    ((beq_iff_eq.mp same).trans equal.symm)

/-! ## Who a peer is -/

/-- What is fixed when a peer is made, and the identifier of its query. -/
def identity (v : View) (p : Nat) : Option (ServiceType × TcpPeerType × Nat) :=
  (v.actors p).map fun actor => (actor.serviceType, actor.tcpPeerType, actor.dnsTransactionID)

theorem identity_modify {f : Actor → Actor} (service : ∀ actor, (f actor).serviceType = actor.serviceType)
    (type : ∀ actor, (f actor).tcpPeerType = actor.tcpPeerType)
    (id : ∀ actor, (f actor).dnsTransactionID = actor.dnsTransactionID) :
    (v.modify p f).identity = v.identity := by
  funext q
  refine map_modify v p q fun actor => ?_
  rw [service, type, id]

@[simp] theorem identity_unpair : (v.unpair p).identity = v.identity :=
  identity_modify (fun _ => rfl) (fun _ => rfl) fun _ => rfl

@[simp] theorem identity_cancel : (v.cancel p).identity = v.identity := by
  unfold cancel
  cases v.pairedOf p <;> simp

@[simp] theorem identity_note (call : Call) : (v.note call).identity = v.identity := rfl

@[simp] theorem identity_drop : (v.drop p).identity = v.identity := rfl

@[simp] theorem identity_setWait (armed : Bool) : (v.setWait p armed).identity = v.identity :=
  identity_modify (fun _ => rfl) (fun _ => rfl) fun _ => rfl

@[simp] theorem identity_closePeer : (v.closePeer p).identity = v.identity := by
  unfold closePeer
  split
  · simp [stop, setStatus, teardown, clientInfo, forgetInfo, identity_modify]
  · simp [close, teardown, serverInfo, forgetInfo, identity_modify]

@[simp] theorem identity_start (connects : Bool) : (v.start p connects).identity = v.identity := by
  cases connects <;> simp [start, setStatus, teardown, clientInfo, identity_modify]

@[simp] theorem identity_establish : (v.establish p).identity = v.identity := by
  have enlisted : (v.enlist p).identity = v.identity := rfl
  simp [establish, setStatus, clientInfo, identity_modify, enlisted]

@[simp] theorem identity_infoRun : (v.infoRun p).identity = v.identity := by
  simp [infoRun, identity_modify]

@[simp] theorem identity_answer (address : Nat) : (v.answer p address).identity = v.identity := by
  simp [answer]

theorem identity_alloc (actor : Actor) : (v.alloc actor).identity =
    Function.update v.identity v.next
      (some (actor.serviceType, actor.tcpPeerType, actor.dnsTransactionID)) := by
  funext q
  by_cases here : q = v.next
  · simp [identity, alloc, here]
  · simp [identity, alloc, here]

theorem identity_pair : (v.pair p q).identity = v.identity := by
  simp [pair, identity_modify]

theorem identity_openServer : (v.openServer p).identity =
    Function.update v.identity v.next (some (.httpProxy, .server, 0)) := by
  rw [openServer, identity_pair, identity_alloc]
  rfl

theorem identity_remove : (v.remove p).identity = Function.update v.identity p none := by
  funext q
  by_cases here : q = p
  · simp [identity, remove, here]
  · simp [identity, remove, here]

/-- What a deletion does before it releases the identifier. -/
def retire (v : View) (p : Nat) : View :=
  ((((v.note (.deleted p)).modify p fun actor =>
    { actor with tInfoDeal := none, tDnsWaitAck := false }).cancel p).unlist p)

theorem delete_eq : v.delete p = ((v.retire p).drop p).remove p := rfl

@[simp] theorem identity_retire : (v.retire p).identity = v.identity := by
  have unlisted (w : View) : (w.unlist p).identity = w.identity := rfl
  simp [retire, unlisted, identity_modify]

theorem identity_delete : (v.delete p).identity = Function.update v.identity p none := by
  rw [delete_eq, identity_remove, identity_drop, identity_retire]

/-! ## What the operations do to the queue -/

@[simp] theorem queue_cancel : (v.cancel p).queue = v.queue := by
  unfold cancel
  cases v.pairedOf p <;> rfl

@[simp] theorem queue_closePeer : (v.closePeer p).queue = v.queue := by
  unfold closePeer
  split
  · exact queue_cancel
  · exact queue_cancel

@[simp] theorem queue_start (connects : Bool) : (v.start p connects).queue = v.queue := by
  cases connects <;> rfl

@[simp] theorem queue_retire : (v.retire p).queue = v.queue := queue_cancel

theorem deref_identity : v.waitFuncs.deref p = ((v.identity p).map fun known => known.2.2).getD 0 := by
  simp [waitFuncs, identity, Function.comp_def]

theorem waitFuncs_congr (same : v'.identity p = v.identity p) :
    v'.waitFuncs.deref p = v.waitFuncs.deref p := by
  rw [deref_identity, deref_identity, same]

/-- Only the queued peers need to be who they were. -/
theorem Queued.congr (queued : v.Queued) (queue : v'.queue = v.queue)
    (same : ∀ p, v.queue.Stores p → v'.identity p = v.identity p) : v'.Queued := by
  refine ⟨?_, ?_, ?_, ?_⟩
  · rw [queue]
    refine queued.keyed.congr fun i backet member => ?_
    exact waitFuncs_congr (same _ ⟨i, backet, member, rfl⟩)
  · intro p stored
    rw [queue] at stored
    obtain ⟨actor, found, server⟩ := queued.live p stored
    have known := same p stored
    rw [identity, identity, found] at known
    obtain ⟨actor', found', parts⟩ := Option.map_eq_some_iff.mp known
    exact ⟨actor', found', (Prod.mk.inj (Prod.mk.inj parts).2).1.trans server⟩
  · intro p q storedP storedQ equal
    rw [queue] at storedP storedQ
    rw [waitFuncs_congr (same p storedP), waitFuncs_congr (same q storedQ)] at equal
    exact queued.distinct p q storedP storedQ equal
  · rw [queue]
    exact queued.nodup

theorem Queued.inside (queued : v.Queued) (stored : v.queue.Stores p) : p < v.next := by
  obtain ⟨actor, found, _⟩ := queued.live p stored
  exact inside_of_live (Option.isSome_of_eq_some found)

/-- A peer whose identifier nobody in the queue has is queued; otherwise the queue stays. -/
theorem Queued.enqueue (queued : v.Queued) (server : ∃ actor, v.actors p = some actor ∧
    actor.tcpPeerType = .server) (absent : ¬ v.queue.Stores p) :
    (v.enqueue p).Queued ∧ (∀ q, v.queue.Stores q → (v.enqueue p).queue.Stores q) ∧
      (∀ q, (v.enqueue p).queue.Stores q → v.queue.Stores q ∨ q = p) ∧
      (hashLookup v.waitFuncs v.queue (v.waitFuncs.deref p) = none →
        (v.enqueue p).queue.Stores p) := by
  by_cases held : ∃ q, v.queue.Stores q ∧ v.waitFuncs.deref q = v.waitFuncs.deref p
  · obtain ⟨holder, stored, equal⟩ := held
    obtain ⟨own, member, data⟩ := queued.keyed.mem_datas.mp (queued.datas.mp stored)
    have hits : v.waitFuncs.hit (v.waitFuncs.deref p) own = true := by
      have key : own.key = v.waitFuncs.deref own.data := queued.keyed.key _ own member
      rw [data, equal] at key
      rw [HashFuncs.hit, Bool.and_eq_true, data, equal, key]
      exact ⟨beq_self_eq_true _, beq_self_eq_true _⟩
    have bucket : v.waitFuncs.hashKey (v.waitFuncs.deref holder) =
        v.waitFuncs.hashKey (v.waitFuncs.deref p) := congrArg _ equal
    rw [bucket] at member
    have found : ∃ backet, (v.queue.index (v.waitFuncs.hashKey (v.waitFuncs.deref p) %
        v.queue.size)).find? (v.waitFuncs.hit (v.waitFuncs.deref p)) = some backet := by
      refine Option.isSome_iff_exists.mp (List.find?_isSome.mpr ⟨own, member, hits⟩)
    obtain ⟨backet, search⟩ := found
    have same : (v.enqueue p).queue = v.queue := by simp only [View.enqueue, hashGet, search]
    refine ⟨queued.congr same fun _ _ => rfl, ?_, ?_, ?_⟩
    · intro q there
      rwa [same]
    · intro q there
      rw [same] at there
      exact .inl there
    · intro none
      simp [hashLookup, hashGet, search] at none
  · have fresh : ∀ d ∈ v.queue.datas, v.waitFuncs.hashKey (v.waitFuncs.deref d) =
        v.waitFuncs.hashKey (v.waitFuncs.deref p) →
        v.waitFuncs.hashCmp (v.waitFuncs.deref d) (v.waitFuncs.deref p) = false := by
      intro d member equal
      exact absurd ⟨d, queued.datas.mpr member, equal⟩ held
    obtain ⟨_, keyed, perm⟩ := hashGet_insert queued.keyed p rfl fresh
    have stores : ∀ q, (v.enqueue p).queue.Stores q ↔ q = p ∨ v.queue.Stores q := by
      intro q
      have left : (v.enqueue p).queue.Stores q ↔ q ∈ (v.enqueue p).queue.datas := keyed.stores_iff
      rw [left, queued.datas]
      exact perm.mem_iff.trans List.mem_cons
    refine ⟨⟨keyed, ?_, ?_, ?_⟩, ?_, ?_, ?_⟩
    · intro q there
      rcases (stores q).mp there with rfl | before
      · exact server
      · exact queued.live q before
    · intro q r thereQ thereR equal
      rcases (stores q).mp thereQ with rfl | beforeQ
      · rcases (stores r).mp thereR with rfl | beforeR
        · rfl
        · exact absurd ⟨r, beforeR, equal.symm⟩ held
      · rcases (stores r).mp thereR with rfl | beforeR
        · exact absurd ⟨q, beforeQ, equal⟩ held
        · exact queued.distinct q r beforeQ beforeR equal
    · refine perm.nodup_iff.mpr (List.nodup_cons.mpr ⟨fun member => ?_, queued.nodup⟩)
      exact absent (queued.datas.mpr member)
    · exact fun q there => (stores q).mpr (.inr there)
    · exact fun q there => ((stores q).mp there).symm
    · exact fun _ => (stores p).mpr (.inl rfl)

theorem Queued.wait (queued : v.Queued) (server : ∃ actor, v.actors p = some actor ∧
    actor.tcpPeerType = .server) (absent : ¬ v.queue.Stores p) (id : Nat) :
    (v.wait p id).Queued ∧ (∀ q, v.queue.Stores q → (v.wait p id).queue.Stores q) ∧
      (∀ q, (v.wait p id).queue.Stores q → v.queue.Stores q ∨ q = p) ∧
      (.waitAdded p none ∈ (v.wait p id).log.head? → (v.wait p id).queue.Stores p) := by
  set named := v.modify p fun actor => { actor with dnsTransactionID := id } with isNamed
  have again : named.Queued := by
    refine queued.congr rfl fun q there => ?_
    have other : q ≠ p := fun same => absent (same ▸ there)
    rw [identity, isNamed, modify_actors, Function.update_of_ne other]
    rfl
  obtain ⟨actor, found, type⟩ := server
  have typed : ∃ actor, named.actors p = some actor ∧ actor.tcpPeerType = .server := by
    refine ⟨{ actor with dnsTransactionID := id }, ?_, type⟩
    rw [isNamed, modify_actors, Function.update_self, found]
    rfl
  obtain ⟨added, more, only, holds⟩ := again.enqueue typed absent
  refine ⟨added.congr rfl fun q _ => ?_, more, only, fun noted => holds ?_⟩
  · exact congrFun (identity_setWait true) q
  · simpa [View.wait, setWait, View.enqueue, note] using noted

theorem Queued.delete (queued : v.Queued) (live : (v.actors p).isSome) :
    (v.delete p).Queued ∧ ∀ q, (v.delete p).queue.Stores q ↔
      v.queue.Stores q ∧ v.waitFuncs.deref q ≠ v.waitFuncs.deref p := by
  have retired : (v.retire p).Queued := queued.congr queue_retire fun q _ => by rw [identity_retire]
  have funcs (q : Nat) : (v.retire p).waitFuncs.deref q = v.waitFuncs.deref q :=
    waitFuncs_congr (congrFun identity_retire q)
  obtain ⟨dropped, stores⟩ := retired.drop p
  have left : ∀ q, (v.delete p).queue.Stores q ↔
      v.queue.Stores q ∧ v.waitFuncs.deref q ≠ v.waitFuncs.deref p := by
    intro q
    have left := stores q
    rwa [queue_retire, funcs, funcs] at left
  refine ⟨dropped.congr rfl fun q there => ?_, left⟩
  -- the peer itself is not queued any more
  have other : q ≠ p := by
    rintro rfl
    exact ((left q).mp there).2 rfl
  rw [delete_eq, identity_remove, Function.update_of_ne other]

/-! ## Every view -/

theorem Opened.same {c : Nat} {m : View} (opened : Opened c v m) :
    m.actors = (v.openServer c).actors ∧ m.queue = v.queue ∧ m.next = v.next + 1 ∧
      m.listed = v.listed := by
  induction opened with
  | made => exact ⟨rfl, rfl, rfl, rfl⟩
  | note _ _ ih => exact ih

theorem Opened.identity {c : Nat} {m : View} (opened : Opened c v m) :
    m.identity = Function.update v.identity v.next (some (.httpProxy, .server, 0)) := by
  rw [← identity_openServer (p := c)]
  funext q
  rw [View.identity, opened.same.1]
  rfl

theorem Opened.queued {c : Nat} {m : View} (opened : Opened c v m) (queued : v.Queued) :
    m.Queued := by
  refine queued.congr opened.same.2.1 fun q there => ?_
  rw [opened.identity, Function.update_of_ne (Nat.ne_of_lt (queued.inside there))]

theorem Opened.server {c : Nat} {m : View} (opened : Opened c v m) :
    ∃ actor, m.actors v.next = some actor ∧ actor.tcpPeerType = .server := by
  have known : m.identity v.next = some (.httpProxy, .server, 0) := by
    rw [opened.identity, Function.update_self]
  obtain ⟨actor, found, parts⟩ := Option.map_eq_some_iff.mp known
  exact ⟨actor, found, (Prod.mk.inj (Prod.mk.inj parts).2).1⟩

theorem Opened.absent {c : Nat} {m : View} (opened : Opened c v m) (queued : v.Queued) :
    ¬ m.queue.Stores v.next := by
  rw [opened.same.2.1]
  exact fun there => absurd (queued.inside there) (Nat.lt_irrefl _)

theorem Queued.answer {address : Nat} (queued : v.Queued) : (v.answer p address).Queued := by
  have noted : (v.note (.answered p address (v.pairedOf p))).Queued := queued.congr rfl fun _ _ => rfl
  exact (noted.drop p).1.congr rfl fun q _ => congrFun (identity_setWait false) q

theorem Queued.same (queued : v.Queued) (queue : v'.queue = v.queue)
    (same : v'.identity = v.identity) : v'.Queued :=
  queued.congr queue fun q _ => congrFun same q

theorem Queued.touch (queued : v.Queued) {f : Actor → Actor}
    (service : ∀ actor, (f actor).serviceType = actor.serviceType)
    (type : ∀ actor, (f actor).tcpPeerType = actor.tcpPeerType)
    (id : ∀ actor, (f actor).dnsTransactionID = actor.dnsTransactionID) : (v.modify p f).Queued :=
  queued.same rfl (identity_modify service type id)

theorem Queued.closePeer (queued : v.Queued) : (v.closePeer p).Queued :=
  queued.same queue_closePeer identity_closePeer

theorem Queued.started (queued : v.Queued) (started : Started p v v') : v'.Queued :=
  started.keeps (fun connects _ queued =>
    queued.same (queue_start connects) (identity_start connects)) queued

theorem kept_queued : Kept Queued where
  accept {v} queued := by
    refine queued.congr rfl fun q there => ?_
    have enlisted : v.accept.identity = (v.alloc clientActor).identity := rfl
    rw [enlisted, identity_alloc, Function.update_of_ne (Nat.ne_of_lt (queued.inside there))]
  note _ queued := queued.same rfl (identity_note _)
  closePeer _ queued := queued.closePeer
  request _ opened resolved queued := by
    have begun := opened.queued queued
    cases resolved with
    | starts started => exact begun.started started
    | waits id => exact (begun.wait opened.server (opened.absent queued) id).1
    | unsent closed => exact closed.keeps (fun _ queued => queued.closePeer) begun
  establish _ queued := queued.same rfl identity_establish
  clientInfos _ turns queued :=
    turns.keeps (fun _ _ queued => queued.touch (fun _ => rfl) (fun _ => rfl) fun _ => rfl)
      (fun _ _ queued => queued.touch (fun _ => rfl) (fun _ => rfl) fun _ => rfl)
      (fun live queued => (queued.delete live).1) (queued.same rfl identity_infoRun)
  serverInfos _ turns queued :=
    turns.keeps (fun _ _ queued => queued.touch (fun _ => rfl) (fun _ => rfl) fun _ => rfl)
      (fun _ _ queued => queued.touch (fun _ => rfl) (fun _ => rfl) fun _ => rfl)
      (fun live queued => (queued.delete live).1) (queued.same rfl identity_infoRun)
  timeout {v v' p} closed queued := by
    have off : (v.setWait p false).Queued := queued.same rfl (identity_setWait false)
    exact closed.keeps (fun _ queued => queued.closePeer) (off.drop p).1
  noAddress {v p} _ queued := queued.answer
  answered {v v' p address} _ _ started queued := queued.answer.started started

theorem queued_init : init.Queued := by
  have empty (p : Nat) : ¬ init.queue.Stores p := by
    rintro ⟨i, backet, member, _⟩
    cases member
  refine ⟨⟨by decide, ?_, ?_⟩, ?_, ?_, ?_⟩
  · intro i backet member
    cases member
  · intro i backet member
    cases member
  · exact fun p there => absurd there (empty p)
  · exact fun p q there => absurd there (empty p)
  · have none : init.queue.datas = [] := by
      simp [init, hashCreate, hashCreateSize, Hash.datas]
    rw [none]
    exact List.nodup_nil

theorem Reached.queued (reached : Reached v) : v.Queued := kept_queued.reached queued_init reached

end View

/-! ## Releases by the daemon -/

def Popd.idOf (s : Popd) (p : Nat) : Option Nat :=
  (s.peers p).map fun peer => peer.dnsTransactionID

/-- `q` is in the queue, and the search for its identifier finds it. -/
structure Popd.Findable (s : Popd) (q : Nat) : Prop where
  queued : s.dnsAckWaitQueue.Stores q
  found : ∃ id, s.idOf q = some id ∧ dnsWaitAckQueueLookupByID s.dnsAckWaitQueue id = some q

theorem idOf_view {s : Popd} {p : Nat} (live : (s.peers p).isSome) :
    s.idOf p = some (s.view.waitFuncs.deref p) := by
  obtain ⟨peer, found⟩ := Option.isSome_iff_exists.mp live
  rw [waitFuncs_found found, Popd.idOf, found, Option.map_some]

theorem live_view {s : Popd} {p : Nat} (live : (s.view.actors p).isSome) : (s.peers p).isSome := by
  simpa [Popd.view] using live

theorem findable_iff {s : Popd} {q : Nat} (queued : s.view.Queued) :
    s.Findable q ↔ s.dnsAckWaitQueue.Stores q := by
  constructor
  · exact fun findable => findable.queued
  · intro stored
    obtain ⟨actor, found, _⟩ := queued.live q stored
    refine ⟨stored, _, idOf_view (live_view (Option.isSome_of_eq_some found)), ?_⟩
    exact queued.lookup.mpr ⟨stored, rfl⟩

/-- A release, alone or at the end of a peer, takes out whoever has the identifier of `p`. -/
theorem released_view {s s' : Popd} {p : Nat} {u : Unit} (queued : s.view.Queued)
    (ran : dnsWaitAckQueueDel p s = .ok (u, s') ∨ popPeerDelete p s = .ok (u, s')) :
    (s.view.actors p).isSome ∧ s'.view.Queued ∧ ∀ q, s'.dnsAckWaitQueue.Stores q ↔
      s.dnsAckWaitQueue.Stores q ∧ s.view.waitFuncs.deref q ≠ s.view.waitFuncs.deref p := by
  rcases ran with ran | ran
  · obtain ⟨same, live⟩ := dnsWaitAckQueueDel_effect p _ _ _ ran
    obtain ⟨kept, stores⟩ := queued.drop p
    rw [← same] at kept stores
    exact ⟨live, kept, stores⟩
  · have live : (s.view.actors p).isSome := by
      obtain ⟨_, s₁, noted, rest⟩ := Effects.runs_bind ran
      obtain ⟨_, s₂, stored, _⟩ := Effects.runs_bind rest
      have there := (store_effect p (fun actor => { actor with
        tInfoDeal := none, tDnsWaitAck := false }) (fun _ => rfl) _ _ _ stored).2
      rw [note_runs noted] at there
      exact there
    obtain ⟨kept, stores⟩ := queued.delete live
    rw [← popPeerDelete_effect p _ _ _ ran] at kept stores
    exact ⟨live, kept, stores⟩

theorem release_spares_iff {s s' : Popd} {p : Nat} {u : Unit} (reachable : system.Reachable s)
    (ran : dnsWaitAckQueueDel p s = .ok (u, s') ∨ popPeerDelete p s = .ok (u, s')) :
    (∀ q, q ≠ p → s.dnsAckWaitQueue.Stores q → s'.Findable q) ↔
      ∀ q, q ≠ p → s.dnsAckWaitQueue.Stores q → s.idOf q ≠ s.idOf p := by
  have queued := (reachable_view reachable).queued
  obtain ⟨live, kept, stores⟩ := released_view queued ran
  have own := idOf_view (live_view live)
  have ids : ∀ q, s.dnsAckWaitQueue.Stores q → s.idOf q = some (s.view.waitFuncs.deref q) := by
    intro q stored
    obtain ⟨actor, found, _⟩ := queued.live q stored
    exact idOf_view (live_view (Option.isSome_of_eq_some found))
  constructor
  · intro spares q other stored equal
    rw [ids q stored, own] at equal
    have left := ((stores q).mp (spares q other stored).queued).2
    exact left (Option.some.inj equal)
  · intro differ q other stored
    refine (findable_iff kept).mpr ((stores q).mpr ⟨stored, fun equal => ?_⟩)
    refine differ q other stored ?_
    rw [ids q stored, own, equal]

/-- Two clients wait for two answers; the second pair's server-side peer is deleted. -/
theorem release_spares_sample : ∃ s s' u, system.Reachable s ∧ popPeerDelete 4 s = .ok (u, s') ∧
    s.dnsAckWaitQueue.Stores 3 ∧ s'.Findable 3 := by
  have runs : (replay (fun n => if n = 2 ∨ n = 6 then { read := getRequest } else {})
      [.accept [(5, 1, 2), (6, 1, 3)] false, .socket 1 true false false,
        .socket 2 true false false]).map
      (fun s => (s.dnsAckWaitQueue.datas, s.idOf 3, s.idOf 4, (popPeerDelete 4 s).isOk)) =
        some ([3, 4], some 0, some 1, true) := by decide +kernel
  obtain ⟨s, ran, facts⟩ := Option.map_eq_some_iff.mp runs
  simp only [Prod.mk.injEq] at facts
  obtain ⟨datas, third, fourth, returns⟩ := facts
  have reachable := replay_reachable ran
  have queued := (reachable_view reachable).queued
  have there : s.dnsAckWaitQueue.Stores 3 := queued.datas.mpr (by
    change 3 ∈ s.dnsAckWaitQueue.datas
    simp [datas])
  cases deleted : popPeerDelete 4 s with
  | error fault => simp [deleted, Except.isOk, Except.toBool] at returns
  | ok result =>
      obtain ⟨u, s'⟩ := result
      refine ⟨s, s', u, reachable, deleted, there, ?_⟩
      refine (release_spares_iff reachable (.inr deleted)).mpr ?_ 3 (by decide) there
      intro q other stored
      have member : q ∈ s.dnsAckWaitQueue.datas := queued.datas.mp stored
      rw [datas] at member
      simp only [List.mem_cons, List.not_mem_nil, or_false] at member
      rcases member with rfl | rfl
      · rw [third, fourth]
        decide
      · exact absurd rfl other

/-- A client that never asked for anything has the identifier of the first query. -/
theorem release_takes_other : ∃ s s' u, system.Reachable s ∧ popPeerDelete 2 s = .ok (u, s') ∧
    s.dnsAckWaitQueue.Stores 3 ∧ ¬ s'.Findable 3 := by
  have runs : (replay (fun n => if n = 2 then { read := getRequest } else { retry := n ≠ 6 })
      [.accept [(5, 1, 2), (6, 1, 3)] false, .socket 1 true false false,
        .socket 2 true false false]).map
      (fun s => (s.dnsAckWaitQueue.datas, (popPeerDelete 2 s).toOption.map fun deleted =>
        deleted.2.dnsAckWaitQueue.datas)) = some ([3], some []) := by decide +kernel
  obtain ⟨s, ran, facts⟩ := Option.map_eq_some_iff.mp runs
  obtain ⟨datas, released⟩ := Prod.mk.inj facts
  have reachable := replay_reachable ran
  have queued := (reachable_view reachable).queued
  obtain ⟨result, returned, left⟩ := Option.map_eq_some_iff.mp released
  have deleted := toOption_some returned
  obtain ⟨u, s'⟩ := result
  refine ⟨s, s', u, reachable, deleted, queued.datas.mpr ?_, fun findable => ?_⟩
  · change 3 ∈ s.dnsAckWaitQueue.datas
    simp [datas]
  · have kept := (released_view queued (.inr deleted)).2.1
    have member : 3 ∈ s'.dnsAckWaitQueue.datas := kept.datas.mp findable.queued
    dsimp only at left
    simp [left] at member

end Poplar.Proxy
