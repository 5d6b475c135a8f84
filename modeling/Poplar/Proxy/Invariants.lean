import Poplar.Proxy.Ops

/-!
# What survives every step of the view

A property that each operation of the daemon keeps holds of every view it goes through.
It may fail in between, when a server-side peer was just made or a waiting peer was just
answered.
-/
namespace Poplar.Proxy

/-- A call about bytes, made between the operations. -/
def Call.bytes : Call → Bool
  | .chunk _ _ _ | .queued _ _ _ | .requested _ _ _ => true
  | _ => false

/-- What the last call that tells something tells. -/
def latest (tells : Call → Option Bool) (log : List Call) : Bool := (log.findSome? tells).getD false

section Latest

variable {tells : Call → Option Bool} {call : Call} {calls log : List Call}

theorem latest_cons (silent : tells call = none) : latest tells (call :: log) = latest tells log := by
  simp only [latest, List.findSome?_cons, silent]

theorem latest_told {answer : Bool} (speaks : tells call = some answer) :
    latest tells (call :: log) = answer := by
  simp only [latest, List.findSome?_cons, speaks, Option.getD_some]

theorem latest_append (silent : ∀ call ∈ calls, tells call = none) :
    latest tells (calls ++ log) = latest tells log := by
  induction calls with
  | nil => rfl
  | cons call calls ih =>
      rw [List.cons_append, latest_cons (silent call List.mem_cons_self)]
      exact ih fun other member => silent other (List.mem_cons_of_mem _ member)

end Latest

namespace View

/-- A server-side peer was made for the client `c`, and bytes were pushed. -/
inductive Opened (c : Nat) (v : View) : View → Prop
  | made : Opened c v (v.openServer c)
  | note {m : View} {call : Call} : call.bytes → Opened c v m → Opened c v (m.note call)

/-- The operations keep `P`. -/
structure Kept (P : View → Prop) : Prop where
  accept {v : View} : P v → P v.accept
  note {v : View} {call : Call} : call.bytes → P v → P (v.note call)
  closePeer {v : View} {p : Nat} : (v.actors p).isSome → P v → P (v.closePeer p)
  request {v m v' : View} {c : Nat} : v.typeOf c = some .client → Opened c v m →
    Resolved v.next c m v' → P v → P v'
  establish {v : View} {p : Nat} : v.statusOf p = some .connect → P v → P (v.establish p)
  clientInfos {v v' : View} {p : Nat} {actor : Actor} : v.actors p = some actor →
    ClientInfos p 5 (v.infoRun p) v' → P v → P v'
  serverInfos {v v' : View} {p : Nat} {actor : Actor} : v.actors p = some actor →
    ServerInfos p 5 (v.infoRun p) v' → P v → P v'
  timeout {v v' : View} {p : Nat} : Closed p ((v.setWait p false).drop p) v' → P v → P v'
  noAddress {v : View} {p : Nat} : v.queue.Stores p → P v → P (v.answer p 0)
  answered {v v' : View} {p address : Nat} : v.queue.Stores p → address ≠ 0 →
    Started p (v.answer p address) v' → P v → P v'

variable {P : View → Prop} {v v' : View} {p : Nat}

theorem live_modify {f : Actor → Actor} {q : Nat} (live : (v.actors q).isSome) :
    ((v.modify p f).actors q).isSome := by
  rw [modify_actors]
  by_cases here : q = p
  · subst here
    rwa [Function.update_self, Option.isSome_map]
  · rwa [Function.update_of_ne here]

theorem live_cancel {q : Nat} (live : (v.actors q).isSome) : ((v.cancel p).actors q).isSome := by
  unfold cancel
  cases v.pairedOf p with
  | none => exact live_modify live
  | some r => exact live_modify (live_modify live)

theorem live_closePeer {q : Nat} (live : (v.actors q).isSome) :
    ((v.closePeer p).actors q).isSome := by
  unfold closePeer
  split
  · exact live_modify (live_modify (live_modify (live_cancel live)))
  · exact live_modify (live_modify (live_cancel (live_modify live)))

/-- The partner is closed first, then the peer itself. -/
theorem Closed.keeps (closed : Closed p v v')
    (close : ∀ {v : View} {p : Nat}, (v.actors p).isSome → P v → P (v.closePeer p)) (holds : P v) :
    P v' := by
  rw [closed.result]
  obtain ⟨same, _⟩ | ⟨q, partner, same⟩ := closePaired_cases v p
  · rw [same]
    exact close closed.live holds
  · rw [same]
    exact close (live_closePeer closed.live) (close (closed.partner q partner) holds)

theorem Started.keeps (started : Started p v v')
    (start : ∀ connects, v.statusOf p = some .idle → P v → P (v.start p connects)) (holds : P v) :
    P v' := by
  cases started with
  | connects idle => exact start true idle holds
  | fails idle => exact start false idle holds
  | ignored => exact holds

/-- The induction follows the turns of the handler. -/
theorem Infos.keeps {ι : Type} {infos : Actor → List ι} {rest : List ι → Actor → Actor}
    {ends : ι → Prop} {kind : InfoDeal} {n : Nat} (turns : Infos p infos rest ends kind n v v')
    (take : ∀ {v : View} {actor : Actor} {info : ι} {others : List ι}, v.actors p = some actor →
      infos actor = info :: others → P v → P (v.modify p (rest others)))
    (later : ∀ {v : View} {actor : Actor}, v.actors p = some actor → infos actor ≠ [] → P v →
      P (v.modify p fun actor => { actor with tInfoDeal := actor.tInfoDeal.or (some kind) }))
    (delete : ∀ {v : View}, (v.actors p).isSome → P v → P (v.delete p)) (holds : P v) : P v' := by
  induction turns with
  | out => exact holds
  | empty => exact holds
  | later found more => exact later found more holds
  | keep _ found head _ _ ih => exact ih (take found head holds)
  | delete _ found head _ _ _ ih =>
      refine ih (delete (live_modify ?_) (take found head holds))
      rw [found]
      rfl

section Steps

variable (kept : Kept P)

include kept

theorem Kept.written (holds : P v) (written : Written p v v') : P v' := by
  obtain rfl | closed := written
  · exact holds
  · exact closed.keeps kept.closePeer holds

theorem Kept.handled {bytes : List UInt8} (holds : P v) (handled : Handled p bytes v v') :
    P v' := by
  cases handled with
  | forward _ _ written => exact kept.written (kept.note rfl holds) written
  | back _ _ written => exact kept.written (kept.note rfl holds) written
  | ignore => exact holds
  | delay => exact kept.note rfl holds
  | refuse _ _ closed => exact closed.keeps kept.closePeer holds
  | request client _ resolved =>
      exact kept.request client (.note rfl (.note rfl .made)) resolved holds
  | tunnel client _ resolved => exact kept.request client (.note rfl .made) resolved holds

theorem Kept.reads (holds : P v) (reads : Reads p v v') : P v' := by
  induction reads with
  | done => exact holds
  | broken closed => exact closed.keeps kept.closePeer holds
  | chunk handled _ ih => exact ih (kept.handled (kept.note rfl holds) handled)

theorem Kept.step (holds : P v) (step : Step v v') : P v' := by
  cases step with
  | accept => exact kept.accept holds
  | reads p reads => exact kept.reads holds reads
  | closes p closed => exact closed.keeps kept.closePeer holds
  | establishes p connecting => exact kept.establish connecting holds
  | clientInfos p found _ turns => exact kept.clientInfos found turns holds
  | serverInfos p found _ turns => exact kept.serverInfos found turns holds
  | timeout p closed => exact kept.timeout closed holds
  | noAddress p queued => exact kept.noAddress queued holds
  | answered p queued some started => exact kept.answered queued some started holds

theorem Kept.reached (start : P init) (reached : Reached v) : P v := by
  induction reached with
  | refl => exact start
  | tail _ step ih => exact kept.step ih step

end Steps

end View

end Poplar.Proxy
