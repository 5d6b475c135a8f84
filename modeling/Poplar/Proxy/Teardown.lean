import Poplar.Proxy.Waiting

/-!
# The end of peers

A peer whose end was asked for has a message that ends it at the head of its list, and its
info handler is armed. The handler looks at its messages only while the peer is in the
list of connected peers, which a server-side peer enters when it is connected.
-/
namespace Poplar.Proxy

/-- What a peer's info handler works on. -/
structure Inbox where
  side : TcpPeerType
  status : TcpClientStatus
  clientInfos : List TcpClientInfo
  serverInfos : List TcpServerInfo
  deal : Option InfoDeal

def Actor.inbox (actor : Actor) : Inbox :=
  ⟨actor.tcpPeerType, actor.tcpClientStatus, actor.tcpClientInfoList, actor.tcpServerInfoList,
    actor.tInfoDeal⟩

def Call.ending (p : Nat) : Call → Option Bool
  | .teardown q _ => if q = p then some true else none
  | .infoRun q _ _ => if q = p then some false else none
  | _ => none

/-- The end of `p` was asked for since its info handler ran last. -/
def requested (p : Nat) (log : List Call) : Bool := latest (Call.ending p) log

/-- A call that says nothing about ends. -/
def Call.plain : Call → Bool
  | .teardown _ _ | .infoRun _ _ _ | .deleted _ => false
  | _ => true

theorem Call.plain_ending {call : Call} (plain : call.plain) (p : Nat) : call.ending p = none := by
  cases call with
  | teardown => cases plain
  | infoRun => cases plain
  | _ => rfl

theorem Call.plain_of_bytes {call : Call} (bytes : call.bytes = true) : call.plain = true := by
  cases call with
  | teardown => cases bytes
  | infoRun => cases bytes
  | deleted => cases bytes
  | _ => rfl

theorem Call.plain_deleted {call : Call} (plain : call.plain) (p : Nat) : call ≠ .deleted p := by
  rintro rfl
  cases plain

namespace Inbox

/-- The messages a peer may have; `ended` tells whether its end was asked for. -/
structure Sound (ended : Bool) (b : Inbox) : Prop where
  server : b.side = .server → b.serverInfos = [] ∧ b.deal ≠ some .tcpServerEvent
  client : b.side ≠ .server → b.clientInfos = [] ∧ b.deal ≠ some .tcpClientEvent ∧ b.status = .idle
  begins : b.side = .server → b.status ≠ .establish → .connectionSuccess ∉ b.clientInfos
  armed : ended = true → b.deal ≠ none
  serverEnds : ended = true → b.side = .server →
    ∃ info others, b.clientInfos = info :: others ∧ info ≠ .connectionSuccess
  clientEnds : ended = true → b.side ≠ .server →
    ∃ info others, b.serverInfos = info :: others ∧ info ≠ .accept

def stopped (b : Inbox) : Inbox :=
  { b with
    status := .idle
    clientInfos := [.connectionBreak]
    serverInfos := []
    deal := b.deal.or (some .tcpClientEvent) }

def closed (b : Inbox) : Inbox :=
  { b with clientInfos := [], serverInfos := [.break'], deal := some .tcpServerEvent }

/-- `info` is the last message of a server-side peer. -/
def told (info : TcpClientInfo) (b : Inbox) : Inbox :=
  { b with clientInfos := b.clientInfos ++ [info], deal := b.deal.or (some .tcpClientEvent) }

variable {b : Inbox} {ended : Bool}

theorem or_some_ne {deal : Option InfoDeal} {kind other : InfoDeal} (isNot : deal ≠ some other)
    (differ : kind ≠ other) : deal.or (some kind) ≠ some other := by
  cases deal with
  | none => exact fun same => differ (Option.some.inj same)
  | some current => exact isNot

theorem or_some_ne_none {deal : Option InfoDeal} {kind : InfoDeal} : deal.or (some kind) ≠ none := by
  cases deal <;> simp

theorem Sound.stopped (sound : b.Sound ended) (server : b.side = .server) :
    b.stopped.Sound true where
  server _ := ⟨rfl, or_some_ne (sound.server server).2 (by decide)⟩
  client other := absurd server other
  begins _ _ := by simp [Inbox.stopped]
  armed _ := or_some_ne_none
  serverEnds _ _ := ⟨.connectionBreak, [], rfl, by decide⟩
  clientEnds _ other := absurd server other

theorem Sound.closed (sound : b.Sound ended) (client : b.side ≠ .server) :
    b.closed.Sound true where
  server server := absurd server client
  client _ := ⟨rfl, by simp [Inbox.closed], (sound.client client).2.2⟩
  begins server := absurd server client
  armed _ := by simp [Inbox.closed]
  serverEnds _ server := absurd server client
  clientEnds _ _ := ⟨.break', [], rfl, by decide⟩

theorem Sound.connecting (sound : b.Sound ended) (server : b.side = .server)
    (idle : b.status = .idle) : { b with status := .connect : Inbox }.Sound ended where
  server := sound.server
  client other := absurd server other
  begins _ _ := sound.begins server (by simp [idle])
  armed := sound.armed
  serverEnds := sound.serverEnds
  clientEnds := sound.clientEnds

/-- A connection that fails at once adds its message behind others that end the peer. -/
theorem Sound.failed (sound : b.Sound ended) (server : b.side = .server) (idle : b.status = .idle) :
    (b.told .connectionError).Sound true where
  server _ := ⟨(sound.server server).1, or_some_ne (sound.server server).2 (by decide)⟩
  client other := absurd server other
  begins _ _ := by
    have before := sound.begins server (by simp [idle])
    simpa [told] using before
  armed _ := or_some_ne_none
  serverEnds _ _ := by
    have before := sound.begins server (by simp [idle])
    cases infos : b.clientInfos with
    | nil => exact ⟨.connectionError, [], by simp [told, infos], by decide⟩
    | cons info others =>
        refine ⟨info, others ++ [.connectionError], by simp [told, infos], ?_⟩
        rintro rfl
        exact before (infos ▸ List.mem_cons_self)
  clientEnds _ other := absurd server other

theorem Sound.established (sound : b.Sound ended) (server : b.side = .server) :
    { b.told .connectionSuccess with status := .establish }.Sound ended where
  server _ := ⟨(sound.server server).1, or_some_ne (sound.server server).2 (by decide)⟩
  client other := absurd server other
  begins _ other := absurd rfl other
  armed _ := or_some_ne_none
  serverEnds asked _ := by
    obtain ⟨info, others, infos, ends⟩ := sound.serverEnds asked server
    exact ⟨info, others ++ [.connectionSuccess], by simp [told, infos], ends⟩
  clientEnds _ other := absurd server other

/-- Without a request only the kinds of messages matter. -/
theorem Sound.unasked
    (server : b.side = .server → b.serverInfos = [] ∧ b.deal ≠ some .tcpServerEvent)
    (client : b.side ≠ .server →
      b.clientInfos = [] ∧ b.deal ≠ some .tcpClientEvent ∧ b.status = .idle)
    (begins : b.side = .server → b.status ≠ .establish → .connectionSuccess ∉ b.clientInfos) :
    b.Sound false :=
  ⟨server, client, begins, nofun, nofun, nofun⟩

theorem Sound.disarmed (sound : b.Sound ended) : { b with deal := none : Inbox }.Sound false :=
  .unasked (fun server => ⟨(sound.server server).1, nofun⟩)
    (fun client => ⟨(sound.client client).1, nofun, (sound.client client).2.2⟩) sound.begins

theorem Sound.tookClient (sound : b.Sound false) {info : TcpClientInfo}
    {others : List TcpClientInfo} (head : b.clientInfos = info :: others) :
    { b with clientInfos := others : Inbox }.Sound false := by
  refine .unasked sound.server (fun client => ?_) fun server status member => ?_
  · rw [(sound.client client).1] at head
    cases head
  · exact sound.begins server status (head ▸ List.mem_cons_of_mem _ member)

theorem Sound.tookServer (sound : b.Sound false) {info : TcpServerInfo}
    {others : List TcpServerInfo} (head : b.serverInfos = info :: others) :
    { b with serverInfos := others : Inbox }.Sound false := by
  refine .unasked (fun server => ?_) sound.client sound.begins
  rw [(sound.server server).1] at head
  cases head

theorem Sound.laterClient (sound : b.Sound false) (more : b.clientInfos ≠ []) :
    { b with deal := b.deal.or (some .tcpClientEvent) : Inbox }.Sound false :=
  .unasked (fun server => ⟨(sound.server server).1, or_some_ne (sound.server server).2 (by decide)⟩)
    (fun client => absurd (sound.client client).1 more) sound.begins

theorem Sound.laterServer (sound : b.Sound false) (more : b.serverInfos ≠ []) :
    { b with deal := b.deal.or (some .tcpServerEvent) : Inbox }.Sound false :=
  .unasked (fun server => absurd (sound.server server).1 more)
    (fun client => ⟨(sound.client client).1, or_some_ne (sound.client client).2.1 (by decide),
      (sound.client client).2.2⟩) sound.begins

end Inbox

namespace View

variable {v m v' : View} {p q : Nat}

def inbox (v : View) (p : Nat) : Option Inbox := (v.actors p).map Actor.inbox

/-! ## What the operations do to messages -/

theorem inbox_modify {f : Actor → Actor} {g : Inbox → Inbox}
    (same : ∀ actor, (f actor).inbox = g actor.inbox) :
    (v.modify p f).inbox = Function.update v.inbox p ((v.inbox p).map g) := by
  funext q
  by_cases here : q = p
  · subst here
    rw [Function.update_self, inbox, inbox, modify_actors, Function.update_self]
    cases v.actors q with
    | none => rfl
    | some actor => exact congrArg some (same actor)
  · rw [Function.update_of_ne here, inbox, modify_actors, Function.update_of_ne here, inbox]

theorem inbox_unseen {f : Actor → Actor} (same : ∀ actor, (f actor).inbox = actor.inbox) :
    (v.modify p f).inbox = v.inbox :=
  funext fun q => map_modify v p q same

@[simp] theorem inbox_note (call : Call) : (v.note call).inbox = v.inbox := rfl

@[simp] theorem inbox_drop : (v.drop p).inbox = v.inbox := rfl

@[simp] theorem inbox_cancel : (v.cancel p).inbox = v.inbox := by
  have left (w : View) (p : Nat) : (w.unpair p).inbox = w.inbox := inbox_unseen fun _ => rfl
  unfold cancel
  cases v.pairedOf p <;> simp only [left]

theorem inbox_clientInfo (info : TcpClientInfo) : (v.clientInfo p info).inbox =
    Function.update v.inbox p ((v.inbox p).map (Inbox.told info)) :=
  inbox_modify fun _ => rfl

theorem inbox_setStatus (status : TcpClientStatus) : (v.setStatus p status).inbox =
    Function.update v.inbox p ((v.inbox p).map fun b => { b with status := status }) :=
  inbox_modify fun _ => rfl

theorem inbox_forgetInfo : (v.forgetInfo p).inbox = Function.update v.inbox p
    ((v.inbox p).map fun b => { b with clientInfos := [], serverInfos := [] }) :=
  inbox_modify fun _ => rfl

theorem inbox_stop :
    (v.stop p).inbox = Function.update v.inbox p ((v.inbox p).map Inbox.stopped) := by
  simp only [stop, teardown, inbox_setStatus, inbox_note, inbox_clientInfo, inbox_forgetInfo,
    inbox_cancel, Function.update_self, Function.update_idem, Option.map_map]
  rfl

theorem inbox_close :
    (v.close p).inbox = Function.update v.inbox p ((v.inbox p).map Inbox.closed) := by
  have disarmed : (v.modify p fun actor =>
      { actor with tDnsWaitAck := false, tInfoDeal := none }).inbox = Function.update v.inbox p
        ((v.inbox p).map fun b => { b with deal := none }) := inbox_modify fun _ => rfl
  have informed (w : View) : (w.serverInfo p .break').inbox = Function.update w.inbox p
      ((w.inbox p).map fun b => { b with
        serverInfos := b.serverInfos ++ [.break'], deal := b.deal.or (some .tcpServerEvent) }) :=
    inbox_modify fun _ => rfl
  simp only [close, teardown, inbox_note, informed, inbox_forgetInfo, inbox_cancel, disarmed,
    Function.update_self, Function.update_idem, Option.map_map]
  rfl

theorem inbox_fails : (v.start p false).inbox =
    Function.update v.inbox p ((v.inbox p).map (Inbox.told .connectionError)) := by
  rw [start, if_neg Bool.false_ne_true, teardown, inbox_note, inbox_clientInfo, inbox_note]

theorem inbox_establish : (v.establish p).inbox = Function.update v.inbox p
    ((v.inbox p).map fun b => { b.told .connectionSuccess with status := .establish }) := by
  have enlisted : (v.enlist p).inbox = v.inbox := rfl
  simp only [establish, inbox_setStatus, inbox_clientInfo, enlisted, Function.update_self,
    Function.update_idem, Option.map_map]
  rfl

theorem inbox_infoRun : (v.infoRun p).inbox =
    Function.update v.inbox p ((v.inbox p).map fun b => { b with deal := none }) :=
  inbox_modify fun _ => rfl

theorem inbox_alloc (actor : Actor) :
    (v.alloc actor).inbox = Function.update v.inbox v.next (some actor.inbox) := by
  funext q
  by_cases here : q = v.next
  · simp [inbox, alloc, here]
  · simp [inbox, alloc, here]

theorem inbox_openServer : (v.openServer p).inbox =
    Function.update v.inbox v.next (some serverActor.inbox) := by
  have left (w : View) (p q : Nat) : (w.modify p fun actor =>
      { actor with pairedPeer := some q }).inbox = w.inbox := inbox_unseen fun _ => rfl
  rw [openServer, pair, left, left, inbox_note, inbox_alloc]

theorem inbox_remove : (v.remove p).inbox = Function.update v.inbox p none := by
  funext q
  by_cases here : q = p
  · simp [inbox, remove_actors, here]
  · simp [inbox, remove_actors, here]

theorem inbox_delete : (v.delete p).inbox = Function.update v.inbox p none := by
  have retired : (v.retire p).inbox = Function.update v.inbox p
      ((v.inbox p).map fun b => { b with deal := none }) := by
    have disarmed : ((v.note (.deleted p)).modify p fun actor =>
        { actor with tInfoDeal := none, tDnsWaitAck := false }).inbox = Function.update v.inbox p
          ((v.inbox p).map fun b => { b with deal := none }) := inbox_modify fun _ => rfl
    exact inbox_cancel.trans disarmed
  rw [delete_eq, inbox_remove, inbox_drop, retired, Function.update_idem]

theorem typeOf_inbox {b : Inbox} (found : v.inbox p = some b) : v.typeOf p = some b.side := by
  obtain ⟨actor, live, rfl⟩ := Option.map_eq_some_iff.mp found
  rw [typeOf, live]
  rfl

theorem statusOf_inbox {b : Inbox} (found : v.inbox p = some b) :
    v.statusOf p = some b.status := by
  obtain ⟨actor, live, rfl⟩ := Option.map_eq_some_iff.mp found
  rw [statusOf, live]
  rfl

/-! ## Every view -/

/-- Peers are ready to end, client-side peers are listed, and deleted peers are gone. -/
structure Prepared (v : View) : Prop extends Queued v where
  sound : ∀ p b, v.inbox p = some b → b.Sound (requested p v.log)
  asked : ∀ p, requested p v.log = true → p < v.next
  clients : ∀ p b, v.inbox p = some b → b.side ≠ .server → p ∈ v.listed
  gone : ∀ p, .deleted p ∈ v.log → p < v.next ∧ v.inbox p = none
  once : ∀ p, v.log.count (.deleted p) ≤ 1

/-- The messages of one peer change, and the calls are about this peer. -/
theorem Prepared.change (prepared : v.Prepared) {f : Inbox → Inbox} (queued : v'.Queued)
    (inbox : v'.inbox = Function.update v.inbox p ((v.inbox p).map f)) (next : v'.next = v.next)
    (listed : ∀ q ∈ v.listed, q ∈ v'.listed) (calls : List Call) (log : v'.log = calls ++ v.log)
    (about : ∀ call ∈ calls, (∀ q, q ≠ p → call.ending q = none) ∧ ∀ q, call ≠ .deleted q)
    (live : (v.inbox p).isSome ∨ calls = [])
    (sound : ∀ b, v.inbox p = some b → b.Sound (requested p v.log) →
      (f b).Sound (requested p v'.log) ∧ (f b).side = b.side) : v'.Prepared := by
  have others (q : Nat) (other : q ≠ p) : requested q v'.log = requested q v.log := by
    rw [log]
    exact latest_append fun call member => (about call member).1 q other
  have elsewhere (q : Nat) (other : q ≠ p) : v'.inbox q = v.inbox q := by
    rw [inbox, Function.update_of_ne other]
  refine ⟨queued, ?_, ?_, ?_, ?_, ?_⟩
  · intro q b found
    by_cases here : q = p
    · subst here
      rw [inbox, Function.update_self] at found
      obtain ⟨before, there, rfl⟩ := Option.map_eq_some_iff.mp found
      exact (sound before there (prepared.sound q before there)).1
    · rw [elsewhere q here] at found
      rw [others q here]
      exact prepared.sound q b found
  · intro q ends
    rw [next]
    by_cases here : q = p
    · rcases live with there | none
      · rw [here]
        rw [View.inbox, Option.isSome_map] at there
        exact inside_of_live there
      · rw [log, none, List.nil_append] at ends
        exact prepared.asked q ends
    · rw [others q here] at ends
      exact prepared.asked q ends
  · intro q b found client
    by_cases here : q = p
    · subst here
      rw [inbox, Function.update_self] at found
      obtain ⟨before, there, rfl⟩ := Option.map_eq_some_iff.mp found
      rw [(sound before there (prepared.sound q before there)).2] at client
      exact listed q (prepared.clients q before there client)
    · rw [elsewhere q here] at found
      exact listed q (prepared.clients q b found client)
  · intro q member
    rw [log] at member
    have before : .deleted q ∈ v.log :=
      (List.mem_append.mp member).resolve_left fun new => (about _ new).2 q rfl
    obtain ⟨inside, none⟩ := prepared.gone q before
    refine ⟨next ▸ inside, ?_⟩
    by_cases here : q = p
    · rw [inbox, here, Function.update_self, ← here, none, Option.map_none]
    · rw [elsewhere q here, none]
  · intro q
    have new : calls.count (.deleted q) = 0 :=
      List.count_eq_zero.mpr fun member => (about _ member).2 q rfl
    rw [log, List.count_append, new, Nat.zero_add]
    exact prepared.once q

/-- No message changes. -/
theorem Prepared.same (prepared : v.Prepared) (queued : v'.Queued) (inbox : v'.inbox = v.inbox)
    (next : v'.next = v.next) (listed : v'.listed = v.listed) (calls : List Call)
    (log : v'.log = calls ++ v.log) (plain : ∀ call ∈ calls, call.plain) : v'.Prepared := by
  have silent (q : Nat) : requested q v'.log = requested q v.log := by
    rw [log]
    exact latest_append fun call member => Call.plain_ending (plain call member) q
  refine ⟨queued, ?_, ?_, ?_, ?_, ?_⟩
  · intro q b found
    rw [silent]
    exact prepared.sound q b (inbox ▸ found)
  · intro q ends
    rw [silent] at ends
    exact next ▸ prepared.asked q ends
  · intro q b found client
    rw [listed]
    exact prepared.clients q b (inbox ▸ found) client
  · intro q member
    rw [log] at member
    have before : .deleted q ∈ v.log :=
      (List.mem_append.mp member).resolve_left fun new => Call.plain_deleted (plain _ new) q rfl
    rw [next, inbox]
    exact prepared.gone q before
  · intro q
    have new : calls.count (.deleted q) = 0 :=
      List.count_eq_zero.mpr fun member => Call.plain_deleted (plain _ member) q rfl
    rw [log, List.count_append, new, Nat.zero_add]
    exact prepared.once q

/-- A new peer has nothing to end it. -/
theorem Prepared.alloc (prepared : v.Prepared) {b : Inbox} (queued : v'.Queued)
    (inbox : v'.inbox = Function.update v.inbox v.next (some b)) (next : v'.next = v.next + 1)
    (listed : ∀ q ∈ v.listed, q ∈ v'.listed) (own : b.side ≠ .server → v.next ∈ v'.listed)
    (calls : List Call) (log : v'.log = calls ++ v.log) (plain : ∀ call ∈ calls, call.plain) (sound : b.Sound false) :
    v'.Prepared := by
  have silent (q : Nat) : requested q v'.log = requested q v.log := by
    rw [log]
    exact latest_append fun call member => Call.plain_ending (plain call member) q
  refine ⟨queued, ?_, ?_, ?_, ?_, ?_⟩
  · intro q b' found
    rw [silent]
    by_cases here : q = v.next
    · rw [inbox, here, Function.update_self] at found
      have fresh : requested q v.log = false := by
        cases ends : requested q v.log with
        | false => rfl
        | true => exact absurd (prepared.asked q ends) (here ▸ Nat.lt_irrefl _)
      rw [fresh, ← Option.some.inj found]
      exact sound
    · rw [inbox, Function.update_of_ne here] at found
      exact prepared.sound q b' found
  · intro q ends
    rw [silent] at ends
    have inside := prepared.asked q ends
    omega
  · intro q b' found client
    by_cases here : q = v.next
    · rw [inbox, here, Function.update_self] at found
      exact here ▸ own (Option.some.inj found ▸ client)
    · rw [inbox, Function.update_of_ne here] at found
      exact listed q (prepared.clients q b' found client)
  · intro q member
    rw [log] at member
    have before : .deleted q ∈ v.log :=
      (List.mem_append.mp member).resolve_left fun new => Call.plain_deleted (plain _ new) q rfl
    obtain ⟨inside, none⟩ := prepared.gone q before
    refine ⟨by omega, ?_⟩
    rw [inbox, Function.update_of_ne (Nat.ne_of_lt inside), none]
  · intro q
    have new : calls.count (.deleted q) = 0 :=
      List.count_eq_zero.mpr fun member => Call.plain_deleted (plain _ member) q rfl
    rw [log, List.count_append, new, Nat.zero_add]
    exact prepared.once q

/-- A peer is deleted while it is live, so it was not deleted before. -/
theorem Prepared.delete (prepared : v.Prepared) (live : (v.actors p).isSome) :
    (v.delete p).Prepared := by
  obtain ⟨victim, log⟩ := log_delete v p
  have inside := inside_of_live live
  have next : (v.delete p).next = v.next := next_cancel
  have silent (q : Nat) : requested q (v.delete p).log = requested q v.log := by
    rw [log]
    exact (latest_cons rfl).trans (latest_cons rfl)
  refine ⟨(prepared.toQueued.delete live).1, ?_, ?_, ?_, ?_, ?_⟩
  · intro q b found
    by_cases here : q = p
    · rw [inbox_delete, here, Function.update_self] at found
      cases found
    · rw [inbox_delete, Function.update_of_ne here] at found
      rw [silent]
      exact prepared.sound q b found
  · intro q ends
    rw [silent] at ends
    exact next ▸ prepared.asked q ends
  · intro q b found client
    by_cases here : q = p
    · rw [inbox_delete, here, Function.update_self] at found
      cases found
    · rw [inbox_delete, Function.update_of_ne here] at found
      have listed : (v.delete p).listed = v.listed.erase p := by
        have cancelled (w : View) : (w.cancel p).listed = w.listed := by
          unfold View.cancel
          cases w.pairedOf p <;> rfl
        exact congrArg (fun l => l.erase p) (cancelled _)
      rw [listed]
      exact (List.mem_erase_of_ne here).mpr (prepared.clients q b found client)
  · intro q member
    rw [inbox_delete, next]
    by_cases here : q = p
    · exact ⟨here ▸ inside, by rw [here, Function.update_self]⟩
    · rw [log] at member
      simp only [List.mem_cons, reduceCtorEq, Call.deleted.injEq, here, false_or] at member
      rw [Function.update_of_ne here]
      exact prepared.gone q member
  · intro q
    rw [log, List.count_cons_of_ne (by simp)]
    by_cases here : q = p
    · subst here
      have fresh : .deleted q ∉ v.log := by
        intro member
        have none := (prepared.gone q member).2
        rw [inbox, Option.map_eq_none_iff] at none
        simp [none] at live
      rw [List.count_cons_self, List.count_eq_zero.mpr fresh]
    · rw [List.count_cons_of_ne (by simp [Ne.symm here])]
      exact prepared.once q

theorem listed_cancel : (v.cancel p).listed = v.listed := by
  unfold cancel
  cases v.pairedOf p <;> rfl

theorem Prepared.closePeer (prepared : v.Prepared) (live : (v.actors p).isSome) :
    (v.closePeer p).Prepared := by
  have queued := prepared.toQueued.closePeer (p := p)
  have log := log_closePeer v p
  have there : (v.inbox p).isSome := by rwa [inbox, Option.isSome_map]
  have about : ∀ call ∈ [Call.teardown p (v.serviceOf p)],
      (∀ q, q ≠ p → call.ending q = none) ∧ ∀ q, call ≠ .deleted q := by
    intro call member
    rw [List.mem_singleton.mp member]
    exact ⟨fun q other => if_neg (Ne.symm other), nofun⟩
  have ends : requested p (v.closePeer p).log = true := by
    rw [log]
    exact latest_told (if_pos rfl)
  unfold View.closePeer at queued log ends ⊢
  split
  next server =>
    rw [if_pos server] at queued log ends
    refine prepared.change queued inbox_stop next_cancel ?_ [_] log about (.inl there) ?_
    · intro q member
      have same : (v.stop p).listed = v.listed := listed_cancel
      rwa [same]
    · intro b found sound
      rw [typeOf_inbox found] at server
      rw [ends]
      exact ⟨sound.stopped (Option.some.inj server), rfl⟩
  next client =>
    rw [if_neg client] at queued log ends
    refine prepared.change queued inbox_close next_cancel ?_ [_] log about (.inl there) ?_
    · intro q member
      have same : (v.close p).listed = v.listed := listed_cancel
      rwa [same]
    · intro b found sound
      rw [typeOf_inbox found] at client
      rw [ends]
      exact ⟨sound.closed fun server => client (congrArg some server), rfl⟩

theorem Prepared.closed (prepared : v.Prepared) (closed : Closed p v v') : v'.Prepared :=
  closed.keeps (fun live prepared => prepared.closePeer live) prepared

theorem Prepared.started (prepared : v.Prepared) (server : v.typeOf p = some .server)
    (started : Started p v v') : v'.Prepared := by
  have queued := prepared.toQueued.started started
  have typed (b : Inbox) (found : v.inbox p = some b) : b.side = .server := by
    rw [typeOf_inbox found] at server
    exact Option.some.inj server
  cases started with
  | connects idle =>
      refine prepared.change queued (inbox_setStatus .connect) rfl (fun _ member => member) [] rfl
        (fun _ member => by cases member) (.inr rfl) fun b found sound => ?_
      rw [statusOf_inbox found] at idle
      exact ⟨sound.connecting (typed b found) (Option.some.inj idle), rfl⟩
  | fails idle =>
      have there : (v.inbox p).isSome := by
        rw [inbox, Option.isSome_map]
        exact live_of_type server
      refine prepared.change queued inbox_fails rfl (fun _ member => member) [_, _]
        (log_fails v p) ?_ (.inl there) fun b found sound => ?_
      · intro call member
        simp only [List.mem_cons, List.not_mem_nil, or_false] at member
        rcases member with rfl | rfl
        · exact ⟨fun q other => if_neg (Ne.symm other), nofun⟩
        · exact ⟨fun _ _ => rfl, nofun⟩
      · have ends : requested p (v.start p false).log = true := by
          rw [log_fails]
          exact latest_told (if_pos rfl)
        rw [statusOf_inbox found] at idle
        rw [ends]
        exact ⟨sound.failed (typed b found) (Option.some.inj idle), rfl⟩
  | ignored => exact prepared

theorem Opened.plain {c : Nat} (opened : Opened c v m) :
    ∃ calls, m.log = calls ++ v.log ∧ ∀ call ∈ calls, call.plain := by
  induction opened with
  | made => exact ⟨[_], openServer_log v c, by simp [Call.plain]⟩
  | @note m call bytes _ ih =>
      obtain ⟨calls, same, plain⟩ := ih
      refine ⟨call :: calls, congrArg (List.cons _) same, List.forall_mem_cons.mpr ⟨?_, plain⟩⟩
      exact Call.plain_of_bytes bytes

theorem Prepared.opened {c : Nat} (prepared : v.Prepared) (opened : Opened c v m) :
    m.Prepared := by
  obtain ⟨actors, _, next, listed⟩ := opened.same
  have inbox : m.inbox = Function.update v.inbox v.next (some serverActor.inbox) := by
    rw [← inbox_openServer (p := c)]
    funext q
    rw [View.inbox, actors]
    rfl
  obtain ⟨calls, log, plain⟩ := opened.plain
  refine prepared.alloc (opened.queued prepared.toQueued) inbox next (fun q member => ?_)
    (fun other => absurd rfl other) calls log plain ?_
  · rwa [listed]
  · exact .unasked (fun _ => ⟨rfl, nofun⟩) (fun other => absurd rfl other) fun _ _ => nofun

theorem Prepared.answer (prepared : v.Prepared) (address : Nat) :
    (v.answer p address).Prepared :=
  prepared.same prepared.toQueued.answer (inbox_unseen fun _ => rfl) rfl rfl [_, _] rfl
    (by simp [Call.plain])

/-- A peer whose info handler runs: nothing was asked for since. -/
structure Running (p : Nat) (v : View) : Prop extends Prepared v where
  served : requested p v.log = false

theorem Prepared.infoRun (prepared : v.Prepared) (live : (v.actors p).isSome) :
    Running p (v.infoRun p) := by
  have ends : requested p (v.infoRun p).log = false := latest_told (if_pos rfl)
  refine ⟨prepared.change (prepared.toQueued.same rfl identity_infoRun) inbox_infoRun rfl
    (fun _ member => member) [_] rfl ?_ (.inl ?_) ?_, ends⟩
  · intro call member
    rw [List.mem_singleton.mp member]
    exact ⟨fun q other => if_neg (Ne.symm other), nofun⟩
  · rwa [inbox, Option.isSome_map]
  · intro b _ sound
    rw [ends]
    exact ⟨sound.disarmed, rfl⟩

theorem Running.change (running : Running p v) {f : Actor → Actor} {g : Inbox → Inbox}
    (service : ∀ actor, (f actor).serviceType = actor.serviceType)
    (type : ∀ actor, (f actor).tcpPeerType = actor.tcpPeerType)
    (id : ∀ actor, (f actor).dnsTransactionID = actor.dnsTransactionID)
    (same : ∀ actor, (f actor).inbox = g actor.inbox) (side : ∀ b, (g b).side = b.side)
    (sound : ∀ b, v.inbox p = some b → b.Sound false → (g b).Sound false) :
    Running p (v.modify p f) := by
  refine ⟨running.toPrepared.change (running.toQueued.touch service type id) (inbox_modify same)
    rfl (fun _ member => member) [] rfl (fun _ member => by cases member) (.inr rfl) ?_,
    running.served⟩
  intro b found before
  rw [running.served] at before
  refine ⟨?_, side b⟩
  have after : requested p (v.modify p f).log = false := running.served
  rw [after]
  exact sound b found before

theorem Running.delete (running : Running p v) (live : (v.actors p).isSome) :
    Running p (v.delete p) := by
  obtain ⟨victim, log⟩ := log_delete v p
  refine ⟨running.toPrepared.delete live, ?_⟩
  rw [log]
  exact (latest_cons rfl).trans ((latest_cons rfl).trans running.served)

theorem Prepared.clientInfos {n : Nat} (running : Running p v) (turns : ClientInfos p n v v') :
    v'.Prepared := by
  refine (turns.keeps (P := Running p) ?_ ?_ (fun live running => running.delete live)
    running).toPrepared
  · intro v actor info others found head running
    refine running.change (g := fun b => { b with clientInfos := others }) (fun _ => rfl)
      (fun _ => rfl) (fun _ => rfl) (fun _ => rfl) (fun _ => rfl) fun b there sound => ?_
    rw [inbox, found] at there
    cases there
    exact sound.tookClient head
  · intro v actor found more running
    refine running.change (g := fun b => { b with deal := b.deal.or (some .tcpClientEvent) })
      (fun _ => rfl) (fun _ => rfl) (fun _ => rfl) (fun _ => rfl) (fun _ => rfl)
      fun b there sound => ?_
    rw [inbox, found] at there
    cases there
    exact sound.laterClient more

theorem Prepared.serverInfos {n : Nat} (running : Running p v) (turns : ServerInfos p n v v') :
    v'.Prepared := by
  refine (turns.keeps (P := Running p) ?_ ?_ (fun live running => running.delete live)
    running).toPrepared
  · intro v actor info others found head running
    refine running.change (g := fun b => { b with serverInfos := others }) (fun _ => rfl)
      (fun _ => rfl) (fun _ => rfl) (fun _ => rfl) (fun _ => rfl) fun b there sound => ?_
    rw [inbox, found] at there
    cases there
    exact sound.tookServer head
  · intro v actor found more running
    refine running.change (g := fun b => { b with deal := b.deal.or (some .tcpServerEvent) })
      (fun _ => rfl) (fun _ => rfl) (fun _ => rfl) (fun _ => rfl) (fun _ => rfl)
      fun b there sound => ?_
    rw [inbox, found] at there
    cases there
    exact sound.laterServer more

theorem kept_prepared : Kept Prepared where
  accept {v} prepared := by
    have enlisted : v.accept.inbox = (v.alloc clientActor).inbox := rfl
    refine prepared.alloc (kept_queued.accept prepared.toQueued) (enlisted.trans (inbox_alloc _))
      rfl (fun q member => List.mem_append_left _ member)
      (fun _ => List.mem_append_right _ List.mem_cons_self) [] rfl
      (fun _ member => by cases member) ?_
    exact .unasked (fun server => by cases server) (fun _ => ⟨rfl, by decide, rfl⟩)
      fun server => by cases server
  note {v call} bytes prepared := by
    refine prepared.same (kept_queued.note bytes prepared.toQueued) rfl rfl rfl [call] rfl ?_
    intro other member
    rw [List.mem_singleton.mp member]
    exact Call.plain_of_bytes bytes
  closePeer live prepared := prepared.closePeer live
  request {v m v' c} client opened resolved prepared := by
    have begun := prepared.opened opened
    have queued := kept_queued.request client opened resolved prepared.toQueued
    obtain ⟨actor, found, server⟩ := opened.server
    have typed : m.typeOf v.next = some .server := by rw [typeOf, found, Option.map_some, server]
    cases resolved with
    | starts started => exact begun.started typed started
    | waits id =>
        refine begun.same queued ?_ rfl rfl [_] rfl (by simp [Call.plain])
        have named : ((m.modify v.next fun actor =>
            { actor with dnsTransactionID := id }).enqueue v.next).inbox = m.inbox :=
          inbox_unseen (v := m) fun _ => rfl
        have armed (w : View) : (w.setWait v.next true).inbox = w.inbox := inbox_unseen fun _ => rfl
        exact (armed _).trans named
    | unsent closed => exact begun.closed closed
  establish {v p} connecting prepared := by
    have queued := kept_queued.establish connecting prepared.toQueued
    refine prepared.change queued inbox_establish rfl
      (fun q member => List.mem_append_left _ member) [] rfl (fun _ member => by cases member)
      (.inr rfl) fun b found sound => ?_
    rw [statusOf_inbox found] at connecting
    have server : b.side = .server := by
      by_contra client
      rw [(sound.client client).2.2] at connecting
      cases connecting
    exact ⟨sound.established server, rfl⟩
  clientInfos found turns prepared :=
    Prepared.clientInfos (prepared.infoRun (Option.isSome_of_eq_some found)) turns
  serverInfos found turns prepared :=
    Prepared.serverInfos (prepared.infoRun (Option.isSome_of_eq_some found)) turns
  timeout {v v' p} closed prepared := by
    have off : (v.setWait p false).Queued := prepared.toQueued.same rfl (identity_setWait false)
    have dropped : ((v.setWait p false).drop p).Prepared :=
      prepared.same (off.drop p).1 (inbox_unseen fun _ => rfl) rfl rfl [_] rfl
        (by simp [Call.plain])
    exact dropped.closed closed
  noAddress _ prepared := prepared.answer 0
  answered {v v' p address} stored _ started prepared := by
    obtain ⟨actor, found, server⟩ := prepared.live p stored
    refine (prepared.answer address).started ?_ started
    rw [typeOf_congr (congrFun (identity_answer address) p), typeOf, found, Option.map_some, server]

theorem prepared_init : init.Prepared := by
  refine ⟨queued_init, ?_, nofun, ?_, nofun, fun p => Nat.zero_le _⟩
  · intro p b found
    by_cases first : p = 0
    · subst first
      cases found
      exact .unasked (fun _ => ⟨rfl, nofun⟩) (fun other => absurd rfl other) fun _ _ => nofun
    · simp [inbox, init, first] at found
  · intro p b found client
    by_cases first : p = 0
    · subst first
      cases found
      exact absurd rfl client
    · simp [inbox, init, first] at found

theorem Reached.prepared (reached : Reached v) : v.Prepared :=
  kept_prepared.reached prepared_init reached

/-- A handler with a message that ends the peer deletes it if and only if it is listed. -/
theorem Infos.deletes_iff {ι : Type} {infos : Actor → List ι} {rest : List ι → Actor → Actor}
    {ends : ι → Prop} {kind : InfoDeal} {n : Nat} {actor : Actor} {info : ι} {others : List ι}
    (turns : Infos p infos rest ends kind (n + 1) v v') (found : v.actors p = some actor)
    (head : infos actor = info :: others) (ending : ends info)
    (service : actor.serviceType = .httpProxy) (fresh : .deleted p ∉ v.log) :
    .deleted p ∈ v'.log ↔ p ∈ v.listed := by
  have same {other : Actor} (there : v.actors p = some other) : other = actor :=
    Option.some.inj (there.symm.trans found)
  cases turns with
  | out unlisted => exact ⟨fun deleted => absurd deleted fresh, fun there => absurd there unlisted⟩
  | empty there none =>
      rw [same there, head] at none
      cases none
  | keep listed there first goes =>
      rw [same there] at first goes
      rw [head] at first
      cases first
      exact absurd goes (not_or.mpr ⟨not_not.mpr ending, not_not.mpr service⟩)
  | delete listed there first _ _ more =>
      refine ⟨fun _ => listed, fun _ => ?_⟩
      refine more.keeps (P := fun w => .deleted p ∈ w.log) (fun _ _ member => member)
        (fun _ _ member => member) (fun {w} _ member => ?_) ?_
      · obtain ⟨victim, log⟩ := log_delete w p
        rw [log]
        exact List.mem_cons_of_mem _ (List.mem_cons_of_mem _ member)
      · obtain ⟨victim, log⟩ := log_delete (v.modify p (rest _)) p
        rw [log]
        exact List.mem_cons_of_mem _ List.mem_cons_self

end View

/-- No peer is deleted twice. A peer whose end was asked for has its info handler armed, and
its next run deletes the peer if and only if the peer, when server-side, is listed. -/
theorem teardown_deletes_iff {s : Popd} (reachable : system.Reachable s) :
    (∀ p, s.log.count (.deleted p) ≤ 1) ∧
    ∀ p peer, s.peers p = some peer → peer.serviceType = .httpProxy → requested p s.log = true →
      s.enabled (.infoDeal p) = true ∧ ∀ u s', dispatch (.infoDeal p) s = .ok (u, s') →
        (.deleted p ∈ s'.log ↔ (peer.tcpPeerType = .server → p ∈ s.pairedPeerTcpList)) := by
  have prepared := (reachable_view reachable).prepared
  refine ⟨prepared.once, fun p peer live service asked => ?_⟩
  have found := actors_view live
  have there : s.view.inbox p = some peer.toActor.inbox := by rw [View.inbox, found, Option.map_some]
  have sound := prepared.sound p _ there
  have log : s.view.log = s.log := rfl
  rw [log, asked] at sound
  have fresh : .deleted p ∉ s.view.log := by
    intro deleted
    rw [(prepared.gone p deleted).2] at there
    cases there
  have begun : ∀ call ∈ (s.view.infoRun p).log, call = .deleted p → call ∈ s.view.log := by
    intro call member is
    rcases List.mem_cons.mp member with rfl | before
    · cases is
    · exact before
  have absent : .deleted p ∉ (s.view.infoRun p).log := fun member => fresh (begun _ member rfl)
  have actors : (s.view.infoRun p).actors p = some { peer.toActor with tInfoDeal := none } := by
    rw [View.infoRun, View.modify_actors, Function.update_self]
    exact congrArg (Option.map _) found
  have armed : peer.tInfoDeal ≠ none := sound.armed rfl
  refine ⟨?_, fun u s' ran => ?_⟩
  · simpa [Popd.enabled, live, Option.isSome_iff_ne_none] using armed
  · obtain ⟨actor, again, dealt⟩ := infoDeal_runs ran
    rw [found] at again
    cases again
    by_cases server : peer.tcpPeerType = .server
    · obtain ⟨info, others, head, ends⟩ := sound.serverEnds rfl server
      rcases dealt with ⟨none, _⟩ | ⟨_, turns⟩ | ⟨deal, _⟩
      · exact absurd none armed
      · have deletes := turns.deletes_iff actors head ends service absent
        exact ⟨fun deleted _ => deletes.mp deleted, fun listed => deletes.mpr (listed server)⟩
      · exact absurd deal (sound.server server).2
    · obtain ⟨info, others, head, ends⟩ := sound.clientEnds rfl server
      have listed : p ∈ s.view.listed := prepared.clients p _ there server
      rcases dealt with ⟨none, _⟩ | ⟨deal, _⟩ | ⟨_, turns⟩
      · exact absurd none armed
      · exact absurd deal (sound.client server).2.1
      · have deletes := turns.deletes_iff actors head ends service absent
        exact ⟨fun _ isServer => absurd isServer server, fun _ => deletes.mpr listed⟩

/-- The client of a request goes away before the answer to the query comes. -/
def leavingClient : Option Popd :=
  replay (lookupRun 5) [.accept [(5, 1, 2)] false, .socket 1 true false false,
    .socket 1 true false false]

theorem leaving_client_deleted : ∃ s u s', system.Reachable s ∧ requested 1 s.log = true ∧
    dispatch (.infoDeal 1) s = .ok (u, s') ∧ .deleted 1 ∈ s'.log := by
  have runs : leavingClient.map (fun s => ((s.peers 1).map Peer.toActor, requested 1 s.log,
      (dispatch (.infoDeal 1) s).toOption.isSome)) = some (some { View.clientActor with
        tcpServerInfoList := [.break'] }, true, true) := by decide +kernel
  obtain ⟨s, ran, facts⟩ := Option.map_eq_some_iff.mp runs
  simp only [Prod.mk.injEq] at facts
  obtain ⟨client, asked, returns⟩ := facts
  obtain ⟨peer, found, actor⟩ := Option.map_eq_some_iff.mp client
  obtain ⟨⟨u, s'⟩, returned⟩ := Option.isSome_iff_exists.mp returns
  have reachable := replay_reachable ran
  have dealt := toOption_some returned
  refine ⟨s, u, s', reachable, asked, dealt, ?_⟩
  have deletes := (teardown_deletes_iff reachable).2 1 peer found
    (congrArg Actor.serviceType actor) asked
  refine (deletes.2 u s' dealt).mpr fun server => ?_
  have side : peer.tcpPeerType = .client := congrArg Actor.tcpPeerType actor
  rw [side] at server
  cases server

/-- The server-side peer of that client never was listed, and stays. -/
theorem leaving_server_kept : ∃ s peer u s', system.Reachable s ∧ s.peers 2 = some peer ∧
    peer.serviceType = .httpProxy ∧ requested 2 s.log = true ∧
    dispatch (.infoDeal 2) s = .ok (u, s') ∧ .deleted 2 ∉ s'.log := by
  have runs : leavingClient.map (fun s => ((s.peers 2).map Peer.toActor, requested 2 s.log,
      (dispatch (.infoDeal 2) s).toOption.map fun ran => decide (.deleted 2 ∈ ran.2.log))) =
      some (some { View.serverActor with
        tcpClientInfoList := [.connectionBreak]
        tInfoDeal := some .tcpClientEvent
        tDnsWaitAck := true }, true, some false) := by decide +kernel
  obtain ⟨s, ran, facts⟩ := Option.map_eq_some_iff.mp runs
  simp only [Prod.mk.injEq] at facts
  obtain ⟨server, asked, returns⟩ := facts
  obtain ⟨peer, found, actor⟩ := Option.map_eq_some_iff.mp server
  obtain ⟨⟨u, s'⟩, returned, kept⟩ := Option.map_eq_some_iff.mp returns
  exact ⟨s, peer, u, s', replay_reachable ran, found, congrArg Actor.serviceType actor, asked,
    toOption_some returned, of_decide_eq_false kept⟩

end Poplar.Proxy
