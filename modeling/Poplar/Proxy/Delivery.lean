import Poplar.Proxy.Rules

/-!
# Bytes on their way through a peer

Bytes are pushed behind those that wait in the fifo of a peer, and leave it at the front,
for `write`. No event puts them in another order, doubles them or takes one out of the
middle, so that what went out to a server is a beginning of what its client sent.
-/
namespace Poplar.Proxy

open Effects Poplar.Domain

/-- The bytes that wait in the fifo of `p`. -/
def Popd.pending (s : Popd) (p : Nat) : List UInt8 :=
  ((s.peers p).map fun peer => peer.writeFifo.flatten).getD []

/-- The bytes that `write` took for `p`. -/
def Popd.sent (s : Popd) (p : Nat) : List UInt8 := ((s.peers p).map Peer.sent).getD []

/-- Of what waited and what was pushed since, an end still waits. -/
def Passes (s s' : Popd) : Prop := ∃ calls, s'.log = calls ++ s.log ∧
  ∀ p, s'.pending p <:+ s.pending p ++ bytesQueued p calls

/-- With these calls each peer that is left was sent a beginning of what waited for it and was
pushed on it, and the rest waits. The others were made. -/
structure Delivers (s s' : Popd) (calls : List Call) : Prop where
  log : s'.log = calls ++ s.log
  next : s.next ≤ s'.next
  inside : ∀ p, s'.next ≤ p → bytesQueued p calls = []
  moved : ∀ p, (s'.peers p).isSome → ∃ out, s'.sent p = s.sent p ++ out ∧
    out ++ s'.pending p = s.pending p ++ bytesQueued p calls
  made : ∀ p, (s'.peers p).isSome → s.peers p = none → s.next ≤ p

/-- Some calls deliver. -/
def Delivering (s s' : Popd) : Prop := ∃ calls, Delivers s s' calls

variable {s m s' : Popd} {p q : Nat} {calls : List Call}

theorem pending_found {peer : Peer} (found : s.peers p = some peer) :
    s.pending p = peer.writeFifo.flatten := by
  rw [Popd.pending, found]
  rfl

theorem sent_found {peer : Peer} (found : s.peers p = some peer) : s.sent p = peer.sent := by
  rw [Popd.sent, found]
  rfl

theorem pending_gone (gone : s.peers p = none) : s.pending p = [] := by
  rw [Popd.pending, gone]
  rfl

theorem sent_gone (gone : s.peers p = none) : s.sent p = [] := by
  rw [Popd.sent, gone]
  rfl

/-- What waits for a peer and what it was sent are read off the peer. -/
theorem bytes_congr (same : s'.peers p = s.peers p) :
    s'.sent p = s.sent p ∧ s'.pending p = s.pending p := by
  constructor
  · rw [Popd.sent, Popd.sent, same]
  · rw [Popd.pending, Popd.pending, same]

/-- For a peer that is as it was nothing moves. -/
theorem moved_kept (same : s'.peers p = s.peers p) (nothing : bytesQueued p calls = []) :
    ∃ out, s'.sent p = s.sent p ++ out ∧
      out ++ s'.pending p = s.pending p ++ bytesQueued p calls := by
  obtain ⟨sent, pending⟩ := bytes_congr same
  refine ⟨[], ?_, ?_⟩
  · rw [sent, List.append_nil]
  · rw [pending, nothing, List.append_nil, List.nil_append]

/-- Work on a peer makes no other. -/
theorem put_makes_none {peer peer' : Peer} (found : s.peers p = some peer)
    (live : ((s.put p (some peer') (s.inside found)).peers q).isSome) : s.peers q ≠ none := by
  intro gone
  have here : q ≠ p := by
    rintro rfl
    cases found.symm.trans gone
  rw [put_of_ne _ here, gone] at live
  cases live

theorem queuedOn_none {call : Call} (none : call.pushes = false) (p : Nat) :
    call.queuedOn p = [] := by
  cases call with
  | queued => cases none
  | _ => rfl

theorem bytesQueued_own (p : Nat) (bytes : List UInt8) (origin : Option Nat) :
    bytesQueued p [.queued p bytes origin] = bytes := by
  simp [bytesQueued, Call.queuedOn]

theorem bytesQueued_other (different : q ≠ p) (bytes : List UInt8) (origin : Option Nat) :
    bytesQueued q [.queued p bytes origin] = [] := by
  apply bytesQueued_none
  intro call member
  rw [List.mem_singleton.mp member]
  exact if_neg different.symm

namespace Passes

theorem refl (s : Popd) : Passes s s :=
  ⟨[], rfl, fun p => ⟨[], (List.append_nil (s.pending p)).symm⟩⟩

theorem trans (first : Passes s m) (second : Passes m s') : Passes s s' := by
  obtain ⟨calls, log, left⟩ := first
  obtain ⟨calls', log', left'⟩ := second
  refine ⟨calls' ++ calls, ?_, fun p => ?_⟩
  · rw [log', log, List.append_assoc]
  · obtain ⟨out, split⟩ := left p
    refine (left' p).trans ⟨out, ?_⟩
    rw [← List.append_assoc, split, bytesQueued_append, List.append_assoc]

end Passes

namespace Delivers

theorem passes (delivers : Delivers s s' calls) : Passes s s' := by
  refine ⟨calls, delivers.log, fun p => ?_⟩
  cases there : s'.peers p with
  | none =>
      rw [pending_gone there]
      exact List.nil_suffix
  | some peer =>
      obtain ⟨out, _, split⟩ := delivers.moved p (Option.isSome_of_eq_some there)
      exact ⟨out, split⟩

theorem trans {calls' : List Call} (first : Delivers s m calls) (second : Delivers m s' calls') :
    Delivers s s' (calls' ++ calls) := by
  constructor
  · rw [second.log, first.log, List.append_assoc]
  · exact first.next.trans second.next
  · intro p beyond
    rw [bytesQueued_append, second.inside p beyond, first.inside p (second.next.trans beyond)]
    rfl
  · intro p live
    obtain ⟨out, sent, split⟩ := second.moved p live
    rw [bytesQueued_append]
    cases there : m.peers p with
    | some peer =>
        obtain ⟨before, sentBefore, splitBefore⟩ :=
          first.moved p (Option.isSome_of_eq_some there)
        refine ⟨before ++ out, ?_, ?_⟩
        · rw [sent, sentBefore, List.append_assoc]
        · rw [List.append_assoc, split, ← List.append_assoc, splitBefore, List.append_assoc]
    | none =>
        -- a peer made later was nothing before, and nothing was pushed on it
        have beyond := second.made p live there
        have gone : s.peers p = none := s.fresh p (first.next.trans beyond)
        refine ⟨out, ?_, ?_⟩
        · rw [sent, sent_gone there, sent_gone gone]
        · rw [split, pending_gone there, pending_gone gone, first.inside p beyond]
          rfl
  · intro p live gone
    cases there : m.peers p with
    | some peer => exact first.made p (Option.isSome_of_eq_some there) gone
    | none => exact first.next.trans (second.made p live there)

/-- Calls that push nothing, with the peers as they were. -/
theorem same (peers : s'.peers = s.peers) (next : s'.next = s.next) (log : s'.log = calls ++ s.log)
    (nothing : ∀ p, ∀ call ∈ calls, call.queuedOn p = []) : Delivers s s' calls := by
  constructor
  · exact log
  · exact Nat.le_of_eq next.symm
  · exact fun p _ => bytesQueued_none (nothing p)
  · exact fun p _ => moved_kept (congrFun peers p) (bytesQueued_none (nothing p))
  · intro p live gone
    rw [peers, gone] at live
    cases live

/-- One peer is sent the front of its fifo. -/
theorem put {peer peer' : Peer} (found : s.peers p = some peer) {out : List UInt8}
    (sent : peer'.sent = peer.sent ++ out)
    (split : out ++ peer'.writeFifo.flatten = peer.writeFifo.flatten) :
    Delivers s (s.put p (some peer') (s.inside found)) [] := by
  constructor
  · rfl
  · exact Nat.le_refl _
  · exact fun _ _ => rfl
  · intro q _
    by_cases here : q = p
    · subst here
      refine ⟨out, ?_, ?_⟩
      · rw [sent_found (put_self _ _), sent_found found, sent]
      · rw [pending_found (put_self _ _), pending_found found, split]
        exact (List.append_nil _).symm
    · exact moved_kept (put_of_ne (s.inside found) here) rfl
  · exact fun q live gone => absurd gone (put_makes_none found live)

end Delivers

namespace Delivering

theorem of_peers (peers : s'.peers = s.peers) (next : s'.next = s.next) (log : s'.log = s.log) :
    Delivering s s' := ⟨[], .same peers next log nofun⟩

theorem trans (first : Delivering s m) (second : Delivering m s') : Delivering s s' := by
  obtain ⟨calls, first⟩ := first
  obtain ⟨calls', second⟩ := second
  exact ⟨calls' ++ calls, first.trans second⟩

theorem bind {α β : Type} {x : Daemon α} {f : α → Daemon β} (first : Within Delivering x)
    (second : ∀ a, Within Delivering (f a)) : Within Delivering (x >>= f) := by
  intro s b s' runs
  obtain ⟨a, m, ran, rest⟩ := runs_bind runs
  exact (first s a m ran).trans (second a m b s' rest)

theorem pure {α : Type} (a : α) : Within Delivering (Pure.pure a : Daemon α) := by
  intro s b s' runs
  rw [(runs_pure runs).2]
  exact of_peers rfl rfl rfl

theorem get : Within Delivering (get : Daemon Popd) := by
  intro s t s' runs
  rw [(runs_get runs).2]
  exact of_peers rfl rfl rfl

theorem load (p : Nat) : Within Delivering (Proxy.load p) := by
  intro s peer s' runs
  rw [(load_finds runs).2]
  exact of_peers rfl rfl rfl

theorem modify {f : Popd → Popd} (same : ∀ s, (f s).kept = s.kept) :
    Within Delivering (modify f : Daemon PUnit) := by
  intro s u s' runs
  rw [runs_modify runs]
  have kept := same s
  simp only [Popd.kept, Prod.mk.injEq] at kept
  exact of_peers kept.1 kept.2.1 kept.2.2.2

theorem note {call : Popd → Call} (none : ∀ s, (call s).pushes = false) :
    Within Delivering (note call) := by
  intro s u s' runs
  rw [runs_modify runs]
  refine ⟨[call s], .same rfl rfl rfl fun p other member => ?_⟩
  rw [List.mem_singleton.mp member]
  exact queuedOn_none (none s) p

theorem call {α : Type} {result : Except Fault α} : Within Delivering (call result) := by
  intro s a s' runs
  rw [call_runs runs]
  exact of_peers rfl rfl rfl

theorem ask : Within Delivering ask := by
  intro s answer s' runs
  cases runs
  exact of_peers rfl rfl rfl

theorem store {f : Peer → Peer} (fifo : ∀ peer, (f peer).writeFifo = peer.writeFifo)
    (sent : ∀ peer, (f peer).sent = peer.sent) : Within Delivering (store p f) := by
  intro s u s' runs
  obtain ⟨peer, found, rfl⟩ := store_finds runs
  have nothing : (f peer).sent = peer.sent ++ [] := by rw [sent, List.append_nil]
  exact ⟨[], .put found nothing (by rw [fifo]; rfl)⟩

theorem streamFifoPush (p : Nat) (bytes : List UInt8) (origin : Option Nat) :
    Within Delivering (streamFifoPush p bytes origin) := by
  intro s u s' runs
  obtain ⟨_, m, stored, noted⟩ := runs_bind runs
  obtain ⟨peer, found, rfl⟩ := store_finds stored
  rw [runs_modify noted]
  set m := s.put p (some { peer with writeFifo := peer.writeFifo ++ [bytes] }) (s.inside found)
  have there : m.peers p = some { peer with writeFifo := peer.writeFifo ++ [bytes] } := put_self _ _
  refine ⟨[.queued p bytes origin], rfl, Nat.le_refl _, fun q beyond => ?_, fun q _ => ?_,
    fun q live gone => absurd gone (put_makes_none found live)⟩
  · have here : q ≠ p := by
      rintro rfl
      exact absurd (s.inside found) (Nat.not_lt.mpr beyond)
    exact bytesQueued_other here bytes origin
  · by_cases here : q = p
    · subst here
      refine ⟨[], ?_⟩
      change m.sent q = _ ∧ m.pending q = _
      rw [sent_found there, sent_found found, pending_found there, pending_found found,
        bytesQueued_own]
      simp
    · exact moved_kept (put_of_ne (s.inside found) here) (bytesQueued_other here bytes origin)

/-- A peer that is made was sent nothing and has nothing to send. -/
theorem made {β : Type} {f : Peer → Peer} {g : Nat → Daemon β} (nothing : (f {}).writeFifo = [])
    (unsent : (f {}).sent = []) (next : ∀ p, Within Delivering (g p)) :
    Within Delivering (popPeerNew >>= fun p => Proxy.store p f >>= fun _ => g p) := by
  intro s b s' runs
  obtain ⟨p, m, new, rest⟩ := runs_bind runs
  obtain ⟨_, m', stored, rest⟩ := runs_bind rest
  refine trans ?_ (next p m' b s' rest)
  cases new
  obtain ⟨peer, found, rfl⟩ := store_finds stored
  have blank : peer = {} := (Option.some.inj (found.symm.trans (Function.update_self _ _ _)))
  subst blank
  have old (q : Nat) (other : q ≠ s.next) :
      (Popd.put _ s.next (some (f {})) (Popd.inside _ found)).peers q = s.peers q := by
    rw [put_of_ne _ other]
    exact Function.update_of_ne other _ _
  refine ⟨[], rfl, Nat.le_succ _, fun _ _ => rfl, fun q _ => ?_, fun q live gone => ?_⟩
  · by_cases here : q = s.next
    · subst here
      have gone := s.fresh s.next (Nat.le_refl _)
      refine ⟨[], ?_⟩
      rw [sent_found (put_self _ _), pending_found (put_self _ _), sent_gone gone,
        pending_gone gone, unsent, nothing]
      exact ⟨rfl, rfl⟩
    · exact moved_kept (old q here) rfl
  · by_cases here : q = s.next
    · exact Nat.le_of_eq here.symm
    · rw [old q here, gone] at live
      cases live

end Delivering

theorem deliveringRules : Rules fun _ _ x => Within Delivering x where
  pure := Delivering.pure
  bind := Delivering.bind
  load _ next := Delivering.bind (Delivering.load _) next
  store _ same := Delivering.store (fun peer => congrArg (fun core => core.2.2.1) (same peer))
    fun peer => congrArg (fun core => core.2.2.2) (same peer)
  pair _ _ := Delivering.store (fun _ => rfl) fun _ => rfl
  push _ _ := Delivering.streamFifoPush _ _ _
  made _ nothing unsent next := Delivering.made nothing unsent next
  modify := Delivering.modify
  note := Delivering.note
  ask := Delivering.ask
  get := Delivering.get
  call _ := Delivering.call
  abort := by
    intro A fault _ s u s' runs
    cases runs

/-- What `write` takes of the first stream was at the front. -/
theorem deliveringWalk : Walk fun _ _ x => Within Delivering x where
  toRules := deliveringRules
  writeLoop := by
    intro A p n _
    induction n with
    | zero => exact Delivering.pure _
    | succ n ih =>
        intro s failed s' runs
        obtain ⟨peer, m, loaded, rest⟩ := runs_bind runs
        obtain ⟨found, rfl⟩ := load_finds loaded
        cases fifo : peer.writeFifo with
        | nil =>
            simp only [fifo] at rest
            exact Delivering.pure _ _ _ _ rest
        | cons stream others =>
            simp only [fifo] at rest
            obtain ⟨answer, m', asked, rest⟩ := runs_bind rest
            have takes {left : List (List UInt8)} {out : List UInt8} {u : Unit} {t : Popd}
                (stored : store p (fun peer => { peer with
                  writeFifo := left, sent := peer.sent ++ out }) m' = .ok (u, t))
                (split : out ++ left.flatten = stream ++ others.flatten) : Delivering m t := by
              refine (Delivering.ask _ _ _ asked).trans ?_
              obtain ⟨peer', found', rfl⟩ := store_finds stored
              cases asked
              cases found.symm.trans found'
              refine ⟨[], .put found' rfl ?_⟩
              rw [fifo, List.flatten_cons]
              exact split
            generalize (if peer.sockfd < 0 then none else answer.write) = written at rest
            cases written with
            | none =>
                dsimp only at rest
                refine (Delivering.ask _ _ _ asked).trans ?_
                split at rest
                · exact Delivering.pure _ _ _ _ rest
                · exact Delivering.bind (deliveringRules.popTcpClosePairedPeer (Set.mem_univ p))
                    (fun _ => Delivering.pure _) _ _ _ rest
            | some num =>
                dsimp only at rest
                split at rest
                · obtain ⟨_, t, stored, rest⟩ := runs_bind rest
                  rw [(runs_pure rest).2]
                  apply takes stored
                  rw [List.flatten_cons, ← List.append_assoc, List.take_append_drop]
                · obtain ⟨_, t, stored, rest⟩ := runs_bind rest
                  exact (takes stored rfl).trans (ih _ _ _ rest)

theorem delivering : Anywhere fun _ x => Within Delivering x where
  toWalk := deliveringWalk
  reads next := Delivering.bind (Delivering.load _) next
  free p := by
    intro s u s' runs
    obtain ⟨peer, found, rfl⟩ := free_finds runs
    have other {q : Nat} (live : ((s.put p none (s.inside found)).peers q).isSome) : q ≠ p := by
      rintro rfl
      rw [put_self] at live
      cases live
    refine ⟨[], rfl, Nat.le_refl _, fun _ _ => rfl, fun q live => ?_, fun q live gone => ?_⟩
    · exact moved_kept (put_of_ne (s.inside found) (other live)) rfl
    · rw [put_of_ne _ (other live), gone] at live
      cases live

/-! ## Runs -/

/-- Whatever the events, of the bytes that waited for a peer and of those pushed since an end
still waits. -/
theorem run_passes (s : Popd) (events : List Dispatch) : system.Every (Passes s) events s := by
  suffices ∀ m, Passes s m → system.Every (Passes s) events m from this s (Passes.refl s)
  induction events with
  | nil => exact fun m earlier => earlier
  | cons event events ih =>
      intro m earlier
      refine ⟨earlier, fun m' _ executes => ih m' ?_⟩
      obtain ⟨u, ran⟩ := exec_runs executes
      obtain ⟨calls, delivers⟩ := delivering.dispatch event _ _ _ ran
      exact earlier.trans delivers.passes

theorem bytes_init (sockfd : Nat) (answers : Nat → Answer) (p : Nat) :
    (popInit sockfd answers).sent p = [] ∧ (popInit sockfd answers).pending p = [] := by
  by_cases here : p = 0
  · rw [here]
    exact ⟨rfl, rfl⟩
  · have gone : (popInit sockfd answers).peers p = none :=
      first_fresh _ p (Nat.one_le_iff_ne_zero.mpr here)
    exact ⟨sent_gone gone, pending_gone gone⟩

theorem delivers_of_reachable (reachable : system.Reachable s) :
    ∃ sockfd answers, Delivers (popInit sockfd answers) s s.log := by
  induction reachable with
  | start starts =>
      obtain ⟨sockfd, answers, rfl⟩ := starts
      exact ⟨sockfd, answers, .same rfl rfl rfl nofun⟩
  | step _ _ executes ih =>
      obtain ⟨sockfd, answers, before⟩ := ih
      obtain ⟨u, ran⟩ := exec_runs executes
      obtain ⟨calls, delivers⟩ := delivering.dispatch _ _ _ _ ran
      refine ⟨sockfd, answers, ?_⟩
      rw [delivers.log]
      exact before.trans delivers

/-- What a peer was sent and what waits for it are what was pushed on it. -/
theorem sent_of_reachable (reachable : system.Reachable s) {p : Nat} (live : (s.peers p).isSome) :
    s.sent p ++ s.pending p = bytesQueued p s.log := by
  obtain ⟨sockfd, answers, delivers⟩ := delivers_of_reachable reachable
  obtain ⟨out, sent, split⟩ := delivers.moved p live
  obtain ⟨unsent, nothing⟩ := bytes_init sockfd answers p
  rw [sent, unsent, List.nil_append, split, nothing, List.nil_append]

/-- While the server-side peer is there, what `write` took for it and what waits in its fifo are
the request and what its client sent since, in order. -/
theorem delivered_of_steady (reachable : system.Reachable s) {client server : Nat}
    {bytes : List UInt8} {later earlier : List Call}
    (split : s.log = later ++ .requested client server bytes :: earlier)
    (steady : ∀ call ∈ later, call.steady client) (live : (s.peers server).isSome) :
    s.sent server ++ s.pending server = bytes ++ bytesRead client later := by
  obtain ⟨queued, _⟩ := ((reachable_view reachable).relays.since client server bytes later earlier
    split steady).2
  rw [← queued]
  exact sent_of_reachable reachable live

/-- The server's socket takes twenty bytes of the request and of `abc` behind it. -/
theorem delivered_of_steady_sample : ∃ s, system.Reachable s ∧ (s.pending 2).length = 15 ∧
    (s.sent 2).length = 20 ∧
    s.sent 2 ++ s.pending 2 = addressRequest ++ bytesRead 1 (s.log.take 3) := by
  have runs : (replay (fun n => if n = 1 then { read := addressRequest } else
      if n = 8 then { read := Http.ascii "abc" } else { write := some 10 })
      [.accept [(5, 1, 2)] false, .socket 1 true false false, .socket 2 false true false,
        .infoDeal 2, .socket 2 false true false, .socket 1 true false false]).map
      (fun s => (s.log[3]?, ((s.pending 2).length, (s.sent 2).length),
        (s.log.take 3).all (Call.steady 1), (s.peers 2).isSome)) =
        some (some (.requested 1 2 addressRequest), (15, 20), true, true) := by
    decide +kernel
  obtain ⟨s, ran, facts⟩ := Option.map_eq_some_iff.mp runs
  obtain ⟨here, facts⟩ := Prod.mk.inj facts
  obtain ⟨lengths, facts⟩ := Prod.mk.inj facts
  obtain ⟨waits, took⟩ := Prod.mk.inj lengths
  obtain ⟨steady, live⟩ := Prod.mk.inj facts
  have reachable := replay_reachable ran
  exact ⟨s, reachable, waits, took,
    delivered_of_steady reachable (split_at here) (List.all_eq_true.mp steady) live⟩

end Poplar.Proxy
