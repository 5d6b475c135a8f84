import Poplar.Proxy.Rules

/-!
# Where the bytes in a fifo come from

Bytes that were read from a peer are pushed on its own fifo, on that of its partner or on that
of a peer that was just made for it, each chunk at once and at most once. No other peer gets
them.
-/
namespace Poplar.Proxy

open Effects

/-- A push on `q` of bytes read from `o`, behind these calls, takes the chunk read last. -/
inductive Copies (q o : Nat) (bytes : List UInt8) : List Call → Prop
  /-- on the fifo of the peer itself -/
  | echo {partner : Option (Nat × TcpPeerType × TcpClientStatus)} {earlier : List Call} : q = o →
      Copies q o bytes (.chunk o bytes partner :: earlier)
  /-- on that of the partner it has -/
  | forward {side : TcpPeerType} {status : TcpClientStatus} {earlier : List Call} :
      Copies q o bytes (.chunk o bytes (some (q, side, status)) :: earlier)
  /-- on that of a new peer -/
  | request {partner : Option (Nat × TcpPeerType × TcpClientStatus)} {before : Option Nat}
      {earlier : List Call} : (∀ others origin, .queued q others origin ∉ earlier) →
      Copies q o bytes (.paired q o none before :: .chunk o bytes partner :: earlier)

/-- All pushes take the chunk read last. -/
def Sourced : List Call → Prop
  | [] => True
  | call :: earlier =>
    (∀ q bytes o, call = .queued q bytes (some o) → Copies q o bytes earlier) ∧ Sourced earlier

/-- The bytes read from `o` that a call pushes. -/
def Call.copyOf (o : Nat) : Call → Option (List UInt8)
  | .queued _ bytes (some origin) => if origin = o then some bytes else none
  | _ => none

def Call.chunkOf (o : Nat) : Call → Option (List UInt8)
  | .chunk p bytes _ => if p = o then some bytes else none
  | _ => none

variable {log later earlier : List Call} {call : Call} {q o : Nat} {bytes : List UInt8}

theorem Sourced.cons (sourced : Sourced log)
    (other : ∀ q bytes o, call ≠ .queued q bytes (some o)) : Sourced (call :: log) :=
  ⟨fun q bytes o same => absurd same (other q bytes o), sourced⟩

theorem Sourced.push (sourced : Sourced log) (copies : Copies q o bytes log) :
    Sourced (.queued q bytes (some o) :: log) := by
  refine ⟨?_, sourced⟩
  rintro _ _ _ ⟨⟩
  exact copies

theorem Sourced.append (sourced : Sourced log) (quiet : ∀ call ∈ later, call.quiet) :
    Sourced (later ++ log) := by
  induction later with
  | nil => exact sourced
  | cons call later ih =>
      refine (ih fun call member => quiet call (List.mem_cons_of_mem _ member)).cons ?_
      rintro q bytes o rfl
      cases quiet _ List.mem_cons_self

theorem Sourced.copies (sourced : Sourced log)
    (split : log = later ++ .queued q bytes (some o) :: earlier) : Copies q o bytes earlier := by
  induction later generalizing log with
  | nil =>
      subst split
      exact sourced.1 q bytes o rfl
  | cons call later ih =>
      subst split
      exact ih sourced.2 rfl

theorem Copies.chunk (copies : Copies q o bytes log) : ∃ earlier, earlier <:+ log ∧
    log.filterMap (Call.copyOf o) = earlier.filterMap (Call.copyOf o) ∧
      log.filterMap (Call.chunkOf o) = bytes :: earlier.filterMap (Call.chunkOf o) := by
  have read {partner : Option (Nat × TcpPeerType × TcpClientStatus)} {earlier : List Call} :
      (Call.chunk o bytes partner :: earlier).filterMap (Call.chunkOf o) =
        bytes :: earlier.filterMap (Call.chunkOf o) :=
    List.filterMap_cons_some (if_pos rfl)
  cases copies with
  | echo => exact ⟨_, List.suffix_cons _ _, rfl, read⟩
  | forward => exact ⟨_, List.suffix_cons _ _, rfl, read⟩
  | request => exact ⟨_, (List.suffix_cons _ _).trans (List.suffix_cons _ _), rfl, read⟩

/-- Copies are chunks, in the order they were read in, and a chunk is copied once at most. The
induction covers all earlier logs, as a copy stands for a chunk some calls before it. -/
theorem Sourced.sublist (sourced : Sourced log) (o : Nat) :
    (log.filterMap (Call.copyOf o)).Sublist (log.filterMap (Call.chunkOf o)) := by
  suffices all : ∀ earlier, earlier <:+ log →
      (earlier.filterMap (Call.copyOf o)).Sublist (earlier.filterMap (Call.chunkOf o)) from
    all log List.suffix_rfl
  induction log with
  | nil =>
      intro earlier suffix
      rw [List.suffix_nil.mp suffix]
      exact List.Sublist.refl _
  | cons call log ih =>
      intro earlier suffix
      obtain rfl | before := List.suffix_cons_iff.mp suffix
      · have rest := ih sourced.2
        cases pushed : call.copyOf o with
        | none =>
            rw [List.filterMap_cons_none pushed]
            refine (rest log List.suffix_rfl).trans ?_
            exact (List.sublist_cons_self call log).filterMap _
        | some bytes =>
            obtain ⟨q, same⟩ : ∃ q, call = .queued q bytes (some o) := by
              unfold Call.copyOf at pushed
              split at pushed
              next q others origin =>
                split at pushed
                next here =>
                  cases pushed
                  exact ⟨q, by rw [here]⟩
                next => cases pushed
              next => cases pushed
            obtain ⟨earlier, suffix, copied, read⟩ := (sourced.1 q bytes o same).chunk
            rw [List.filterMap_cons_some pushed, copied, same]
            change (bytes :: _).Sublist (log.filterMap _)
            rw [read]
            exact (rest earlier suffix).cons_cons bytes
      · exact ih sourced.2 earlier before

namespace View

variable {v v' : View} {p : Nat}

/-- All pushes take the chunk read last, and peers are pushed on that were made before. -/
structure Origins (v : View) : Prop extends Bounded v where
  sourced : Sourced v.log

theorem Origins.mild (origins : Origins v) (mild : Mild v v') : Origins v' := by
  refine ⟨origins.toBounded.mild mild, ?_⟩
  obtain ⟨calls, log, quiet⟩ := mild.log
  rw [log]
  exact origins.sourced.append quiet

/-- A chunk that was just read is pushed. -/
theorem Origins.pushed {q : Nat} {bytes : List UInt8} (origins : Origins v) (inside : q < v.next)
    (copies : Copies q p bytes v.log) : Origins (v.note (.queued q bytes (some p))) := by
  refine ⟨origins.toBounded.note _ ?_, origins.sourced.push copies⟩
  rintro _ _ _ ⟨⟩
  exact inside

theorem Origins.handled {bytes : List UInt8} (origins : Origins v)
    (handled : Handled p bytes (v.note (.chunk p bytes (v.partnerOf p))) v') : Origins v' := by
  have read : Origins (v.note (.chunk p bytes (v.partnerOf p))) :=
    ⟨origins.toBounded.note _ (by simp), origins.sourced.cons (by simp)⟩
  have gives {q : Nat} {side : TcpPeerType} {status : TcpClientStatus}
      (partner : v.partnerOf p = some (q, side, status)) :
      Origins ((v.note (.chunk p bytes (v.partnerOf p))).note (.queued q bytes (some p))) := by
    obtain ⟨paired, _, live, _⟩ := typed_of_partner partner
    refine read.pushed (origins.partners p q paired) ?_
    rw [log_note, partner]
    exact .forward
  have opens (type : v.typeOf p = some .client) :
      Origins ((v.note (.chunk p bytes (v.partnerOf p))).openServer p) := by
    refine ⟨read.toBounded.openServer (live_of_type type), ?_⟩
    rw [openServer_log]
    exact read.sourced.cons (by simp)
  cases handled with
  | forward _ partner written => exact (gives partner).mild written.mild
  | back _ partner written => exact (gives partner).mild written.mild
  | ignore => exact read
  | delay type _ => exact read.pushed (inside_of_live (live_of_type type)) (.echo rfl)
  | refuse _ _ closed => exact read.mild closed.mild
  | request type _ resolved =>
      refine Origins.mild ?_ resolved.mild
      have alone : v.pairedOf v.next = none := pairedOf_fresh v _ (Nat.le_refl _)
      have copies : Copies v.next p bytes
          ((v.note (.chunk p bytes (v.partnerOf p))).openServer p).log := by
        rw [openServer_log]
        change Copies v.next p bytes (.paired v.next p (v.pairedOf v.next) (v.pairedOf p) ::
          .chunk p bytes (v.partnerOf p) :: v.log)
        rw [alone]
        refine .request fun others origin member => ?_
        exact absurd (origins.queued _ _ _ member) (Nat.lt_irrefl _)
      have pushed := (opens type).pushed (Nat.lt_succ_self _) copies
      exact ⟨pushed.toBounded.note _ (by simp), pushed.sourced.cons (by simp)⟩
  | tunnel type _ resolved =>
      refine Origins.mild ?_ resolved.mild
      refine ⟨(opens type).toBounded.note _ ?_, (opens type).sourced.cons (by simp)⟩
      rintro _ _ _ ⟨⟩
      exact Nat.lt_succ_of_lt (inside_of_live (live_of_type type))

theorem Origins.reads (origins : Origins v) (reads : Reads p v v') : Origins v' := by
  induction reads with
  | done => exact origins
  | broken closed => exact origins.mild closed.mild
  | chunk handled _ ih => exact ih (origins.handled handled)

theorem Reached.origins (reached : Reached v) : Origins v := by
  induction reached with
  | refl => exact ⟨Relays.init.toBounded, trivial⟩
  | tail _ step ih =>
      obtain mild | ⟨p, reads⟩ := step.mild_or_reads
      · exact ih.mild mild
      · exact ih.reads reads

end View

/-! ## Bytes that were not read -/

/-- The daemon itself has nothing to say but the answer to CONNECT. -/
def Replies (s s' : Popd) : Prop := ∃ calls, s'.log = calls ++ s.log ∧
  ∀ q bytes, .queued q bytes none ∈ calls → bytes = HTTP_METHOD_CONNECT_ESTABLISHED

namespace Replies

variable {s m s' : Popd}

theorem of_log (log : s'.log = s.log) : Replies s s' := ⟨[], log, nofun⟩

theorem trans (first : Replies s m) (second : Replies m s') : Replies s s' := by
  obtain ⟨calls, log, fixed⟩ := first
  obtain ⟨calls', log', fixed'⟩ := second
  refine ⟨calls' ++ calls, by rw [log', log, List.append_assoc], fun q bytes member => ?_⟩
  rcases List.mem_append.mp member with new | old
  · exact fixed' q bytes new
  · exact fixed q bytes old

theorem bind {α β : Type} {x : Daemon α} {f : α → Daemon β} (first : Within Replies x)
    (second : ∀ a, Within Replies (f a)) : Within Replies (x >>= f) := by
  intro s b s' runs
  obtain ⟨a, m, ran, rest⟩ := runs_bind runs
  exact (first s a m ran).trans (second a m b s' rest)

theorem load (p : Nat) : Within Replies (load p) := by
  intro s peer s' runs
  rw [(load_finds runs).2]
  exact of_log rfl

theorem store (p : Nat) (f : Peer → Peer) : Within Replies (store p f) := by
  intro s u s' runs
  obtain ⟨peer, found, rfl⟩ := store_finds runs
  exact of_log rfl

theorem note {call : Popd → Call}
    (fixed : ∀ s q bytes, call s = .queued q bytes none → bytes = HTTP_METHOD_CONNECT_ESTABLISHED) :
    Within Replies (note call) := by
  intro s u s' runs
  rw [runs_modify runs]
  refine ⟨[call s], rfl, fun q bytes member => ?_⟩
  exact fixed s q bytes (List.mem_singleton.mp member).symm

end Replies

theorem repliesRules : Rules fun _ _ x => Within Replies x where
  pure := by
    intro α A a s b s' runs
    rw [(runs_pure runs).2]
    exact Replies.of_log rfl
  bind := Replies.bind
  load _ next := Replies.bind (Replies.load _) next
  store _ _ := Replies.store _ _
  pair _ _ := Replies.store _ _
  push := by
    intro A p bytes origin fixed _
    refine Replies.bind (Replies.store _ _) fun _ => Replies.note ?_
    rintro s q _ ⟨⟩
    exact fixed rfl
  made := by
    intro β A f g _ _ _ next
    refine Replies.bind ?_ fun p => Replies.bind (Replies.store _ _) fun _ => next p
    intro s p s' runs
    cases runs
    exact Replies.of_log rfl
  modify := by
    intro A f same s u s' runs
    rw [runs_modify runs]
    exact Replies.of_log (congrArg (fun kept => kept.2.2.2) (same s))
  note none := by
    apply Replies.note
    intro s q bytes same
    have silent := none s
    rw [same] at silent
    cases silent
  ask := by
    intro A s answer s' runs
    cases runs
    exact Replies.of_log rfl
  get := by
    intro A s t s' runs
    rw [(runs_get runs).2]
    exact Replies.of_log rfl
  call := by
    intro α A result _ s a s' runs
    rw [call_runs runs]
    exact Replies.of_log rfl
  abort := by
    intro A fault _ s u s' runs
    cases runs

theorem replies : Anywhere fun _ x => Within Replies x where
  toRules := repliesRules
  writeLoop n member := repliesRules.writes (fun _ _ _ => Replies.store _ _) member n
  reads next := Replies.bind (Replies.load _) next
  free p := by
    intro s u s' runs
    obtain ⟨peer, found, rfl⟩ := free_finds runs
    exact Replies.of_log rfl

theorem replies_of_reachable {s : Popd} (reachable : system.Reachable s) {q : Nat}
    {bytes : List UInt8} (pushed : .queued q bytes none ∈ s.log) :
    bytes = HTTP_METHOD_CONNECT_ESTABLISHED := by
  induction reachable with
  | start starts =>
      obtain ⟨sockfd, answers, rfl⟩ := starts
      cases pushed
  | step _ _ executes ih =>
      obtain ⟨u, ran⟩ := exec_runs executes
      obtain ⟨calls, log, fixed⟩ := replies.dispatch _ _ _ _ ran
      rw [log] at pushed
      rcases List.mem_append.mp pushed with new | old
      · exact fixed q bytes new
      · exact ih old

/-! ## Runs -/

/-- In every run, bytes that were read from a peer are pushed at once, on its own fifo, on that
of the partner it has then or on that of a peer made for it; in all, the chunks pushed are some
of those read, in order. What was read from no peer is the answer to CONNECT. -/
theorem bytes_stay_in_pair {s : Popd} (reachable : system.Reachable s) :
    (∀ q o bytes later earlier, s.log = later ++ .queued q bytes (some o) :: earlier →
      Copies q o bytes earlier) ∧
    (∀ o, (s.log.filterMap (Call.copyOf o)).Sublist (s.log.filterMap (Call.chunkOf o))) ∧
    ∀ q bytes, .queued q bytes none ∈ s.log → bytes = HTTP_METHOD_CONNECT_ESTABLISHED := by
  have sourced := (reachable_view reachable).origins.sourced
  exact ⟨fun q o bytes later earlier split => sourced.copies split, sourced.sublist,
    fun q bytes => replies_of_reachable reachable⟩

/-- `abc` is copied to the server-side peer that the request before it has made. -/
theorem bytes_stay_in_pair_sample : ∃ s earlier, system.Reachable s ∧
    s.log = .queued 2 (Http.ascii "abc") (some 1) :: earlier ∧
    Copies 2 1 (Http.ascii "abc") earlier ∧
    (s.log.filterMap (Call.copyOf 1)).Sublist (s.log.filterMap (Call.chunkOf 1)) := by
  have runs : (relayRun 7 [.socket 2 false true false, .infoDeal 2, .socket 1 true false false]).map
      (fun s => s.log[0]?) = some (some (.queued 2 (Http.ascii "abc") (some 1))) := by
    decide +kernel
  obtain ⟨s, ran, here⟩ := Option.map_eq_some_iff.mp runs
  have reachable := replay_reachable ran
  have split := split_at here
  obtain ⟨copies, sublist, _⟩ := bytes_stay_in_pair reachable
  exact ⟨s, _, reachable, split, copies 2 1 _ _ _ split, sublist 1⟩

end Poplar.Proxy
