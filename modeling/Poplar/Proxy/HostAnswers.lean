import Poplar.Proxy.Cached

/-!
# Whom an answer serves

An answer is matched with a waiting peer by its transaction identifier alone. The address
it brings becomes the peer's, whatever host the answer is about.
-/
namespace Poplar.Proxy

open Effects Poplar.Domain Poplar.Http

/-- Every peer whose address changes had asked for the host the answer names. -/
def Popd.ServesAsker (s : Popd) : Dispatch → Prop
  | .datagram payload fromAddr fromPort => ∀ u s',
    popUdpRecvDnsQueryAck payload fromAddr fromPort s = .ok (u, s') →
      ∀ p before after, s.identityOf p = some before → s'.identityOf p = some after →
        after.remoteAddr ≠ before.remoteAddr →
          ∃ result, domainNameIpv4Addr (received (payload.take MAX_RECV_PACKET_SIZE))
            (s.answers s.calls).time = .ok (some result) ∧ result.hostName = before.remoteHostname
  | _ => True

/-- An answer that reaches a waiting peer and would give it another address is about the
host of that peer. -/
def Popd.AnswersAsker (s : Popd) : Dispatch → Prop
  | .datagram payload fromAddr fromPort => ∀ result server asker,
    s.Answers payload fromAddr fromPort result server → s.identityOf server = some asker →
      result.address = 0 ∨ result.address = asker.remoteAddr ∨
        result.hostName = asker.remoteHostname
  | _ => True

section Handling

variable {s s' : Popd} {payload : List UInt8} {fromAddr : Nat} {fromPort : Int}
variable {result : DnsQueryResult} {server p : Nat}

/-- Writing the address of a peer. -/
theorem store_address {u : Unit} {addr : Nat} (runs : store p (fun peer => { peer with
      remoteAddr := addr, remoteHostip := addr }) s = .ok (u, s')) :
    ∃ asker, s.identityOf p = some asker ∧ s'.identityOf = Function.update s.identityOf p
      (some { asker with remoteAddr := addr, remoteHostip := addr }) := by
  obtain ⟨peer, found, rfl⟩ := store_finds runs
  refine ⟨peer.identity, by rw [Popd.identityOf, found, Option.map_some], ?_⟩
  funext q
  by_cases here : q = p
  · subst here
    rw [Function.update_self, Popd.identityOf, put_self]
    rfl
  · rw [Function.update_of_ne here, Popd.identityOf, put_of_ne _ here, Popd.identityOf]

/-- The cache is no peer. -/
theorem storing_identity {u : Unit} (runs : (do
      let cache := (← get).dnsCache
      if (dnsCacheLookupByHostname cache result.hostName).isSome then
        modify fun s => { s with dnsCache := dnsCacheExtend s.dnsCache result }
      else
        modify fun s => { s with
          dnsCache := dnsCacheAdd (dnsCacheCheckAndDelete s.dnsCache) result } : Daemon Unit) s =
      .ok (u, s')) : s'.identityOf = s.identityOf := by
  obtain ⟨state, m, got, rest⟩ := runs_bind runs
  rw [(runs_get got).2] at rest
  dsimp only at rest
  split at rest
  next => rw [runs_modify rest]; rfl
  next => rw [runs_modify rest]; rfl

/-- The handler of a datagram leaves all peers who they are, or gives the waiting peer the
address of its answer. -/
theorem popUdpRecvDnsQueryAck_identity {u : Unit}
    (runs : popUdpRecvDnsQueryAck payload fromAddr fromPort s = .ok (u, s')) :
    (s'.identityOf = s.identityOf ∧
        ∀ result server, s.Answers payload fromAddr fromPort result server → result.address = 0) ∨
      ∃ result server asker, s.Answers payload fromAddr fromPort result server ∧
        result.address ≠ 0 ∧ s.identityOf server = some asker ∧
          s'.identityOf = Function.update s.identityOf server
            (some { asker with remoteAddr := result.address, remoteHostip := result.address }) := by
  unfold popUdpRecvDnsQueryAck at runs
  obtain ⟨state, s₁, got, rest⟩ := runs_bind runs
  rw [(runs_get got).2, (runs_get got).1] at rest
  obtain ⟨client, s₂, loaded, rest⟩ := runs_bind rest
  obtain ⟨dns, same⟩ := load_runs loaded
  rw [same] at rest
  by_cases foreign : fromAddr ≠ client.remoteAddr ∨ some fromPort ≠ client.remotePort
  · rw [if_pos foreign] at rest
    refine .inl ⟨by rw [(runs_pure rest).2], fun result server answers => ?_⟩
    obtain ⟨client', dns', sameAddr, samePort⟩ := answers.source
    cases dns.symm.trans dns'
    exact absurd foreign (by simp [sameAddr, samePort])
  rw [if_neg foreign] at rest
  simp only [not_or, not_not] at foreign
  obtain ⟨answer, s₃, asked, rest⟩ := runs_bind rest
  cases asked
  obtain ⟨parsed, s₄, read, rest⟩ := runs_bind rest
  have parses := call_result read
  rw [call_runs read] at rest
  cases parsed with
  | none =>
      refine .inl ⟨by rw [(runs_pure rest).2]; rfl, fun result server answers => ?_⟩
      cases parses.symm.trans answers.parses
  | some result =>
      dsimp only at rest
      obtain ⟨state, s₅, got, rest⟩ := runs_bind rest
      rw [(runs_get got).2, (runs_get got).1] at rest
      dsimp only at rest
      cases waiting : dnsWaitAckQueueLookupByID s.dnsAckWaitQueue result.transactionID with
      | none =>
          rw [waiting] at rest
          refine .inl ⟨by rw [(runs_pure rest).2]; rfl, fun result' server answers => ?_⟩
          cases parses.symm.trans answers.parses
          cases waiting.symm.trans answers.waiting
      | some server =>
          rw [waiting] at rest
          obtain ⟨_, s₆, noted, rest⟩ := runs_bind rest
          obtain ⟨_, s₇, dropped, rest⟩ := runs_bind rest
          obtain ⟨_, s₈, disarmed, rest⟩ := runs_bind rest
          have disarms : Within (fun s s' => s'.identityOf = s.identityOf) (store server fun peer =>
              { peer with tDnsWaitAck := false }) := identityFrame.store server fun _ => rfl
          have before : s₈.identityOf = s.identityOf := by
            rw [disarms _ _ _ disarmed, identityFrame.routine.dnsWaitAckQueueDel _ _ _ _ dropped,
              identityFrame.routine.note _ _ _ _ noted]
            rfl
          by_cases address : result.address = 0
          · rw [if_pos address] at rest
            refine .inl ⟨by rw [(runs_pure rest).2, before], fun result' server' answers => ?_⟩
            cases parses.symm.trans answers.parses
            exact address
          · rw [if_neg address] at rest
            obtain ⟨_, s₉, placed, rest⟩ := runs_bind rest
            obtain ⟨_, s₁₀, started, rest⟩ := runs_bind rest
            obtain ⟨asker, known, after⟩ := store_address placed
            rw [before] at known after
            refine .inr ⟨result, server, asker, ⟨⟨client, dns, foreign⟩, parses, waiting⟩, address,
              known, ?_⟩
            rw [storing_identity rest, identityFrame.popTcpClientEvent _ _ _ _ _ started, after]

/-- One datagram. -/
theorem servesAsker_iff {u : Unit}
    (runs : popUdpRecvDnsQueryAck payload fromAddr fromPort s = .ok (u, s')) :
    s.ServesAsker (.datagram payload fromAddr fromPort) ↔
      s.AnswersAsker (.datagram payload fromAddr fromPort) := by
  constructor
  · intro serves result server asker answers known
    by_contra misled
    simp only [not_or] at misled
    obtain ⟨address, other, foreign⟩ := misled
    obtain ⟨_, none_⟩ | ⟨result', server', asker', answers', _, known', after⟩ :=
      popUdpRecvDnsQueryAck_identity runs
    · exact address (none_ result server answers)
    · cases answers.parses.symm.trans answers'.parses
      cases answers.waiting.symm.trans answers'.waiting
      cases known.symm.trans known'
      obtain ⟨result', parses, named⟩ := serves u s' runs server asker _ known
        (by rw [after, Function.update_self]) other
      cases answers.parses.symm.trans parses
      exact foreign named
  · intro asked u' s'' again p before after known found changed
    cases runs.symm.trans again
    obtain ⟨same, _⟩ | ⟨result, server, asker, answers, address, known', there⟩ :=
      popUdpRecvDnsQueryAck_identity runs
    · rw [same, known] at found
      cases found
      exact absurd rfl changed
    · by_cases here : p = server
      · subst here
        cases known.symm.trans known'
        rw [there, Function.update_self] at found
        cases found
        obtain none_ | same | named := asked result p before answers known
        · exact absurd none_ address
        · exact absurd same changed
        · exact ⟨result, answers.parses, named⟩
      · rw [there, Function.update_of_ne here, known] at found
        cases found
        exact absurd rfl changed

end Handling

/-- In every run, whatever was asked and answered before: the answers only give addresses to
peers that asked for their host just where every answer that reaches a waiting peer, and has
another address for it, names its host. -/
theorem serves_asker_iff (s : Popd) (events : List Dispatch) :
    system.Each Popd.ServesAsker events s ↔ system.Each Popd.AnswersAsker events s := by
  apply system.each_iff
  intro s event s' _ executes
  obtain ⟨u, runs⟩ := exec_runs executes
  cases event with
  | datagram payload fromAddr fromPort => exact servesAsker_iff runs
  | accept | socket | connectExpired | dnsWaitAckTimeout | infoDeal | cacheCheck => exact Iff.rfl

/-- A client asks for `a.com`, which is no address. -/
def askingCom : Option Popd :=
  replay (fun n => if n = 1 then { read := ascii "GET http://a.com/ HTTP/1.1\r\n\r\n" } else {})
    [.accept [(5, 1, 80)] false, .socket 1 true false false]

/-- The answer has the right identifier and is about `a.b`; the address is taken. -/
theorem wrong_host_taken : ∃ s, system.Reachable s ∧
    ¬ s.ServesAsker (.datagram (hostReply 0 60 1) DNS_SERVER_ADDRESS 53) := by
  have finishes : (askingCom.map fun s => ((s.identityOf 2).map fun known =>
      (known.remoteHostname, known.remoteAddr),
      (domainNameIpv4Addr (received ((hostReply 0 60 1).take MAX_RECV_PACKET_SIZE))
        (s.answers s.calls).time).toOption,
      (popUdpRecvDnsQueryAck (hostReply 0 60 1) DNS_SERVER_ADDRESS 53 s).toOption.map fun ran =>
        (ran.2.identityOf 2).map Identity.remoteAddr)) =
      some (some (ascii "a.com", 0), some (some (hostResult 0 60 1)), some (some 0x0A000001)) := by
    decide +kernel
  obtain ⟨s, replayed, facts⟩ := Option.map_eq_some_iff.mp finishes
  simp only [Prod.mk.injEq] at facts
  obtain ⟨asked, parsed, handled⟩ := facts
  obtain ⟨before, known, host⟩ := Option.map_eq_some_iff.mp asked
  obtain ⟨⟨u, s'⟩, runs, placed⟩ := Option.map_eq_some_iff.mp handled
  obtain ⟨after, found, address⟩ := Option.map_eq_some_iff.mp placed
  rw [Prod.mk.injEq] at host
  refine ⟨s, replay_reachable replayed, fun serves => ?_⟩
  obtain ⟨result, parses, named⟩ := serves u s' (toOption_some runs) 2 before after known found
    (by rw [address, host.2]; decide)
  cases (toOption_some parsed).symm.trans parses
  rw [host.1] at named
  revert named
  decide

end Poplar.Proxy
