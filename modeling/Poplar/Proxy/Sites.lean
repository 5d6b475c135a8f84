import Poplar.Proxy.Frames
import Poplar.Proxy.Simulation

/-!
# Who the peers are, but for their addresses

A peer is made for a host and a port and keeps them; a cached or an answered address only
tells where they are.
-/
namespace Poplar.Proxy

open Effects Poplar.Domain Poplar.Http

/-- Who a peer is, but for the address. -/
structure Site where
  serviceType : ServiceType
  tcpPeerType : TcpPeerType
  remoteHostname : List UInt8
  remotePort : Option Int
  deriving DecidableEq

def Identity.site (known : Identity) : Site where
  serviceType := known.serviceType
  tcpPeerType := known.tcpPeerType
  remoteHostname := known.remoteHostname
  remotePort := known.remotePort

def Popd.siteOf (s : Popd) (p : Nat) : Option Site := (s.identityOf p).map Identity.site

section Sites

variable {s s' : Popd} {p : Nat}

theorem siteOf_eq (same : s'.identityOf = s.identityOf) : s'.siteOf = s.siteOf := by
  unfold Popd.siteOf
  rw [same]

theorem siteFrame : Frame fun s s' => s'.siteOf = s.siteOf where
  refl _ := rfl
  trans first second := second.trans first
  put found same := siteOf_eq (identityFrame.put found same)
  aside peers next cache answers calls :=
    siteOf_eq (identityFrame.aside peers next cache answers calls)

theorem siteOf_found {peer : Peer} (found : s.peers p = some peer) :
    s.siteOf p = some peer.identity.site := by
  rw [Popd.siteOf, Popd.identityOf, found, Option.map_some, Option.map_some]

theorem siteOf_modify {f : Popd → Popd} (same : ∀ s, (f s).peers = s.peers) :
    Within (fun s s' => s'.siteOf = s.siteOf) (modify f : Daemon PUnit) := by
  intro s u s' runs
  rw [runs_modify runs]
  apply siteOf_eq
  unfold Popd.identityOf
  rw [same]

theorem siteOf_store {f : Peer → Peer} (same : ∀ peer, (f peer).identity.site = peer.identity.site) :
    Within (fun s s' => s'.siteOf = s.siteOf) (store p f) := by
  intro s u s' runs
  obtain ⟨peer, found, rfl⟩ := store_finds runs
  funext q
  unfold Popd.siteOf Popd.identityOf
  by_cases here : q = p
  · subst here
    rw [put_self, found, Option.map_some, Option.map_some, Option.map_some, Option.map_some, same]
  · rw [put_of_ne _ here]

/-- The lookup of a host gives addresses only. -/
theorem domainParseHost_site (p : Nat) (dropExpired : Bool) :
    Within (fun s s' => s'.siteOf = s.siteOf) (domainParseHost p dropExpired) := by
  have starts : Within (fun s s' => s'.siteOf = s.siteOf) (do
      popTcpClientEvent p .start
      return (0 : Int)) :=
    siteFrame.routine.bind (siteFrame.popTcpClientEvent p .start) fun _ => siteFrame.routine.pure _
  apply siteFrame.routine.bind (siteFrame.routine.load p)
  intro peer
  split
  · exact starts
  · apply siteFrame.routine.bind siteFrame.routine.ask
    intro answer
    apply siteFrame.routine.bind siteFrame.routine.get
    intro state
    cases dnsCacheLookupByHostname state.dnsCache peer.remoteHostname with
    | none => exact siteFrame.routine.popGetHostByNameUnblock p
    | some result =>
        dsimp only
        split
        · apply siteFrame.routine.bind
          · apply siteOf_store
            intro peer
            rfl
          · intro _
            exact siteFrame.routine.bind (siteOf_modify fun _ => rfl) fun _ => starts
        · split
          · apply siteFrame.routine.bind
            · apply siteOf_modify
              intro s
              rfl
            · intro _
              exact siteFrame.routine.popGetHostByNameUnblock p
          · exact siteFrame.routine.popGetHostByNameUnblock p

/-- Peers there before stay who they are, and stay. -/
def Grown (site site' : Nat → Option Site) : Prop :=
  ∀ q known, site q = some known → site' q = some known

theorem Grown.refl (site : Nat → Option Site) : Grown site site := fun _ _ known => known

theorem Grown.trans {site mid site' : Nat → Option Site} (first : Grown site mid)
    (second : Grown mid site') : Grown site site' := fun q known there =>
  second q known (first q known there)

theorem grown_of_eq (same : s'.siteOf = s.siteOf) : Grown s.siteOf s'.siteOf := by
  rw [same]
  exact Grown.refl _

/-- A new server-side peer is the first of its number. -/
theorem popRemoteServerPeerMake_site {host : HostPort} {server : Nat}
    (runs : popRemoteServerPeerMake host s = .ok (server, s')) :
    Grown s.siteOf s'.siteOf ∧
      s'.siteOf server = some ⟨.httpProxy, .server, host.ipAddr, host.port⟩ := by
  unfold popRemoteServerPeerMake at runs
  obtain ⟨fresh, s₁, made, rest⟩ := runs_bind runs
  dsimp only at rest
  obtain ⟨_, s₂, stored, rest⟩ := runs_bind rest
  obtain ⟨rfl, rfl⟩ := runs_pure rest
  cases made
  obtain ⟨peer, found, rfl⟩ := store_finds stored
  constructor
  · intro q known there
    have other : q ≠ s.next := by
      rintro rfl
      rw [Popd.siteOf, Popd.identityOf, s.fresh _ (Nat.le_refl _)] at there
      cases there
    rw [Popd.siteOf, Popd.identityOf, put_of_ne _ other]
    dsimp only
    rw [Function.update_of_ne other]
    exact there
  · rw [Popd.siteOf, Popd.identityOf, put_self]
    rfl

/-! ## Requests -/

/-- The lookup of the host of a new server-side peer, or what follows when it fails. -/
theorem resolved_site (server client : Nat) (dropExpired : Bool) :
    Within (fun s s' => s'.siteOf = s.siteOf) (do
      if (← domainParseHost server dropExpired) < 0 then requestError client else return 0 :
        Daemon Int) := by
  apply siteFrame.routine.bind (domainParseHost_site server dropExpired)
  intro ret
  split
  · exact siteFrame.routine.requestError client
  · exact siteFrame.routine.pure _

theorem popHttpProxyRequestGet_site {ret : Int} {host : Option HostPort}
    (names : requestHost p s = .ok (host, s)) (runs : popHttpProxyRequestGet p s = .ok (ret, s')) :
    Grown s.siteOf s'.siteOf ∧ ∀ named ∈ host,
      s'.siteOf s.next = some ⟨.httpProxy, .server, named.ipAddr, named.port⟩ := by
  obtain ⟨again, s₁, parsed, rest⟩ := runs_bind runs
  cases names.symm.trans parsed
  cases host with
  | none =>
      refine ⟨grown_of_eq (siteFrame.routine.requestError p _ _ _ rest), fun named none_ => ?_⟩
      cases none_
  | some host =>
      obtain ⟨server, s₂, made, rest⟩ := runs_bind rest
      obtain ⟨_, s₃, paired, rest⟩ := runs_bind rest
      obtain ⟨_, s₄, pushed, rest⟩ := runs_bind rest
      obtain ⟨peer, s₅, loaded, rest⟩ := runs_bind rest
      obtain ⟨_, s₆, noted, rest⟩ := runs_bind rest
      obtain ⟨grown, there⟩ := popRemoteServerPeerMake_site made
      have first : server = s.next := (popRemoteServerPeerMake_runs made).1
      have same : s'.siteOf = s₂.siteOf := by
        rw [resolved_site _ _ _ _ _ _ rest, siteFrame.routine.note _ _ _ _ noted,
          siteFrame.routine.load _ _ _ _ loaded, siteFrame.routine.streamFifoPushDup _ _ _ _ _ pushed,
          siteFrame.routine.popPeersPaired _ _ _ _ _ paired]
      rw [same]
      refine ⟨grown, fun named some_ => ?_⟩
      cases some_
      rw [← first]
      exact there

theorem popHttpProxyRequestConnect_site {ret : Int}
    (runs : popHttpProxyRequestConnect p s = .ok (ret, s')) : Grown s.siteOf s'.siteOf := by
  obtain ⟨host, s₁, parsed, rest⟩ := runs_bind runs
  rw [requestHost_runs parsed] at rest
  cases host with
  | none => exact grown_of_eq (siteFrame.routine.requestError p _ _ _ rest)
  | some host =>
      obtain ⟨server, s₂, made, rest⟩ := runs_bind rest
      obtain ⟨_, s₃, paired, rest⟩ := runs_bind rest
      obtain ⟨_, s₄, pushed, rest⟩ := runs_bind rest
      obtain ⟨_, s₅, stored, rest⟩ := runs_bind rest
      have tunnels : Within (fun s s' => s'.siteOf = s.siteOf)
          (store server fun peer => { peer with ifTunnel := true }) :=
        siteFrame.store server fun _ => rfl
      have same : s'.siteOf = s₂.siteOf := by
        rw [resolved_site _ _ _ _ _ _ rest, tunnels _ _ _ stored,
          siteFrame.routine.streamFifoPush _ _ _ _ _ _ pushed, siteFrame.routine.popPeersPaired _ _ _ _ _ paired]
      rw [same]
      exact (popRemoteServerPeerMake_site made).1

end Sites

end Poplar.Proxy
