import Poplar.Proxy.Frames

/-!
# What a server peer holds in each status

The transition table of apps/pop_tcp_fsm.c names a status, and its functions open and close
sockets, register events and arm timers. Each row has to do both in step.
-/
namespace Poplar.Proxy

open Effects Poplar.Domain

/-- A peer made for the server side of an http-proxy connection. -/
def Holding.Proxied (h : Holding) : Prop :=
  h.identity.serviceType = .httpProxy ∧ h.identity.tcpPeerType = .server

/-- What the status of a peer promises; `listed` tells whether `paired_peer_tcp_list` has it. -/
def Holding.Sound (h : Holding) (listed : Prop) : Prop :=
  match h.tcpClientStatus with
  | .connect => 0 ≤ h.sockfd ∧ h.watched = some h.sockfd ∧ h.tConnectingTimer = true
  | .establish =>
    0 ≤ h.sockfd ∧ h.watched = some h.sockfd ∧ h.tConnectingTimer = false ∧ listed
  | .idle =>
    h.sockfd = -1 ∧ h.watched = none ∧ h.tConnectingTimer = false ∧ h.tHoldtime = false

/-- What the peers hold, and the list of the daemon. -/
structure Held where
  of : Nat → Option Holding
  list : List Nat

def Popd.held (s : Popd) : Held where
  of p := (s.peers p).map Peer.holding
  list := s.pairedPeerTcpList

/-- Every server peer holds what its status promises. -/
def Popd.Sound (s : Popd) : Prop :=
  ∀ p h, s.held.of p = some h → h.Proxied → h.Sound (p ∈ s.pairedPeerTcpList)

namespace Held

/-- The server peers outside `busy` hold what their status promises, and none has descriptor 0. -/
def Right (busy : Nat → Prop) (v : Held) : Prop :=
  ∀ p h, v.of p = some h → h.Proxied → h.sockfd ≠ 0 ∧ (¬ busy p → h.Sound (p ∈ v.list))

def set (v : Held) (p : Nat) (h : Option Holding) : Held :=
  { v with of := Function.update v.of p h }

def change (v : Held) (p : Nat) (g : Holding → Holding) : Held := v.set p ((v.of p).map g)

def relist (v : Held) (list : List Nat) : Held := { v with list := list }

theorem set_self (v : Held) (p : Nat) (o : Option Holding) : (v.set p o).of p = o :=
  Function.update_self _ _ _

theorem set_of_ne (v : Held) {p q : Nat} (o : Option Holding) (different : q ≠ p) :
    (v.set p o).of q = v.of q := Function.update_of_ne different _ _

theorem change_change (v : Held) (p : Nat) (g g' : Holding → Holding) :
    (v.change p g).change p g' = v.change p (g' ∘ g) := by
  unfold change set
  simp only [Function.update_self, Function.update_idem, Option.map_map]

theorem change_congr {v : Held} {p : Nat} {g g' : Holding → Holding}
    (same : ∀ h, v.of p = some h → g h = g' h) : v.change p g = v.change p g' := by
  unfold change
  cases here : v.of p with
  | none => rfl
  | some h => rw [Option.map_some, Option.map_some, same h here]

theorem change_id {v : Held} {p : Nat} {g : Holding → Holding}
    (same : ∀ h, v.of p = some h → g h = h) : v.change p g = v := by
  rw [change_congr same, change, set, Option.map_id_fun', id, Function.update_eq_self]

theorem change_relist (v : Held) (p : Nat) (g : Holding → Holding) (list : List Nat) :
    (v.change p g).relist list = (v.relist list).change p g := rfl

/-- Nobody but the busy ones may leave the list. -/
theorem Right.relist {busy : Nat → Prop} {v : Held} {list : List Nat} (right : v.Right busy)
    (stays : ∀ q, ¬ busy q → q ∈ v.list → q ∈ list) : (v.relist list).Right busy := by
  intro q h found proxied
  obtain ⟨nonzero, sound⟩ := right q h found proxied
  refine ⟨nonzero, fun free => ?_⟩
  have before := sound free
  unfold Holding.Sound at before ⊢
  cases status : h.tcpClientStatus with
  | idle =>
      rw [status] at before
      exact before
  | connect =>
      rw [status] at before
      exact before
  | establish =>
      rw [status] at before
      obtain ⟨opened, watched, timer, listed⟩ := before
      exact ⟨opened, watched, timer, stays q free listed⟩

/-- Work on one peer keeps the others right; the peer itself has to be looked at. -/
theorem Right.set {busy : Nat → Prop} {v : Held} {p : Nat} {o : Option Holding}
    (right : v.Right fun q => busy q ∨ q = p)
    (here : ∀ h, o = some h → h.Proxied → h.sockfd ≠ 0 ∧ (¬ busy p → h.Sound (p ∈ v.list))) :
    (v.set p o).Right busy := by
  intro q h found proxied
  by_cases there : q = p
  · subst there
    exact here h ((v.set_self q o).symm.trans found) proxied
  · obtain ⟨nonzero, sound⟩ := right q h ((v.set_of_ne o there).symm.trans found) proxied
    refine ⟨nonzero, fun free => sound ?_⟩
    rintro (hurried | here)
    · exact free hurried
    · exact there here

theorem Right.change {busy : Nat → Prop} {v : Held} {p : Nat} {g : Holding → Holding}
    (right : v.Right fun q => busy q ∨ q = p)
    (here : ∀ h, v.of p = some h → (g h).Proxied →
      (g h).sockfd ≠ 0 ∧ (¬ busy p → (g h).Sound (p ∈ v.list))) :
    (v.change p g).Right busy := by
  apply right.set
  intro h found proxied
  obtain ⟨h₀, before, rfl⟩ := Option.map_eq_some_iff.mp found
  exact here h₀ before proxied

theorem Right.mono {busy busy' : Nat → Prop} {v : Held} (right : v.Right busy)
    (more : ∀ p, busy p → busy' p) : v.Right busy' := by
  intro p h found proxied
  obtain ⟨nonzero, sound⟩ := right p h found proxied
  exact ⟨nonzero, fun free => sound fun before => free (more p before)⟩

/-- What a change of one peer has to keep where no peer is busy. -/
theorem Right.turn {v : Held} {p : Nat} {g : Holding → Holding} (right : v.Right fun _ => False)
    (same : ∀ h, (g h).Proxied → h.Proxied)
    (here : ∀ h, v.of p = some h → h.sockfd ≠ 0 → h.Sound (p ∈ v.list) →
      (g h).sockfd ≠ 0 ∧ (g h).Sound (p ∈ v.list)) : (v.change p g).Right fun _ => False := by
  apply Right.change
  · exact right.mono fun _ none => none.elim
  · intro h found proxied
    obtain ⟨nonzero, sound⟩ := right p h found (same h proxied)
    obtain ⟨nonzero', sound'⟩ := here h found nonzero (sound id)
    exact ⟨nonzero', fun _ => sound'⟩

end Held

theorem held_of (s : Popd) (p : Nat) : s.held.of p = (s.peers p).map Peer.holding := rfl

theorem held_found {s : Popd} {p : Nat} {peer : Peer} (found : s.peers p = some peer) :
    s.held.of p = some peer.holding := by
  rw [held_of, found, Option.map_some]

theorem held_put {s : Popd} {p : Nat} {peer' : Option Peer} (inside : p < s.next) :
    (s.put p peer' inside).held = s.held.set p (peer'.map Peer.holding) := by
  have same : (s.put p peer' inside).held.of = Function.update s.held.of p (peer'.map Peer.holding) := by
    funext q
    rw [held_of]
    by_cases here : q = p
    · subst here
      rw [put_self, Function.update_self]
    · rw [put_of_ne inside here, Function.update_of_ne here, held_of]
  rw [Held.set, ← same]
  rfl

/-- What a store does to the holdings, `g` being what it does to the one of its peer. -/
theorem store_held {s s' : Popd} {p : Nat} {f : Peer → Peer} {u : Unit} {g : Holding → Holding}
    (acts : ∀ peer, (f peer).holding = g peer.holding) (runs : store p f s = .ok (u, s')) :
    s'.held = s.held.change p g := by
  obtain ⟨peer, found, rfl⟩ := store_finds runs
  rw [held_put, Held.change, held_found found, Option.map_some, Option.map_some, acts]

/-- What work that is calm leaves alone. -/
theorem heldCalm : Calm fun s s' => s'.held = s.held where
  refl _ := rfl
  trans first second := second.trans first
  put := by
    intro s p peer peer' found same
    rw [held_put, Option.map_some, same, ← held_found found, Held.set, Function.update_eq_self]
  aside := by
    intro s s' peers _ list _ _ _
    unfold Popd.held
    rw [peers, list]

/-- The answers of the operating system are taken in turn. -/
theorem callsFrame : Frame fun s s' => s.calls ≤ s'.calls ∧ s'.answers = s.answers where
  refl _ := ⟨le_rfl, rfl⟩
  trans first second := ⟨first.1.trans second.1, second.2.trans first.2⟩
  put _ _ := ⟨le_rfl, rfl⟩
  aside _ _ _ answers calls := ⟨calls, answers⟩

/-- What a start relies on: a descriptor that can be told from none, and a registration made. -/
def Answer.Plain (answer : Answer) : Prop := answer.socket ≠ some 0 ∧ answer.epollCtl = true

/-! ## What the functions of the transition table do -/

namespace Holding

def goes (next : TcpClientStatus) (h : Holding) : Holding := { h with tcpClientStatus := next }

/-- `EVENT_SET`, where the operating system may refuse a new registration. -/
def register (allowed : Bool) (h : Holding) : Holding :=
  if h.watched = none ∧ 0 ≤ h.sockfd ∧ allowed = true then { h with watched := some h.sockfd } else h

/-- What `pop_tcp_client_stop` and `pop_tcp_client_error` leave. -/
def leave (h : Holding) : Holding :=
  { h with
    sockfd := if h.sockfd ≠ 0 then -1 else h.sockfd
    watched := none
    tConnectingTimer := false
    tHoldtime := false }

theorem register_proxied {allowed : Bool} {h : Holding} (proxied : (h.register allowed).Proxied) :
    h.Proxied := by
  unfold register at proxied
  split at proxied
  · exact proxied
  · exact proxied

theorem register_watched {allowed : Bool} {h : Holding} {fd : Int} (watched : h.watched = some fd) :
    h.register allowed = h := by
  rw [register, if_neg fun none => by rw [none.1] at watched; cases watched]

/-- What the statuses promise leaves nothing to register. -/
theorem Sound.register {allowed listed} {h : Holding} (sound : h.Sound listed) :
    h.register allowed = h := by
  unfold Sound at sound
  cases status : h.tcpClientStatus with
  | idle =>
      rw [status] at sound
      rw [Holding.register, if_neg fun opened => by rw [sound.1] at opened; cases opened.2.1]
  | connect =>
      rw [status] at sound
      exact register_watched sound.2.1
  | establish =>
      rw [status] at sound
      exact register_watched sound.2.1

end Holding

/-- One of the answers taken is not plain. -/
def Disturbed (s s' : Popd) : Prop := ∃ n, s.calls ≤ n ∧ n < s'.calls ∧ ¬ (s.answers n).Plain

theorem Disturbed.within {s m m' s' : Popd} (disturbed : Disturbed m m') (before : s.calls ≤ m.calls)
    (same : m.answers = s.answers) (after : m'.calls ≤ s'.calls) : Disturbed s s' := by
  obtain ⟨n, later, earlier, refused⟩ := disturbed
  refine ⟨n, before.trans later, earlier.trans_le after, ?_⟩
  rwa [← same]

theorem eventSet_held {s s' : Popd} {p : Nat} {func : EventFunc} {write : Bool} {u : Unit}
    (runs : eventSet p func write s = .ok (u, s')) :
    ∃ allowed, s'.held = s.held.change p (Holding.register allowed) ∧
      (allowed = false → Disturbed s s') := by
  obtain ⟨peer, m, loaded, sets⟩ := runs_bind runs
  obtain ⟨found, rfl⟩ := load_finds loaded
  have here := held_found found
  have watched : peer.holding.watched = peer.tEvent.map Watch.fd := rfl
  have watches {m' m'' : Popd} (stored : store p (fun peer : Peer =>
      { peer with tEvent := some ⟨func, write, peer.sockfd, true⟩ }) m' = .ok (u, m'')) :
      m''.held = m'.held.change p fun h => { h with watched := some h.sockfd } :=
    store_held (fun _ => rfl) stored
  cases event : peer.tEvent with
  | some watch =>
      rw [event] at sets watched
      dsimp only at sets
      split at sets
      next same =>
        refine ⟨true, (watches sets).trans (Held.change_congr fun h there => ?_), by simp⟩
        cases here.symm.trans there
        have already : peer.holding.watched = some peer.holding.sockfd :=
          watched.trans (congrArg some same)
        rw [Holding.register, if_neg (by rw [already]; simp), ← already]
      next => cases sets
  | none =>
      rw [event] at sets watched
      dsimp only at sets
      obtain ⟨answer, m', asked, sets⟩ := runs_bind sets
      cases asked
      split at sets
      next allowed =>
        refine ⟨true, (watches sets).trans (Held.change_congr fun h there => ?_), by simp⟩
        cases here.symm.trans there
        rw [Holding.register, if_pos ⟨watched, allowed.1, rfl⟩]
      next refused =>
        cases sets
        cases ctl : (m.answers m.calls).epollCtl with
        | true =>
            refine ⟨true, (Held.change_id fun h there => ?_).symm, by simp⟩
            cases here.symm.trans there
            rw [Holding.register, if_neg fun registers => refused ⟨registers.2.1, ctl⟩]
        | false =>
            refine ⟨false, (Held.change_id fun h there => ?_).symm, fun _ => ?_⟩
            · rw [Holding.register, if_neg (by simp)]
            · refine ⟨m.calls, le_rfl, Nat.lt_succ_self _, ?_⟩
              intro plain
              exact absurd (plain.2.symm.trans ctl) (by decide)

theorem leave_held {s s' : Popd} {p : Nat} {info : TcpClientInfo} {ret : Int}
    (runs : popTcpClientLeave p info s = .ok (ret, s')) :
    ret = 0 ∧ s'.held = s.held.change p Holding.leave := by
  obtain ⟨_, m₁, disarmed, rest⟩ := runs_bind runs
  obtain ⟨_, m₂, cancelled, rest⟩ := runs_bind rest
  obtain ⟨_, m₃, closed, rest⟩ := runs_bind rest
  obtain ⟨_, m₄, added, rest⟩ := runs_bind rest
  obtain ⟨_, m₅, noted, rest⟩ := runs_bind rest
  obtain ⟨rfl, rfl⟩ := runs_pure rest
  refine ⟨rfl, ?_⟩
  rw [heldCalm.note _ _ _ _ noted, heldCalm.popTcpClientEventAdd _ _ _ _ _ added,
    store_held (g := fun h => { h with sockfd := if h.sockfd ≠ 0 then -1 else h.sockfd })
      (fun _ => rfl) closed,
    heldCalm.popTcpCanclePaired _ _ _ _ cancelled,
    store_held (g := fun h =>
      { h with tHoldtime := false, tConnectingTimer := false, watched := none })
      (fun _ => rfl) disarmed, Held.change_change]
  rfl

theorem establish_held {s s' : Popd} {p : Nat} {ret : Int}
    (runs : popTcpClientEstablish p s = .ok (ret, s')) :
    ret = 0 ∧ ∃ allowed, s'.held = (s.held.relist (s.held.list ++ [p])).change p fun h =>
      Holding.register allowed { h with tConnectingTimer := false } := by
  obtain ⟨_, m₁, disarmed, rest⟩ := runs_bind runs
  obtain ⟨_, m₂, listed, rest⟩ := runs_bind rest
  obtain ⟨_, m₃, added, rest⟩ := runs_bind rest
  obtain ⟨_, m₄, registered, rest⟩ := runs_bind rest
  obtain ⟨rfl, rfl⟩ := runs_pure rest
  obtain ⟨allowed, registers, _⟩ := eventSet_held registered
  refine ⟨rfl, allowed, ?_⟩
  have enlisted : m₂.held = m₁.held.relist (m₁.held.list ++ [p]) := by
    rw [runs_modify listed]
    rfl
  rw [registers, heldCalm.popTcpClientEventAdd _ _ _ _ _ added, enlisted,
    store_held (g := fun h => { h with tConnectingTimer := false }) (fun _ => rfl) disarmed,
    Held.change_relist, Held.change_change]
  rfl

theorem closeSockfd_held {s s' : Popd} {p : Nat} {u : Unit}
    (runs : closeSockfd p s = .ok (u, s')) :
    s'.held = s.held.change p (fun h => if 0 < h.sockfd then { h with sockfd := -1 } else h) ∧
      s'.calls = s.calls ∧ s'.answers = s.answers := by
  refine ⟨store_held ?_ runs, ?_⟩
  · intro peer
    by_cases opened : 0 < peer.sockfd
    · rw [if_pos opened]
      exact (if_pos opened).symm
    · rw [if_neg opened]
      exact (if_neg opened).symm
  · obtain ⟨peer, found, rfl⟩ := store_finds runs
    exact ⟨rfl, rfl⟩

/-- The socket `pop_tcp_client_connect` leaves the peer with; -1 with a failure to make one. -/
theorem connect_held {s s' : Popd} {p : Nat} {result : ConnectResult}
    (runs : popTcpClientConnect p s = .ok (result, s')) :
    s.calls ≤ s'.calls ∧ s'.answers = s.answers ∧ ∃ fd : Int, -1 ≤ fd ∧
      (s'.held = s.held.change p fun h => { h with sockfd := fd }) ∧
      (fd = -1 → result = .error) ∧ (fd = 0 → Disturbed s s') := by
  obtain ⟨_, m₁, closed, rest⟩ := runs_bind runs
  obtain ⟨answer, m₂, asked, rest⟩ := runs_bind rest
  cases asked
  obtain ⟨shut, calls, answers⟩ := closeSockfd_held closed
  have set (fd : Int) {m : Popd} {u : Unit}
      (stored : store p (fun peer : Peer => { peer with sockfd := fd })
        { m₁ with calls := m₁.calls + 1 } = .ok (u, m)) :
      m.held = s.held.change p fun h => { h with sockfd := fd } := by
    rw [store_held (g := fun h => { h with sockfd := fd }) (fun _ => rfl) stored]
    calc
      _ = m₁.held.change p fun h => { h with sockfd := fd } := rfl
      _ = _ := by
        rw [shut, Held.change_change]
        apply Held.change_congr
        intro h _
        dsimp only [Function.comp_apply]
        split <;> rfl
  cases socket : (m₁.answers m₁.calls).socket with
  | none =>
      rw [socket] at rest
      obtain ⟨_, m₃, stored, rest⟩ := runs_bind rest
      obtain ⟨rfl, rfl⟩ := runs_pure rest
      have held := set (-1) stored
      obtain ⟨peer, found, rfl⟩ := store_finds stored
      refine ⟨?_, answers, -1, le_rfl, held, fun _ => rfl, by simp⟩
      exact calls.ge.trans (Nat.le_succ _)
  | some fd =>
      rw [socket] at rest
      obtain ⟨_, m₃, stored, rest⟩ := runs_bind rest
      obtain ⟨answer, m₄, asked, rest⟩ := runs_bind rest
      obtain ⟨rfl, rfl⟩ := runs_pure rest
      cases asked
      have held := set fd stored
      obtain ⟨peer, found, rfl⟩ := store_finds stored
      refine ⟨?_, answers, fd, by omega, held, by omega, fun zero => ?_⟩
      · exact calls.ge.trans (Nat.le_add_right _ 2)
      · refine ⟨s.calls, le_rfl, ?_, fun plain => plain.1 ?_⟩
        · exact calls ▸ Nat.lt_add_of_pos_right Nat.two_pos
        · rw [← answers, ← calls, socket, Int.natCast_eq_zero.mp zero]

/-- `pop_tcp_client_start` either leaves no socket and no next status, or a socket that is
watched under the connecting timer. -/
theorem start_held {s s' : Popd} {p : Nat} {ret : Int}
    (runs : popTcpClientStart p s = .ok (ret, s')) :
    (ret < 0 ∧ ∃ fd : Int, (s'.held = s.held.change p fun h => { h with sockfd := fd }) ∧
        (fd ≠ -1 → Disturbed s s')) ∨
      0 ≤ ret ∧ ∃ (fd : Int) (allowed : Bool),
        (s'.held = s.held.change p fun h =>
          { Holding.register allowed { h with sockfd := fd } with tConnectingTimer := true }) ∧
        (¬ 0 < fd → Disturbed s s') ∧ (allowed = false → Disturbed s s') := by
  obtain ⟨result, m₁, connected, rest⟩ := runs_bind runs
  obtain ⟨calls₁, answers₁, fd, least, held₁, failed, zero⟩ := connect_held connected
  have armed (watches : (do
      eventSet p .tcpClientConnectCheck true
      store p fun peer => { peer with tConnectingTimer := true }
      return (0 : Int)) m₁ = .ok (ret, s')) (opened : fd ≠ -1) :
      0 ≤ ret ∧ ∃ (fd : Int) (allowed : Bool),
        (s'.held = s.held.change p fun h =>
          { Holding.register allowed { h with sockfd := fd } with tConnectingTimer := true }) ∧
        (¬ 0 < fd → Disturbed s s') ∧ (allowed = false → Disturbed s s') := by
    obtain ⟨_, m₂, registered, rest⟩ := runs_bind watches
    obtain ⟨_, m₃, timed, rest⟩ := runs_bind rest
    obtain ⟨rfl, rfl⟩ := runs_pure rest
    obtain ⟨allowed, held₂, refused⟩ := eventSet_held registered
    have calls₂ := (callsFrame.eventSet _ _ _ _ _ _ registered).1
    have held₃ := store_held (g := fun h => { h with tConnectingTimer := true }) (fun _ => rfl) timed
    obtain ⟨peer, found, rfl⟩ := store_finds timed
    refine ⟨le_rfl, fd, allowed, ?_, fun none => ?_, fun refuses => ?_⟩
    · rw [held₃, held₂, held₁, Held.change_change, Held.change_change]
      rfl
    · exact (zero (by omega)).within le_rfl rfl calls₂
    · exact (refused refuses).within calls₁ answers₁ le_rfl
  cases result with
  | error =>
      obtain ⟨_, m₂, closed, rest⟩ := runs_bind rest
      obtain ⟨_, m₃, noted, rest⟩ := runs_bind rest
      obtain ⟨_, m₄, added, rest⟩ := runs_bind rest
      obtain ⟨_, m₅, noted', rest⟩ := runs_bind rest
      obtain ⟨rfl, rfl⟩ := runs_pure rest
      refine Or.inl ⟨by decide, if 0 < fd then -1 else fd, ?_, fun left => ?_⟩
      · rw [heldCalm.note _ _ _ _ noted', heldCalm.popTcpClientEventAdd _ _ _ _ _ added,
          heldCalm.note _ _ _ _ noted, (closeSockfd_held closed).1, held₁, Held.change_change]
        apply Held.change_congr
        intro h _
        dsimp only [Function.comp_apply]
        split <;> rfl
      · have here : fd = 0 := by
          split at left <;> omega
        apply (zero here).within le_rfl rfl
        calc
          m₁.calls ≤ m₂.calls := (closeSockfd_held closed).2.1.ge
          _ ≤ m₃.calls := (callsFrame.calm.note _ _ _ _ noted).1
          _ ≤ m₄.calls := (callsFrame.calm.popTcpClientEventAdd _ _ _ _ _ added).1
          _ ≤ s'.calls := (callsFrame.calm.note _ _ _ _ noted').1
  | success => exact Or.inr (armed rest fun none => by cases failed none)
  | inProgress => exact Or.inr (armed rest fun none => by cases failed none)

/-! ## Events -/

section Events

variable {s s' : Popd} {p : Nat} {u : Unit}

/-- A row of the table: its function, and the next status unless the function says no. -/
theorem row_held {event : TcpClientEvent} (runs : popTcpClientEvent p event s = .ok (u, s')) :
    ∃ peer ret m, s.peers p = some peer ∧
      (popTcpClientFsm p peer.tcpClientStatus event).1 s = .ok (ret, m) ∧ s'.calls = m.calls ∧
      s'.held = if 0 ≤ ret then
        m.held.change p (Holding.goes (popTcpClientFsm p peer.tcpClientStatus event).2)
      else m.held := by
  obtain ⟨peer, m, loaded, rest⟩ := runs_bind runs
  obtain ⟨found, rfl⟩ := load_finds loaded
  obtain ⟨ret, m', did, rest⟩ := runs_bind rest
  refine ⟨peer, ret, m', found, did, ?_⟩
  split at rest
  next accepted =>
    have held := store_held
      (g := Holding.goes (popTcpClientFsm p peer.tcpClientStatus event).2) (fun _ => rfl) rest
    obtain ⟨peer', found', rfl⟩ := store_finds rest
    exact ⟨rfl, held.trans (if_pos accepted).symm⟩
  next refused =>
    obtain ⟨_, rfl⟩ := runs_pure rest
    exact ⟨rfl, (if_neg refused).symm⟩

/-- A peer that was left is right whatever it held before. -/
theorem left_right {v : Held} {busy : Nat → Prop} (right : v.Right fun q => busy q ∨ q = p) :
    ((v.change p Holding.leave).change p (Holding.goes .idle)).Right busy := by
  rw [Held.change_change]
  apply right.change
  intro h found proxied
  obtain ⟨nonzero, _⟩ := right p h found proxied
  have closed : (Holding.goes .idle (Holding.leave h)).sockfd = -1 := if_pos nonzero
  constructor
  · intro zero
    cases closed.symm.trans zero
  · intro _
    exact ⟨closed, rfl, rfl, rfl⟩

theorem stop_right {busy : Nat → Prop} (runs : popTcpClientEvent p .stop s = .ok (u, s'))
    (right : s.held.Right fun q => busy q ∨ q = p) : s'.held.Right busy := by
  obtain ⟨peer, ret, m, found, did, _, held⟩ := row_held runs
  have leaves : popTcpClientFsm p peer.tcpClientStatus .stop = (popTcpClientStop p, .idle) := by
    cases peer.tcpClientStatus <;> rfl
  rw [leaves] at did held
  obtain ⟨rfl, left⟩ := leave_held did
  rw [held, if_pos le_rfl, left]
  exact left_right right

/-- The kinds of rows the table has. -/
inductive Row (p : Nat) (status : TcpClientStatus) (event : TcpClientEvent) :
    Daemon Int × TcpClientStatus → Prop
  | stays : Row p status event (return 0, status)
  | leaves (info : TcpClientInfo) : Row p status event (popTcpClientLeave p info, .idle)
  | starts : status = .idle → event = .start → Row p status event (popTcpClientStart p, .connect)
  | establishes : status = .connect → event = .conectionSuccess →
      Row p status event (popTcpClientEstablish p, .establish)
  /-- the row that leaves a connection behind -/
  | ignores : status = .connect → event = .holdtimerExpired → Row p status event (return 0, .idle)

theorem row (p : Nat) (status : TcpClientStatus) (event : TcpClientEvent) :
    Row p status event (popTcpClientFsm p status event) := by
  cases event with
  | start =>
      cases status with
      | idle => exact .starts rfl rfl
      | connect => exact .stays
      | establish => exact .stays
  | stop => cases status <;> exact .leaves .connectionBreak
  | conectionSuccess =>
      cases status with
      | idle => exact .stays
      | connect => exact .establishes rfl rfl
      | establish => exact .stays
  | conectionError => cases status <;> exact .leaves .connectionError
  | holdtimerExpired =>
      cases status with
      | idle => exact .stays
      | connect => exact .ignores rfl rfl
      | establish => exact .leaves .connectionBreak

/-- A start that is not disturbed gives what the next status promises. -/
theorem start_right {peer : Peer} {ret : Int} {m : Popd} (found : s.peers p = some peer)
    (idle : peer.tcpClientStatus = .idle) (did : popTcpClientStart p s = .ok (ret, m))
    (plain : ¬ Disturbed s m) (right : s.held.Right fun _ => False) :
    (if 0 ≤ ret then m.held.change p (Holding.goes .connect) else m.held).Right fun _ => False := by
  have status {h : Holding} (here : s.held.of p = some h) : h.tcpClientStatus = .idle := by
    cases (held_found found).symm.trans here
    exact idle
  obtain ⟨refused, fd, held, opened⟩ | ⟨accepted, fd, allowed, held, opened, refused⟩ := start_held did
  · have closed : fd = -1 := by
      by_contra other
      exact plain (opened other)
    subst closed
    rw [if_neg (not_le.mpr refused), held]
    refine right.turn (fun h => id) fun h here _ sound => ⟨(by decide : (-1 : Int) ≠ 0), ?_⟩
    unfold Holding.Sound at sound ⊢
    rw [status here] at sound ⊢
    exact ⟨rfl, sound.2⟩
  · have inside : 0 < fd := by
      by_contra other
      exact plain (opened other)
    have agreed : allowed = true := by
      cases allowed with
      | true => rfl
      | false => exact absurd (refused rfl) plain
    subst agreed
    rw [if_pos accepted, held, Held.change_change]
    refine right.turn (fun h proxied => ?_) fun h here _ sound => ?_
    · exact Holding.register_proxied (h := { h with sockfd := fd }) proxied
    · unfold Holding.Sound at sound
      rw [status here] at sound
      have registered : Holding.register true { h with sockfd := fd } =
          { h with sockfd := fd, watched := some fd } := if_pos ⟨sound.2.1, inside.le, rfl⟩
      dsimp only [Function.comp_apply]
      rw [registered]
      exact ⟨inside.ne', inside.le, rfl, rfl⟩

theorem establish_right {peer : Peer} {ret : Int} {m : Popd} (found : s.peers p = some peer)
    (connect : peer.tcpClientStatus = .connect) (did : popTcpClientEstablish p s = .ok (ret, m))
    (right : s.held.Right fun _ => False) :
    (if 0 ≤ ret then m.held.change p (Holding.goes .establish) else m.held).Right fun _ => False := by
  obtain ⟨rfl, allowed, held⟩ := establish_held did
  rw [if_pos le_rfl, held, Held.change_change]
  have listed := right.relist fun q _ there => List.mem_append_left [p] there
  refine listed.turn (fun h proxied => ?_) fun h here nonzero sound => ?_
  · exact Holding.register_proxied (h := { h with tConnectingTimer := false }) proxied
  · cases (held_found found).symm.trans here
    unfold Holding.Sound at sound
    rw [show peer.holding.tcpClientStatus = .connect from connect] at sound
    obtain ⟨opened, watched, _⟩ := sound
    have registered : Holding.register allowed { peer.holding with tConnectingTimer := false } =
        { peer.holding with tConnectingTimer := false } := Holding.register_watched watched
    dsimp only [Function.comp_apply]
    rw [registered]
    exact ⟨nonzero, opened, watched, rfl, List.mem_append_right _ (List.mem_singleton_self p)⟩

/-- An event keeps the promises, but for a start that is disturbed, and the row of Connect that
ignores hold-timer expired. -/
theorem event_right {event : TcpClientEvent} (runs : popTcpClientEvent p event s = .ok (u, s'))
    (plain : event = .start → ¬ Disturbed s s')
    (heeded : event = .holdtimerExpired → ∀ peer, s.peers p = some peer →
      peer.tcpClientStatus ≠ .connect)
    (right : s.held.Right fun _ => False) : s'.held.Right fun _ => False := by
  obtain ⟨peer, ret, m, found, did, calls, held⟩ := row_held runs
  rw [held]
  have kind := row p peer.tcpClientStatus event
  generalize popTcpClientFsm p peer.tcpClientStatus event = entry at did kind
  cases kind with
  | stays =>
      obtain ⟨rfl, rfl⟩ := runs_pure did
      rw [if_pos le_rfl, Held.change_id]
      · exact right
      · intro h here
        cases (held_found found).symm.trans here
        rfl
  | leaves info =>
      obtain ⟨rfl, left⟩ := leave_held did
      rw [if_pos le_rfl, left]
      exact left_right (right.mono fun _ none => none.elim)
  | starts idle started =>
      apply start_right found idle did _ right
      rintro ⟨n, later, earlier, refused⟩
      exact plain started ⟨n, later, calls ▸ earlier, refused⟩
  | establishes connect => exact establish_right found connect did right
  | ignores connect expired => exact absurd connect (heeded expired peer found)

/-! ## Ends of peers -/

/-- `_pop_tcp_server_close` works on the other peers, whose status promises nothing. -/
theorem serverClose_right {busy : Nat → Prop} {peer : Peer} (found : s.peers p = some peer)
    (client : peer.tcpPeerType ≠ .server) (runs : popTcpServerClose p s = .ok (u, s'))
    (right : s.held.Right fun q => busy q ∨ q = p) : s'.held.Right busy := by
  obtain ⟨_, m₁, disarmed, rest⟩ := runs_bind runs
  obtain ⟨_, m₂, cancelled, rest⟩ := runs_bind rest
  obtain ⟨_, m₃, closed, rest⟩ := runs_bind rest
  obtain ⟨_, m₄, added, noted⟩ := runs_bind rest
  rw [heldCalm.note _ _ _ _ noted, heldCalm.popTcpServerEventAdd _ _ _ _ _ added,
    store_held (g := fun h => { h with sockfd := if 0 < h.sockfd then -1 else h.sockfd })
      (fun _ => rfl) closed,
    heldCalm.popTcpCanclePaired _ _ _ _ cancelled,
    store_held (g := fun h =>
      { h with tHoldtime := false, tConnectingTimer := false, watched := none })
      (fun _ => rfl) disarmed, Held.change_change]
  apply right.change
  intro h here proxied
  cases (held_found found).symm.trans here
  exact absurd proxied.2 client

theorem closePeer_right {busy : Nat → Prop} (runs : popTcpClosePeer p s = .ok (u, s'))
    (right : s.held.Right fun q => busy q ∨ q = p) : s'.held.Right busy := by
  obtain ⟨peer, m, loaded, rest⟩ := runs_bind runs
  obtain ⟨found, rfl⟩ := load_finds loaded
  split at rest
  next => exact stop_right rest right
  next client => exact serverClose_right found client rest right

/-- The end of a pair settles also what one of the two has left half done. -/
theorem closePairedPeer_right (runs : popTcpClosePairedPeer p s = .ok (u, s'))
    (right : s.held.Right fun q => q = p) : s'.held.Right fun _ => False := by
  obtain ⟨peer, m, loaded, rest⟩ := runs_bind runs
  obtain ⟨found, rfl⟩ := load_finds loaded
  cases partner : peer.pairedPeer with
  | some q =>
      rw [partner] at rest
      obtain ⟨_, m', closed, rest⟩ := runs_bind rest
      have between := closePeer_right closed (right.mono fun _ here => Or.inl here)
      exact closePeer_right rest (between.mono fun _ here => Or.inr here)
  | none =>
      rw [partner] at rest
      exact closePeer_right rest (right.mono fun _ here => Or.inr here)

end Events

end Poplar.Proxy
