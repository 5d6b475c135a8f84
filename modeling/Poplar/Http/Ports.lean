import Poplar.Http.Targets

/-!
# The port of a request

A URI that gives neither a scheme nor a port leaves the caller's `port` as it is, and whatever
stands behind a `:` is a number for `atoi`.
-/
namespace Poplar.Http

/-- The digits of a port. -/
structure PortNumber (digits : List UInt8) : Prop where
  nonempty : digits ≠ []
  digit : ∀ c ∈ digits, isDigit c = true
  low : 1 ≤ decimal digits
  high : decimal digits ≤ 65535

/-- What stands behind the scheme names a host, and a port where none is implied. -/
structure Connectable (implied : Option Int) (rest : List UInt8) : Prop where
  host : hostPart rest ≠ []
  fits : (hostPart rest).length < IPADDR_SIZE
  written : colon ∈ rest → PortNumber (front slash (behind colon rest))
  scheme : colon ∉ rest → implied.isSome = true

/-- A port that is written is a number of 1 to 65535. -/
def DecimalPort (uri : List UInt8) : Prop :=
  ∀ implied rest, behindScheme uri = some (implied, rest) → colon ∈ rest →
    PortNumber (front slash (behind colon rest))

/-- The function returns; where it returns 0, a host has been copied and a port of 1 to 65535 has
been assigned, and the URI writes its port as such a number. -/
def PortRight (uri : List UInt8) : Prop :=
  ∃ made, getHostIpPostFromURI uri = .ok made ∧ ∀ target, made = some target →
    target.ipAddr ≠ [] ∧ (∃ port, target.port = some port ∧ 1 ≤ port ∧ port ≤ 65535) ∧
      DecimalPort uri

section Ports

variable {uri rest : List UInt8} {implied : Option Int}

/-- The port a scheme implies is one of the two defaults. -/
theorem implied_in_range {port : Int} (behind : behindScheme uri = some (some port, rest)) :
    1 ≤ port ∧ port ≤ 65535 := by
  rw [behindScheme] at behind
  split at behind
  · cases behind
  · split at behind
    · cases behind
    · split at behind
      · cases behind
        decide
      · split at behind
        · cases behind
          decide
        · cases behind

theorem getHostIpPostFromURI_behind (behind : behindScheme uri = some (implied, rest)) :
    getHostIpPostFromURI uri = copyHost (hostPart rest, portPart implied rest) := by
  rw [getHostIpPostFromURI_eq, behind]
  rfl

/-- For what stands behind the scheme, the call is right if and only if it can be connected to. -/
theorem portRight_behind_iff (behind : behindScheme uri = some (implied, rest)) :
    PortRight uri ↔ Connectable implied rest := by
  have call := getHostIpPostFromURI_behind behind
  constructor
  · rintro ⟨made, runs, right⟩
    rw [call, copyHost] at runs
    split at runs
    · next fits =>
      cases runs
      obtain ⟨host, ⟨port, assigned, low, high⟩, decimals⟩ := right _ rfl
      dsimp only at host assigned
      constructor
      · exact host
      · exact fits
      · exact decimals implied rest behind
      · intro absent
        rw [portPart, if_neg absent] at assigned
        rw [assigned]
        rfl
    · cases runs
  · intro connectable
    refine ⟨some ⟨hostPart rest, portPart implied rest⟩, ?_, ?_⟩
    · rw [call, copyHost, if_pos connectable.fits]
    · rintro target ⟨⟩
      refine ⟨connectable.host, ?_, ?_⟩
      · dsimp only
        rw [portPart]
        by_cases member : colon ∈ rest
        · obtain ⟨some_, digits, low, high⟩ := connectable.written member
          rw [if_pos member, atoi_decimal some_ digits high]
          exact ⟨_, rfl, by omega, by omega⟩
        · obtain ⟨port, same⟩ := Option.isSome_iff_exists.mp (connectable.scheme member)
          rw [if_neg member, same]
          exact ⟨port, rfl, implied_in_range (same ▸ behind)⟩
      · intro implied' rest' again member
        cases behind.symm.trans again
        exact connectable.written member

end Ports

/-- The port is right if and only if the scheme is refused, or what stands behind it has a host
that fits, and a written port that is one or a scheme. -/
theorem port_right_iff (uri : List UInt8) :
    PortRight uri ↔ ∀ target ∈ behindScheme uri, Connectable target.1 target.2 := by
  cases behind : behindScheme uri with
  | none =>
      refine iff_of_true ⟨none, ?_, ?_⟩ ?_
      · rw [getHostIpPostFromURI_eq, behind]
        rfl
      · rintro target ⟨⟩
      · rintro target ⟨⟩
  | some target =>
      rw [portRight_behind_iff behind]
      constructor
      · rintro connectable target ⟨⟩
        exact connectable
      · intro all
        exact all target rfl

/-- Neither a scheme nor a port. -/
theorem unassigned_port :
    getHostIpPostFromURI (ascii "example") = .ok (some ⟨ascii "example", none⟩) ∧
      ¬ PortRight (ascii "example") := by
  have taken : getHostIpPostFromURI (ascii "example") = .ok (some ⟨ascii "example", none⟩) := by
    decide +kernel
  refine ⟨taken, ?_⟩
  rintro ⟨made, runs, right⟩
  cases taken.symm.trans runs
  obtain ⟨-, ⟨port, assigned, -⟩, -⟩ := right _ rfl
  cases assigned

end Poplar.Http
