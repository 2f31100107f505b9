import Palisade.Address.HostName
import Palisade.Address.Ipv6

/-!
# Addresses that cannot be bound

An address is a host and a port with a colon between them. The host is a numeric address, which stands
in brackets or not if it has colons itself, or a name. This module says which addresses cannot be bound
where the network is down: no name server answers, no address of eight groups belongs to the machine,
and every address of four bytes passes. Ports below 1024 are for privileged programs only.
-/
namespace Palisade

open Palisade.Text

/-- Why an address cannot be bound. -/
inductive AddressFault where
  /-- No colon separates a port. -/
  | noPort
  /-- The port is no number of sixteen bits. -/
  | badPort
  /-- The host has a character that ends texts of the system. -/
  | nul
  /-- The port is not for this program. -/
  | reserved
  /-- The host is a numeric address, but not of this machine. -/
  | notOwn
  /-- The host is a numeric address that nobody can listen at. -/
  | unfit
  /-- The host is a numeric address on a device that the machine lacks. -/
  | noDevice
  /-- The host is a name that no name server answers for. -/
  | noAnswer
  /-- The host cannot be a name. -/
  | noName
  deriving Repr, DecidableEq

namespace AddressFault

/-- The message of a cause. -/
def message : AddressFault → String
  | noPort => "invalid socket address"
  | badPort => "invalid port value"
  | nul => "file name contained an unexpected NUL byte"
  | reserved => "Permission denied (os error 13)"
  | notOwn => "Cannot assign requested address (os error 99)"
  | unfit => "Invalid argument (os error 22)"
  | noDevice => "No such device (os error 19)"
  | noAnswer => "failed to lookup address information: Temporary failure in name resolution"
  | noName => "failed to lookup address information: Name or service not known"

/-- The largest port. -/
def maxPort : Nat := 65535

/-- Whether a port is for privileged programs only. The port zero asks for any that is free. -/
def isReserved (port : Nat) : Bool := 0 < port && port < 1024

/-- The cause that a port gives alone. -/
def ofPort? (port : Nat) : Option AddressFault := if isReserved port then some reserved else none

/-- The device that a machine has for itself. -/
def ownDevice : Nat := 1

/-- Why an address of eight groups cannot be bound. -/
def ofScoped? (a : Ipv6.Scoped) (port : Nat) : Option AddressFault :=
  if Ipv6.isMulticast a.groups then some unfit
  else if isReserved port then some reserved
  else if Ipv6.isUnspecified a.groups || Ipv6.isMapped a.groups then none
  else if !Ipv6.isLocal a.groups || a.device == ownDevice then some notOwn
  else if a.device == 0 then some unfit
  else some noDevice

/-- The address of eight groups that a host is. In brackets it stands with a port of digits only, and
its device is a number; bare, its device may have a name. -/
def scoped? (host port : List Char) : Option Ipv6.Scoped :=
  match host with
  | '[' :: rest =>
    if rest.getLast? = some ']' ∧ port.all Char.isDigit then
      Ipv6.readScoped? (fun _ => Ipv6.readDevice?) rest.dropLast
    else none
  | bare =>
    Ipv6.readScoped? (fun groups s => Ipv6.namedDevice? groups s <|> Ipv6.readDevice? s) bare

/-- Why a host cannot be bound at a port. -/
def ofHost? (host portText : List Char) (port : Nat) : Option AddressFault :=
  match scoped? host portText with
  | some address => ofScoped? address port
  | none =>
    if host.contains '\x00' then some nul
    else if (Ipv4.read? host).isSome || HostName.isKnown host then ofPort? port
    else if HostName.isValid host then some noAnswer
    else some noName

/-- Why an address cannot be bound, if anything speaks against it. The port stands behind the last
colon. -/
def ofAddress? (address : String) : Option AddressFault :=
  match cutAtLast ':' address.toList with
  | none => some noPort
  | some (host, portText) =>
    match readNat? maxPort (String.ofList portText) with
    | none => some badPort
    | some port => ofHost? host portText port

/-- The check of a port does not say that there is none. -/
theorem ofPort?_ne_noPort (port : Nat) : ofPort? port ≠ some noPort := by
  unfold ofPort?
  split <;> simp

/-- The check of an address of eight groups does not say that there is no port. -/
theorem ofScoped?_ne_noPort (address : Ipv6.Scoped) (port : Nat) :
    ofScoped? address port ≠ some noPort := by
  unfold ofScoped?
  repeat' split
  all_goals simp

/-- An address lacks a port exactly if it has no colon. -/
theorem ofAddress?_eq_noPort_iff {address : String} :
    ofAddress? address = some noPort ↔ ':' ∉ address.toList := by
  rw [← cutAtLast_eq_none_iff]
  unfold ofAddress?
  cases cutAtLast ':' address.toList with
  | none => simp
  | some p =>
    obtain ⟨host, portText⟩ := p
    simp only [reduceCtorEq, iff_false]
    split
    · simp
    · unfold ofHost?
      split
      · exact ofScoped?_ne_noPort _ _
      · repeat' split
        all_goals first | exact ofPort?_ne_noPort _ | simp

end AddressFault

end Palisade
