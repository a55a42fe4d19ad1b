import MinerGateway.Decimal.Numeral

/-!
Addresses that the server is asked to bind, and what a machine's network does with them.

An address is a host and, after the last colon, a port. Hosts are numeric addresses of four parts;
names are not looked up. What the machine does with an address is not known here: `Network` is
a parameter of every run, with `Network.loopback` and `Network.isolated` as two machines.
-/

namespace MinerGateway

structure Address where
  host : String
  port : Nat
  deriving DecidableEq, Repr

/-- Why the server could not be bound to an address. -/
inductive BindFault where
  | noPort
  /-- What follows the last colon is no 16-bit number. -/
  | invalidPort
  /-- The machine's network refuses the address. -/
  | refused (reason : String)
  deriving DecidableEq, Repr

/-- The wording of each cause. -/
def BindFault.message : BindFault → String
  | .noPort => "invalid socket address"
  | .invalidPort => "invalid port value"
  | .refused reason => reason

/-- The characters before the last colon and those after it. -/
def splitAtLastColon (text : List Char) : Option (List Char × List Char) :=
  let back := text.reverse
  match back.dropWhile (· != ':') with
  | [] => none
  | _ :: host => some (host.reverse, (back.takeWhile (· != ':')).reverse)

def Address.parse (text : String) : Except BindFault Address :=
  match splitAtLastColon text.toList with
  | none => .error .noPort
  | some (host, port) =>
    match Decimal.readBelow UInt16.size port with
    | none => .error .invalidPort
    | some port => .ok ⟨String.ofList host, port⟩

/-- The part of a machine that the server depends on. -/
structure Network where
  /-- The reason for which a host cannot be bound, if there is one. -/
  bindFault? : (host : String) → Option String
  /-- The reason for which no client gets through to the server, if there is one. -/
  connectFault? : Option String

namespace Network

/-- The hosts that are this machine whatever its network: any address, and the loopback range. -/
def isLocalHost (host : String) : Bool :=
  host == "0.0.0.0" || "127.".toList.isPrefixOf host.toList

/-- A machine that clients reach over its loopback interface, and that has no address but those. -/
def loopback : Network where
  bindFault? host :=
    if isLocalHost host then none else some "Cannot assign requested address (os error 99)"
  connectFault? := none

/-- A machine without a network: every address can be bound, and no client gets through. -/
def isolated : Network where
  bindFault? _ := none
  connectFault? := some "Network is unreachable (os error 101)"

def bind (network : Network) (text : String) : Except BindFault Address := do
  let address ← Address.parse text
  match network.bindFault? address.host with
  | some reason => .error (.refused reason)
  | none => return address

end Network

/-- Why a gateway did not start. -/
structure StartError where
  reason : String
  deriving DecidableEq, Repr

def StartError.message (e : StartError) : String := "rpc: " ++ e.reason

/-- A start that failed because of the address. -/
def StartError.ofBindFault (address : String) (fault : BindFault) : StartError :=
  ⟨"bind " ++ address ++ ": " ++ fault.message⟩

end MinerGateway
