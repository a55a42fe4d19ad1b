import MinerGateway.Boundary.Request
import MinerGateway.Rpc.Call
import MinerGateway.Rpc.Failure

/-!
The methods that miners call, and their parameters.

Parameters come in an array or by name. A method that takes none ignores whatever is given; the
others want strings, ignore what they do not know, and read their parameters in a fixed order, so
the first malformed one is reported. A malformed extra nonce is not looked at here.

Correspondence (interface ↔ definition):
  the methods, and a method that there is not ↔ `Call.invocation`
  one parameter under any of its names        ↔ `Param`
  the request behind a submitted solution     ↔ `submitWork`
  the request behind a reported hash rate     ↔ `submitHashrate`
-/

namespace MinerGateway.Rpc

/-- What a call asks the gateway to do. -/
inductive Invocation where
  | hashrate
  | request (request : Request)
  deriving DecidableEq, Repr

/-- A parameter: the names under which it may be given. -/
abbrev Param := List String

/-- The value given under any of the names; nothing if there are several. -/
def Param.value? (param : Param) (members : List (Option String × Json.Value)) :
    Option (Option Json.Value) :=
  match members.filter fun member => param.any (member.1 == some ·) with
  | [] => some none
  | [member] => some (some member.2)
  | _ => none

/-- The values of the parameters in order, those not given included. -/
def values? (params : List Param) : Option Json.Value → Option (List (Option Json.Value))
  | some (.array items) => some ((List.range params.length).map fun i => items[i]?)
  | some (.object members) =>
    if members.any (·.1.isNone) then none else params.mapM (·.value? members)
  | _ => none

/-- A parameter that has to be a string. -/
def required? (value : Option Json.Value) : Option String := value.bind text?

/-- A parameter that may be left out or null, but else has to be a string. -/
def allowed? (value : Option Json.Value) : Option (Option String) :=
  match optional? value with
  | none => some none
  | some value => (text? value).map some

def submitWorkTexts? (params : Option Json.Value) :
    Option (String × String × String × Option String) := do
  match ← values? [["nonce"], ["hash"], ["digest"], ["extraNonce", "extra_nonce"]] params with
  | [nonce, hash, digest, extraNonce] =>
    return (← required? nonce, ← required? hash, ← required? digest, ← allowed? extraNonce)
  | _ => none

def submitHashrateTexts? (params : Option Json.Value) : Option (String × String) := do
  match ← values? [["rate"], ["id"]] params with
  | [rate, id] => return (← required? rate, ← required? id)
  | _ => none

/-- The request that the texts of a submitted solution make. -/
def submitWork (nonce hash digest : String) (extraNonce : Option String) :
    Except Failure Request := do
  let nonce ← parseNonce nonce
  let hash ← parseHash "hash" hash
  let digest ← parseHash "digest" digest
  return .submitWork nonce hash digest extraNonce

/-- The request that the texts of a reported hash rate make. -/
def submitHashrate (rate id : String) : Except Failure Request := do
  let rate ← parseQuantity "rate" rate
  let id ← parseHash "id" id
  return .submitHashrate rate id

/-- What a call asks for, or why it is refused before the gateway is asked. -/
def Call.invocation (call : Call) : Except Failure Invocation :=
  match call.method with
  | "eth_getWork" => .ok (.request .getWork)
  | "eth_hashrate" => .ok .hashrate
  | "eth_submitWork" =>
    match submitWorkTexts? call.params with
    | some (nonce, hash, digest, extraNonce) =>
      (submitWork nonce hash digest extraNonce).map .request
    | none => .error .invalidParams
  | "eth_submitHashrate" =>
    match submitHashrateTexts? call.params with
    | some (rate, id) => (submitHashrate rate id).map .request
    | none => .error .invalidParams
  | _ => .error .methodNotFound

end MinerGateway.Rpc
