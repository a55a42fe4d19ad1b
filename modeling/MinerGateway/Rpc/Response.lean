import MinerGateway.Json.Typed
import MinerGateway.Rpc.Method

/-!
Responses: the id of the call with a result or a failure, and their JSON text.
-/

namespace MinerGateway.Rpc

inductive Result where
  | package (package : WorkPackage)
  | accepted (yes : Bool)
  | hashrate (rate : UInt64)
  deriving DecidableEq, Repr

structure Response where
  id : Id
  result : Except Failure Result

/-- The result that corresponds to what the miner would have been told directly. -/
def resultOf : Outcome → Except Failure Result
  | .work (.ok package) => .ok (.package package)
  | .work (.error error) => .error (.engine error)
  | .accepted yes => .ok (.accepted yes)

def Id.write : Id → String
  | .null => "null"
  | .number n => toString n
  | .string text => String.ofList (Json.writeString text)

def Result.write : Result → String
  | .package p => Json.writePackage p
  | .accepted yes => toString yes
  | .hashrate rate => toString rate

def Failure.write (failure : Failure) : String :=
  "\x7b\"code\":" ++ toString failure.code ++ ",\"message\":"
    ++ String.ofList (Json.writeString failure.message) ++ "\x7d"

/-- The JSON text of a response. -/
def Response.write (response : Response) : String :=
  let outcome :=
    match response.result with
    | .ok result => ",\"result\":" ++ result.write
    | .error failure => ",\"error\":" ++ failure.write
  "\x7b\"jsonrpc\":\"2.0\",\"id\":" ++ response.id.write ++ outcome ++ "\x7d"

end MinerGateway.Rpc
