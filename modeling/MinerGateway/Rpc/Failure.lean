import MinerGateway.Bytes.Fixed
import MinerGateway.Hex.Quantity
import MinerGateway.Sealing.Error

/-!
Errors of the JSON-RPC interface: a code and a text for each cause, and the parameters of miners as
values.

Left out is the third member that an error may carry, which says more about a cause in the words of
the server's library.
-/

namespace MinerGateway.Rpc

/-- Why a request has no result. -/
inductive Failure where
  /-- The text is not JSON, or nothing that could be answered under its id. -/
  | parseError
  /-- The text is JSON but no request. -/
  | invalidRequest
  | methodNotFound
  /-- Parameters are missing or no strings. -/
  | invalidParams
  /-- A parameter's text does not denote a value. -/
  | invalidParam (name : String) (cause : HexError)
  | engine (error : SealingError)
  deriving DecidableEq, Repr

/-- The code of failures that the engine reports. -/
def engineCode : Int := -32000

def Failure.code : Failure → Int
  | .parseError => -32700
  | .invalidRequest => -32600
  | .methodNotFound => -32601
  | .invalidParams => -32602
  | .invalidParam .. => -32602
  | .engine _ => engineCode

def Failure.message : Failure → String
  | .parseError => "Parse error"
  | .invalidRequest => "Invalid request"
  | .methodNotFound => "Method not found"
  | .invalidParams => "Invalid params"
  | .invalidParam name cause => "invalid " ++ name ++ ": " ++ cause.message
  | .engine error => error.message

def parseHash (name text : String) : Except Failure Hash :=
  (Hash.parse text).mapError (.invalidParam name)

def parseNonce (text : String) : Except Failure Nonce :=
  (Nonce.parse text).mapError (.invalidParam "nonce")

def parseQuantity (name text : String) : Except Failure UInt64 :=
  (Hex.decodeQuantity text).mapError (.invalidParam name)

end MinerGateway.Rpc
