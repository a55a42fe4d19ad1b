import MinerGateway.Boundary.Message

/-!
What external miners may ask for, and what they are told.

A request becomes at most one message. What its sender is told depends on the reply to that message
alone. Whoever fetches work learns why there is none; whoever submits or reports learns only whether
it was taken, so every reason for a refusal reads the same.

Correspondence (what a miner does ↔ definition):
  asks for work, submits a solution, reports a rate ↔ `Request`
  the answer: a package or an error, or yes or no   ↔ `Outcome`
  the message that is sent, if there is one         ↔ `Request.message?`
  the answer when no message can be sent            ↔ `Request.failure`
  the answer that the worker's reply comes to       ↔ `Request.outcome`
-/

namespace MinerGateway

inductive Request where
  | getWork
  | submitWork (nonce : Nonce) (hash digest : Hash) (extraNonce : Option String)
  | submitHashrate (rate : UInt64) (id : Hash)
  deriving DecidableEq, Repr

/-- What a miner is told. -/
inductive Outcome where
  | work (result : Except SealingError WorkPackage)
  | accepted (yes : Bool)

namespace Request

/-- The bytes of an extra nonce, which may be absent. -/
def decodeExtraNonce : Option String → Except HexError (Option (List UInt8))
  | none => .ok none
  | some text => (Hex.decode text).map some

/-- The message for the worker. A malformed extra nonce makes none. -/
def message? : Request → Option Message
  | .getWork => some .fetch
  | .submitWork nonce hash digest extraNonce =>
    match decodeExtraNonce extraNonce with
    | .ok bytes => some (.submission ⟨nonce, hash, digest, bytes⟩)
    | .error _ => none
  | .submitHashrate rate id => some (.report ⟨rate, id⟩)

/-- What the miner is told when the request fails for this reason. -/
def failure (error : SealingError) : Request → Outcome
  | .getWork => .work (.error error)
  | .submitWork .. => .accepted false
  | .submitHashrate .. => .accepted false

/-- What the miner is told on a reply. A lost letter means that the engine has stopped. -/
def outcome : Request → Reply → Outcome
  | .getWork, .work result => .work result
  | .submitWork .., .verdict (.ok _) => .accepted true
  | .submitHashrate .., .recorded => .accepted true
  | request, _ => request.failure .stopped

end Request

end MinerGateway
