import MinerGateway.Sealing.Error
import MinerGateway.Sealing.Task

/-!
Checks of a submitted nonce and mix digest against the task that they claim to seal.

The engine asks a verifier and passes on whatever it answers. `acceptAll` serves development
networks; the others check one relation between solution and task each. A verifier is a function: it
always answers, and the same to the same question. It may answer with any error, also with one that
the engine has for a purpose of its own.
-/

namespace MinerGateway

/-- A proof-of-work check: nothing if the solution holds, else the reason why not. -/
abbrev Verifier := Task → Nonce → Hash → Except SealingError Unit

namespace Verifier

/-- Accepts a solution if `holds` does. -/
def require (holds : Task → Nonce → Hash → Bool) : Verifier := fun task nonce digest =>
  if holds task nonce digest then .ok () else .error .invalidSolution

def acceptAll : Verifier := fun _ _ _ => .ok ()

def failWith (error : SealingError) : Verifier := fun _ _ _ => .error error

def rejectAll : Verifier := failWith .invalidSolution

def evenNonce : Verifier := require fun _ nonce _ => nonce.toUInt64 % 2 == 0

def digestIsHash : Verifier := require fun task _ digest => digest == task.sealHash

def nonceIsNumber : Verifier := require fun task nonce _ => nonce.toUInt64 == task.number

end Verifier

end MinerGateway
