import MinerGateway.Sealing.Error
import MinerGateway.Sealing.Task

/-!
The channel on which accepted solutions leave the engine.

It holds a bounded number of them in the order of acceptance. The engine never waits for room: when
the consumer is gone or too slow, the solution is refused instead. The bound is one at least, and
what lies in the channel can still be received after the engine has ended.
-/

namespace MinerGateway

/-- Accepted solutions on their way to the consumer. -/
structure Outbox where
  capacity : Nat
  /-- Not received so far, the oldest first. -/
  queue : List SealedWork := []
  /-- Whether there still is a consumer. -/
  attended : Bool := true
  deriving DecidableEq, Repr

namespace Outbox

/-- An empty channel; a capacity of zero counts as one. -/
def start (capacity : Nat) : Outbox := { capacity := max capacity 1 }

/-- Passes on an accepted solution, or says why it cannot be. -/
def offer (outbox : Outbox) (work : SealedWork) : Except SealingError Outbox :=
  if !outbox.attended then .error (.internal "results channel closed")
  else if outbox.capacity ≤ outbox.queue.length then .error (.internal "results channel full")
  else .ok { outbox with queue := outbox.queue ++ [work] }

def receive (outbox : Outbox) : Option (SealedWork × Outbox) :=
  match outbox.queue with
  | [] => none
  | work :: queue => some (work, { outbox with queue })

/-- The consumer goes away, and with it what it has not received. -/
def abandon (outbox : Outbox) : Outbox := { outbox with attended := false, queue := [] }

end Outbox

end MinerGateway
