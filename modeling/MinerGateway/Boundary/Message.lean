import MinerGateway.Sealing.Error
import MinerGateway.Sealing.Task

/-!
Messages to the worker and the replies to them.

A message travels in a letter that names its sender, so the worker answers whoever wrote the letter
it holds and needs no other way to tell requests apart. A letter is answered at most once; one that
is thrown away unanswered brings its sender the reply `lost`.

Correspondence (boundary ↔ definition):
  the three messages, each with a slot for one reply ↔ `Message`, `Letter`
  a reply put into the slot, one for each message    ↔ `Reply`
  a slot that goes away empty                        ↔ `Reply.lost`
-/

namespace MinerGateway

/-- The three kinds of message; each has a channel of its own. -/
inductive Kind where
  | fetch
  | submission
  | report
  deriving DecidableEq, Repr

/-- What a miner asks of the worker. -/
inductive Message where
  | fetch
  | submission (s : Submission)
  | report (r : RateReport)
  deriving DecidableEq, Repr

def Message.kind : Message → Kind
  | .fetch => .fetch
  | .submission _ => .submission
  | .report _ => .report

/-- A message and the number of the call that waits for the reply. -/
structure Letter where
  sender : Nat
  message : Message
  deriving DecidableEq, Repr

abbrev Letter.kind (letter : Letter) : Kind := letter.message.kind

/-- What comes back for a letter. -/
inductive Reply where
  | work (result : Except SealingError WorkPackage)
  | verdict (result : Except SealingError Unit)
  | recorded
  /-- The letter was thrown away. -/
  | lost

/-- Answers a message that could not be served. A report has no way to fail. -/
def Message.refuse (error : SealingError) : Message → Reply
  | .fetch => .work (.error error)
  | .submission _ => .verdict (.error error)
  | .report _ => .recorded

end MinerGateway
