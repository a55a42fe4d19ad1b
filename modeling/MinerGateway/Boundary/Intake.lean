import MinerGateway.Boundary.Message

/-!
The three intake channels in front of the worker, and its exit signal.

Each channel holds at most `capacity` letters and is read in the order of arrival. Whoever finds no
room waits, and the waiting have a claim to room before anyone who comes later: a newcomer gets in
only if room is left once all who wait are counted in. The signal is given once and for all. It does
not close the channels; they close when the worker's end goes away, and letters in them are lost.

Correspondence (boundary ↔ definition):
  opening the channels, each with room for one letter at least ↔ `Intake.start`
  room in a channel, with those counted in who wait for it     ↔ `Intake.hasRoom`
  handing a letter over, taking the oldest one out             ↔ `Intake.put`, `Intake.take`
  the exit signal, as both ends see it                         ↔ `Intake.signal`, `signalled`
  the end of the worker's side                                 ↔ `Intake.abandon`, `attended`

Those who wait have no list of their own here: they are the calls of the gateway that stand at the
stage `waiting`, and their order is that of the calls.
-/

namespace MinerGateway

/-- The channels between callers and worker. -/
structure Intake where
  capacity : Nat
  fetches : List Letter := []
  submissions : List Letter := []
  reports : List Letter := []
  /-- Whether the exit signal has been given. -/
  signalled : Bool := false
  /-- Whether the worker's end still exists. -/
  attended : Bool := true
  deriving DecidableEq, Repr

namespace Intake

/-- Empty channels; a capacity of zero counts as one. -/
def start (capacity : Nat) : Intake := { capacity := max capacity 1 }

/-- The letters in one channel, the oldest first. -/
def queue (intake : Intake) : Kind → List Letter
  | .fetch => intake.fetches
  | .submission => intake.submissions
  | .report => intake.reports

def setQueue (intake : Intake) (letters : List Letter) : Kind → Intake
  | .fetch => { intake with fetches := letters }
  | .submission => { intake with submissions := letters }
  | .report => { intake with reports := letters }

def letters (intake : Intake) : List Letter :=
  intake.fetches ++ intake.submissions ++ intake.reports

/-- Whether a channel takes one more letter when `waiting` senders come first. -/
def hasRoom (intake : Intake) (kind : Kind) (waiting : Nat) : Bool :=
  (intake.queue kind).length + waiting < intake.capacity

/-- Puts a letter at the end of its channel. -/
def put (intake : Intake) (letter : Letter) : Intake :=
  intake.setQueue (intake.queue letter.kind ++ [letter]) letter.kind

def take (intake : Intake) (kind : Kind) : Option (Letter × Intake) :=
  match intake.queue kind with
  | [] => none
  | letter :: rest => some (letter, intake.setQueue rest kind)

def signal (intake : Intake) : Intake := { intake with signalled := true }

/-- The worker's end goes away, and the channels with their letters. -/
def abandon (intake : Intake) : Intake :=
  { intake with attended := false, fetches := [], submissions := [], reports := [] }

@[simp] theorem queue_setQueue (intake : Intake) (letters : List Letter) (kind other : Kind) :
    (intake.setQueue letters kind).queue other
      = if other = kind then letters else intake.queue other := by
  cases kind <;> cases other <;> rfl

@[simp] theorem capacity_setQueue (intake : Intake) (letters : List Letter) (kind : Kind) :
    (intake.setQueue letters kind).capacity = intake.capacity := by
  cases kind <;> rfl

@[simp] theorem signalled_setQueue (intake : Intake) (letters : List Letter) (kind : Kind) :
    (intake.setQueue letters kind).signalled = intake.signalled := by
  cases kind <;> rfl

@[simp] theorem attended_setQueue (intake : Intake) (letters : List Letter) (kind : Kind) :
    (intake.setQueue letters kind).attended = intake.attended := by
  cases kind <;> rfl

end Intake

end MinerGateway
