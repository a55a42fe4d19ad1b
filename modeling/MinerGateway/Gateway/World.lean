import MinerGateway.Boundary.Intake
import MinerGateway.Gateway.Call
import MinerGateway.Sealing.Ledger

/-!
The state of a gateway: an engine, the channels in front of it, the calls under way and the clock.

There are four kinds of engine. A started sealer runs a worker over a ledger; a local one has no
boundary for miners; a scripted engine leaves the worker's part to whoever drives it; and there may
be none at all. The channels exist for a started sealer and for a scripted engine.

Correspondence (gateway ↔ definition):
  a sealer with its worker, its settings, its results ↔ `Sealer`
  starting a sealer                                   ↔ `Sealer.start`, `World.started`
  whether it says that its worker runs                ↔ `Engine.isRunning?`
  the hash rate that everyone may read                ↔ `Engine.hashrate`
  handing a task to the worker                        ↔ `World.pushTask`
  letting go of a sealer                              ↔ `attached`, `isOrphaned`, `release`

The queue of pushed tasks has no bound; the three channels and the channel of results have one.
-/

namespace MinerGateway

inductive Loop where
  | running
  /-- Ended on the exit signal. -/
  | ended
  /-- Broke down before it handled anything. -/
  | crashed
  deriving DecidableEq, Repr

/-- A started sealing engine. -/
structure Sealer where
  settings : EngineSettings
  verifier : Verifier
  ledger : Ledger := {}
  /-- Pushed and not handled so far, the oldest first. -/
  tasks : List Task := []
  outbox : Outbox
  loop : Loop
  cleanupDue : Bool
  /-- Whether someone already waits, or has waited, for the loop to end. -/
  joined : Bool := false

/-- A new engine. Housekeeping is due at once, and then every `cleanupInterval`; a period of zero
breaks the loop down at its start. -/
def Sealer.start (settings : EngineSettings) (verifier : Verifier) : Sealer where
  settings := settings
  verifier := verifier
  outbox := Outbox.start settings.resultsCapacity
  loop := if settings.cleanupInterval = 0 then .crashed else .running
  cleanupDue := settings.cleanupInterval ≠ 0

/-- A worker's part that is played by hand: the rate it states and the letters it took. A letter
that was answered or dropped leaves its place empty. -/
structure Script where
  hashrate : UInt64 := 0
  held : List (Option Letter) := []
  deriving DecidableEq, Repr

inductive Engine where
  | absent
  /-- A sealer without a boundary for miners. -/
  | localOnly
  | scripted (script : Script)
  | sealer (sealer : Sealer)

namespace Engine

/-- The aggregate hash rate. -/
def hashrate : Engine → UInt64
  | .absent | .localOnly => 0
  | .scripted s => s.hashrate
  | .sealer s => s.ledger.published

/-- Whether the engine says that its worker runs; only a sealer says anything. A loop that broke
down never came to say otherwise. -/
def isRunning? : Engine → Option Bool
  | .absent | .scripted _ => none
  | .localOnly => some false
  | .sealer s => some (s.loop != .ended)

end Engine

/-- Whose turn a timer brings. -/
inductive Owner where
  | worker
  | call (index : Nat)
  deriving DecidableEq, Repr

/-- Something that happens at a time. -/
structure Timer where
  due : Nat
  owner : Owner
  deriving DecidableEq, Repr

/-- The state of a gateway. Time is in milliseconds from the start. -/
structure World where
  now : Nat := 0
  engine : Engine
  /-- The channels to the worker, if there is a boundary. -/
  intake : Option Intake := none
  /-- Whether anyone besides the calls still holds the engine. -/
  attached : Bool := true
  calls : List Call := []
  timers : List Timer := []

namespace World

def withoutEngine : World := { engine := .absent }

def localOnly : World := { engine := .localOnly }

/-- A worker's part to be played by hand. -/
def scripted (capacity : Nat) : World :=
  { engine := .scripted {}, intake := some (Intake.start capacity) }

/-- A started sealer. The channels of a loop that breaks down at its start are closed. -/
def started (settings : EngineSettings) (verifier : Verifier) : World :=
  let sealer := Sealer.start settings verifier
  let intake := Intake.start settings.intakeCapacity
  { engine := .sealer sealer
    intake := some (if sealer.loop = .running then intake else intake.abandon) }

def isSignalled (w : World) : Bool := (w.intake.map Intake.signalled).getD false

/-- Whether some unfinished call keeps the engine alive. -/
def isHeldByCalls (w : World) : Bool := w.calls.any Call.holdsEngine

/-- How many calls wait for room in the channel of this kind. -/
def waitingFor (w : World) (kind : Kind) : Nat := w.calls.countP (·.waitsFor kind)

def setStage (w : World) (index : Nat) (stage : Stage) : World :=
  { w with calls := w.calls.modify index fun call => { call with stage } }

def finish (w : World) (index : Nat) (answer : Answer) : World :=
  w.setStage index (.finished answer)

/-- Brings a reply to the sender of a letter. -/
def deliver (w : World) (sender : Nat) (reply : Reply) : World :=
  { w with calls := w.calls.modify sender (Call.receive reply) }

/-- Throws letters away. -/
def lose (w : World) (letters : List Letter) : World :=
  letters.foldl (fun w letter => w.deliver letter.sender .lost) w

/-- Gives the exit signal, if there is anyone to see it. -/
def signal (w : World) : World := { w with intake := w.intake.map Intake.signal }

def setTimer (w : World) (due : Nat) (owner : Owner) : World :=
  { w with timers := w.timers ++ [⟨due, owner⟩] }

def makeCall (w : World) (errand : Errand) : Nat × World :=
  (w.calls.length, { w with calls := w.calls ++ [{ errand }] })

/-- Hands a task to the worker. It is refused without a boundary, once the exit signal was given,
and when the loop broke down. -/
def pushTask (w : World) (task : Task) : Except SealingError World :=
  match w.engine with
  | .sealer sealer =>
    if w.isSignalled || sealer.loop != .running then .error .stopped
    else .ok { w with engine := .sealer { sealer with tasks := sealer.tasks ++ [task] } }
  | _ => .error .notSupported

/-- Whether the engine is a sealer that nobody holds any more. -/
def isOrphaned (w : World) : Bool :=
  match w.engine with
  | .sealer _ => !w.attached && !w.isHeldByCalls
  | _ => false

/-- Closes an engine that nobody holds any more. -/
def release (w : World) : World := if w.isOrphaned then w.signal else w

end World

end MinerGateway
