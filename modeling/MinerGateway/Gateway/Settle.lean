import MinerGateway.Bytes.Sha256
import MinerGateway.Gateway.World

/-!
What happens by itself at one instant.

A move is one thing that the worker or a call does. Calls go first, in the order in which they were
made; the worker has its turn when no call can do anything. The worker looks in a fixed order: for
the exit signal, then for pushed tasks, fetches, submissions and reports, and last for housekeeping.
A call that waits for room first looks for the exit signal too, so a signal wins over room. `settle`
lets moves happen until none is left: first those left over from before, then the calls made since
begin, then all that follows from them.

Correspondence (gateway ↔ definition):
  one round of the worker's loop              ↔ `workerMove`
  what a caller does when it is woken         ↔ `callMove`
  the end of a sealer that nobody holds       ↔ `releaseMove`
  one instant, from the first move to the last ↔ `settle`

The fuel of `run` hides nothing: `potential` bounds the moves that are left, and each lowers it. The
order of turns fixed here is one of those that a run allows.
-/

namespace MinerGateway

namespace Sealer

def serve (sealer : Sealer) (now : Nat) : Message → Sealer × Reply
  | .fetch => (sealer, .work sealer.ledger.currentWork)
  | .submission s =>
    match sealer.ledger.submit sealer.settings.staleThreshold sealer.verifier sealer.outbox s with
    | .ok outbox => ({ sealer with outbox }, .verdict (.ok ()))
    | .error error => (sealer, .verdict (.error error))
  | .report r => ({ sealer with ledger := sealer.ledger.record r now }, .recorded)

/-- The state after the loop has ended: no reports, and no task will be handled. -/
def exit (sealer : Sealer) : Sealer :=
  { sealer with
    loop := .ended, ledger := sealer.ledger.silence, tasks := [], cleanupDue := false }

end Sealer

/-- The letter that the worker takes next. -/
def Intake.next (intake : Intake) : Option (Letter × Intake) :=
  (intake.take .fetch).or ((intake.take .submission).or (intake.take .report))

namespace World

/-- The next thing that the worker does. -/
def workerMove (w : World) : Option World :=
  match w.engine, w.intake with
  | .sealer sealer, some intake =>
    if sealer.loop ≠ .running then none
    else if intake.signalled then
      some ({ w with engine := .sealer sealer.exit, intake := some intake.abandon }.lose
        intake.letters)
    else match sealer.tasks with
      | task :: tasks =>
        some { w with engine := .sealer { sealer with ledger := sealer.ledger.push task, tasks } }
      | [] =>
        match intake.next with
        | some (letter, intake) =>
          let (sealer, reply) := sealer.serve w.now letter.message
          some ({ w with engine := .sealer sealer, intake := some intake }.deliver
            letter.sender reply)
        | none =>
          if sealer.cleanupDue then
            let ledger := sealer.ledger.cleanup sealer.settings w.now
            some ({ w with engine := .sealer { sealer with ledger, cleanupDue := false } }.setTimer
              (w.now + sealer.settings.cleanupInterval) .worker)
          else none
  | _, _ => none

/-- The next thing that one call does. -/
def callMove (w : World) (index : Nat) (call : Call) : Option World :=
  match call.stage with
  | .waiting message =>
    match w.intake with
    | none => some (w.finish index (call.errand.answer .lost))
    | some intake =>
      if intake.signalled || !intake.attended then
        some (w.finish index (call.errand.answer .lost))
      else if intake.hasRoom message.kind 0 then
        some ({ w with intake := some (intake.put ⟨index, message⟩) }.setStage index .sent)
      else none
  | .replied reply => some (w.finish index (call.errand.answer reply))
  | .watching => if w.isSignalled then some (w.finish index .exited) else none
  | .producing chain true =>
    match call.errand, w.pushTask (chain.task Sha256.digest) with
    | .devnet interval, .ok w =>
      some ((w.setStage index (.producing (chain.advance Sha256.digest) false)).setTimer
        (w.now + interval) (.call index))
    | _, _ => some (w.finish index .sourceStopped)
  | _ => none

/-- What the first call does that can do anything. -/
def anyCallMove (w : World) : Option World :=
  w.calls.zipIdx.findSome? fun (call, index) => w.callMove index call

/-- The end of an engine that nobody holds any more. -/
def releaseMove (w : World) : Option World :=
  if w.isOrphaned && !w.isSignalled then some w.signal else none

/-- The next thing that happens: what a call does, else what the worker does, else the end of an
engine that nobody holds. -/
def move (w : World) : Option World :=
  w.anyCallMove.or (w.workerMove.or w.releaseMove)

/-- A bound on the number of moves that are left. -/
def potential (w : World) : Nat :=
  let calls := w.calls.foldr (fun call sum => call.potential + sum) 0
  let letters := (w.intake.map fun intake => intake.letters.length).getD 0
  let worker :=
    match w.engine with
    | .sealer sealer =>
      sealer.tasks.length + (if sealer.cleanupDue then 1 else 0)
        + (if sealer.loop = .running then 1 else 0)
    | _ => 0
  calls + letters + worker + (if w.isSignalled then 0 else 1)

/-- Lets at most `fuel` moves happen. -/
def run : (fuel : Nat) → World → World
  | 0, w => w
  | fuel + 1, w =>
    match w.move with
    | some w => run fuel w
    | none => w

/-- Lets moves happen until none is left. -/
def quiesce (w : World) : World := w.run w.potential

def begin (w : World) (index : Nat) : World :=
  match w.calls[index]? with
  | some { errand, stage := .made, .. } =>
    match errand with
    | .miner request form =>
      match w.intake, request.message? with
      | none, _ => w.finish index (form.tell (request.failure .notSupported))
      | some _, none => w.finish index (form.tell (.accepted false))
      | some _, some message => w.setStage index (.waiting message)
    | .readHashrate id => w.finish index (.response ⟨id, .ok (.hashrate w.engine.hashrate)⟩)
    | .known answer => w.finish index answer
    | .letter => w
    | .watchExit => w.setStage index .watching
    | .devnet interval =>
      if interval = 0 then w.finish index .panicked
      else w.setStage index (.producing Devnet.Chain.start true)
  | _ => w

def notBegun (w : World) : List Nat :=
  w.calls.zipIdx.filterMap fun (call, index) =>
    match call.stage with
    | .made => some index
    | _ => none

def beginCalls (w : World) : World := w.notBegun.foldl begin w

/-- Lets everything happen that happens at this instant. -/
def settle (w : World) : World := w.quiesce.beginCalls.quiesce

end World

end MinerGateway
