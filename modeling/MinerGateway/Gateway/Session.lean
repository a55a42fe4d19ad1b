import MinerGateway.Gateway.Clock

/-!
A session at the gateway: the actions that can be taken on it from outside, one after another, and
what is seen after each.

An action takes effect at once; a call that it makes begins when the gateway next settles. That is
right after the action, unless the action is held back, in which case the next one still acts at the
same instant and ahead of everything that follows from this one. What an action needs may be gone by
then, which is an error of the action and leaves the gateway as it is; what is gone can be dropped
again.

Correspondence (owner's side of the gateway ↔ definition):
  pushing a task                                ↔ `Action.push`, `pushTask`
  closing, shutting down, letting go            ↔ `close`, `shutdown`, `Action.dropEngine`
  receiving an accepted solution                ↔ `receiveResult`
  playing the worker: taking a letter, ruling   ↔ `take`, `respond`, `Ruling`
  everything that can be seen after an action   ↔ `Report`
  a whole session, what is due at its start too ↔ `World.session`
-/

namespace MinerGateway

/-- How a letter that was taken by hand is answered. -/
inductive Ruling where
  | refuse (error : SealingError)
  /-- Grants what was asked for. Only a fetch needs the package. -/
  | grant (package : Option WorkPackage)

/-- The reply that a ruling makes; nothing if a fetch is granted without a package. -/
def Ruling.reply? : Ruling → Message → Option Reply
  | .refuse error, message => some (message.refuse error)
  | .grant package, .fetch => package.map fun package => .work (.ok package)
  | .grant _, .submission _ => some (.verdict (.ok ()))
  | .grant _, .report _ => some .recorded

/-- What can be done to a gateway. -/
inductive Action where
  | request (request : Request)
  /-- A miner calls the gateway by JSON-RPC; nothing if the text is no call. -/
  | rpc (call : Option Rpc.Call)
  | readHashrate
  /-- Puts a message on its channel without waiting for room. -/
  | send (message : Message)
  | watchExit
  | abort (call : Nat)
  | push (task : Task)
  | startDevnet (interval : Nat)
  | close
  | shutdown
  | summarize
  | dropEngine
  | receiveResult
  | dropResults
  | setHashrate (rate : UInt64)
  /-- Takes a letter by hand. -/
  | take (kind : Kind)
  | respond (held : Nat) (ruling : Ruling)
  | dropHeld (held : Nat)
  | dropInbox
  | readSignal
  | sleep (duration : Nat)

/-- A sealer as a line of text shows it. -/
structure Summary where
  remote : Bool
  hashrate : UInt64
  running : Bool
  deriving DecidableEq, Repr

def Summary.text (s : Summary) : String :=
  "Sealer \x7b remote: " ++ toString s.remote ++ ", hashrate: " ++ toString s.hashrate
    ++ ", running: " ++ toString s.running ++ " \x7d"

/-- What an action gives at once. -/
inductive Effect where
  | nothing
  | call (index : Nat)
  | hashrate (rate : UInt64)
  | summary (summary : Summary)
  | result (work : SealedWork)
  | letter (held : Nat) (message : Message)
  | signal (given : Bool)

/-- Why an action cannot be taken. -/
inductive Refusal where
  /-- What it acts on is not there, or not any more. -/
  | gone
  | full
  | closed
  | empty
  | disconnected
  | engine (error : SealingError)
  /-- No such call was made, or its answer was reported already. -/
  | noCall
  | noLetter
  /-- A fetch was granted without a package; the letter is dropped. -/
  | noPackage
  deriving DecidableEq, Repr

namespace World

/-- The sealer, as long as it is held from outside. -/
def sealerSummary? (w : World) : Option Summary :=
  if !w.attached then none
  else w.engine.isRunning?.map fun running => ⟨w.intake.isSome, w.engine.hashrate, running⟩

/-- Makes a call for someone who holds the engine. -/
def call (w : World) (errand : Errand) : Except Refusal Effect × World :=
  if w.attached then
    let (index, w) := w.makeCall errand
    (.ok (.call index), w)
  else (.error .gone, w)

/-- Puts a message on its channel, if it has room once all who wait are counted in. -/
def send (w : World) (message : Message) : Except Refusal Effect × World :=
  match w.intake with
  | none => (.error .gone, w)
  | some intake =>
    if !intake.attended then (.error .closed, w)
    else if intake.hasRoom message.kind (w.waitingFor message.kind) then
      let (index, w) := w.makeCall .letter
      (.ok (.call index),
        { w with intake := some (intake.put ⟨index, message⟩) }.setStage index .sent)
    else (.error .full, w)

/-- Aborts a call. A letter that it handed over stays where it is. -/
def abort (w : World) (index : Nat) : Except Refusal Effect × World :=
  match w.calls[index]? with
  | some { reported := false, .. } =>
    (.ok .nothing, { w with calls := w.calls.modify index Call.abort }.release)
  | _ => (.error .noCall, w)

/-- Gives the exit signal: by way of a sealer, or by way of the inbox played by hand. -/
def close (w : World) : Except Refusal Effect × World :=
  match w.engine, w.intake with
  | .scripted _, some intake =>
    if intake.attended then (.ok .nothing, w.signal) else (.error .gone, w)
  | _, _ => if w.sealerSummary?.isSome then (.ok .nothing, w.signal) else (.error .gone, w)

/-- Gives the exit signal and says whether to wait for the loop to end: only the first who asks
does. -/
def beginShutdown (w : World) : World × Bool :=
  match w.signal with
  | { engine := .sealer sealer, .. } =>
    ({ w.signal with engine := .sealer { sealer with joined := true } }, !sealer.joined)
  | w => (w, false)

/-- Gives the exit signal and waits for the loop to end. -/
def shutdown (w : World) : Except Refusal Effect × World :=
  if w.sealerSummary?.isSome then
    match w.beginShutdown with
    | (w, true) => (.ok .nothing, w.settle)
    | (w, false) => (.ok .nothing, w)
  else (.error .gone, w)

/-- Hands the oldest accepted solution to the consumer. -/
def receiveResult (w : World) : Except Refusal Effect × World :=
  match w.engine with
  | .sealer sealer =>
    if !sealer.outbox.attended then (.error .gone, w)
    else match sealer.outbox.receive with
      | some (work, outbox) =>
        (.ok (.result work), { w with engine := .sealer { sealer with outbox } })
      | none => (.error (if sealer.loop = .running then .empty else .disconnected), w)
  | _ => (.error .gone, w)

/-- The consumer of accepted solutions goes away, if there is one. -/
def dropResults (w : World) : World :=
  match w.engine with
  | .sealer sealer => { w with engine := .sealer { sealer with outbox := sealer.outbox.abandon } }
  | _ => w

/-- The inbox and the state of a worker's part that is played by hand, as long as there is an
inbox. -/
def inbox? (w : World) : Option (Intake × Script) :=
  match w.engine, w.intake with
  | .scripted script, some intake => if intake.attended then some (intake, script) else none
  | _, _ => none

/-- Takes a letter by hand and keeps it. -/
def take (w : World) (kind : Kind) : Except Refusal Effect × World :=
  match w.inbox? with
  | none => (.error .gone, w)
  | some (intake, script) =>
    match intake.take kind with
    | none => (.error .empty, w)
    | some (letter, intake) =>
      (.ok (.letter script.held.length letter.message),
        { w with
          intake := some intake
          engine := .scripted { script with held := script.held ++ [some letter] } })

def letGo (w : World) (held : Nat) : Option (Letter × World) :=
  match w.engine with
  | .scripted script =>
    match script.held[held]? with
    | some (some letter) =>
      some (letter,
        { w with engine := .scripted { script with held := script.held.set held none } })
    | _ => none
  | _ => none

def respond (w : World) (held : Nat) (ruling : Ruling) : Except Refusal Effect × World :=
  match w.letGo held with
  | none => (.error .noLetter, w)
  | some (letter, w) =>
    match ruling.reply? letter.message with
    | some reply => (.ok .nothing, w.deliver letter.sender reply)
    | none => (.error .noPackage, w.deliver letter.sender .lost)

/-- The inbox of a worker's part that is played by hand goes away, if there is one, and the letters
in it. -/
def dropInbox (w : World) : World :=
  match w.inbox? with
  | some (intake, _) => { w with intake := some intake.abandon }.lose intake.letters
  | none => w

def perform (w : World) : Action → Except Refusal Effect × World
  | .request request => w.call (.miner request .direct)
  | .rpc call => w.call (.ofRpc call)
  | .readHashrate =>
    if w.attached then (.ok (.hashrate w.engine.hashrate), w) else (.error .gone, w)
  | .send message => w.send message
  | .watchExit =>
    if w.intake.isSome then
      let (index, w) := w.makeCall .watchExit
      (.ok (.call index), w)
    else (.error .gone, w)
  | .abort index => w.abort index
  | .push task =>
    if w.sealerSummary?.isSome then
      match w.pushTask task with
      | .ok w => (.ok .nothing, w)
      | .error error => (.error (.engine error), w)
    else (.error .gone, w)
  | .startDevnet interval =>
    if w.sealerSummary?.isSome then w.call (.devnet interval) else (.error .gone, w)
  | .close => w.close
  | .shutdown => w.shutdown
  | .summarize =>
    match w.sealerSummary? with
    | some summary => (.ok (.summary summary), w)
    | none => (.error .gone, w)
  | .dropEngine => (.ok .nothing, { w with attached := false }.release)
  | .receiveResult => w.receiveResult
  | .dropResults => (.ok .nothing, w.dropResults)
  | .setHashrate rate =>
    match w.engine, w.attached with
    | .scripted script, true =>
      (.ok .nothing, { w with engine := .scripted { script with hashrate := rate } })
    | _, _ => (.error .gone, w)
  | .take kind => w.take kind
  | .respond held ruling => w.respond held ruling
  | .dropHeld held =>
    match w.letGo held with
    | some (letter, w) => (.ok .nothing, w.deliver letter.sender .lost)
    | none => (.error .noLetter, w)
  | .dropInbox => (.ok .nothing, w.dropInbox)
  | .readSignal =>
    match w.inbox? with
    | some (intake, _) => (.ok (.signal intake.signalled), w)
    | none => (.error .gone, w)
  | .sleep duration => (.ok .nothing, w.sleep duration)

/-- The calls that have finished and whose answer was not reported so far. -/
def unreported (w : World) : List (Nat × Answer) :=
  w.calls.zipIdx.filterMap fun (call, index) =>
    if call.reported then none else call.answer?.map (index, ·)

def markReported (w : World) : World :=
  { w with calls := w.calls.map fun call => { call with reported := call.answer?.isSome } }

end World

/-- What is seen after an action. -/
structure Report where
  result : Except Refusal Effect
  /-- The calls that have finished since the last report. -/
  done : List (Nat × Answer)
  hashrate : Option UInt64
  running : Option Bool
  signalled : Option Bool

/-- Takes an action, lets the gateway settle unless it is held back, and reports. -/
def World.step (w : World) (hold : Bool) (action : Action) : Report × World :=
  let (result, w) := w.perform action
  let w := if hold then w else w.settle
  let report : Report :=
    { result
      done := if hold then [] else w.unreported
      hashrate := if w.attached then some w.engine.hashrate else none
      running := if w.attached then w.engine.isRunning? else none
      signalled := w.intake.map Intake.signalled }
  (report, if hold then w else w.markReported)

def World.play (w : World) : List (Bool × Action) → List Report
  | [] => []
  | (hold, action) :: rest =>
    let (report, w) := w.step hold action
    report :: w.play rest

/-- Opens a session: everything that is due at the start happens, then the actions are taken. -/
def World.session (w : World) (actions : List (Bool × Action)) : List Report :=
  w.settle.play actions

end MinerGateway
