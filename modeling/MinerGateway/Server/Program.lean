import MinerGateway.CommandLine
import MinerGateway.Server.Address
import MinerGateway.Server.Http

/-!
A run of the whole program: from its arguments to its exit code.

The gateway is started as the arguments say, answers the requests that clients post, logs every
accepted solution and ends when it is interrupted. It may end before that: on arguments that are
wrong or ask for a text, or when its address cannot be bound.

Correspondence (program ↔ definition):
  the order of starting, serving and stopping ↔ `Network.run`
  the consumer of accepted solutions          ↔ `answerAndLog`, `drainResults`
  what a failed start says on the way out     ↔ `StartError.report`

Left out is the text of the log; of an accepted solution only the solution itself is kept.
-/

namespace MinerGateway

/-- What a run leaves behind. -/
structure Run where
  exitCode : Nat
  replies : List HttpReply := []
  /-- The accepted solutions, in the order in which they were logged. -/
  logged : List SealedWork := []
  /-- The error text of a failed start. -/
  errorText : Option String := none

/-- Why there are no replies to speak of. -/
inductive ServeError where
  | start (error : StartError)
  /-- No client got through. -/
  | unreachable (reason : String)

namespace World

/-- The gateway that a configuration describes, with its source of synthetic work. -/
def ofConfig (config : GatewayConfig) : World :=
  if config.remoteSealing then
    let w := (World.started config.engine Verifier.acceptAll).settle
    match config.devnetInterval with
    | some interval => (w.makeCall (.devnet interval)).2.settle
    | none => w
  else World.localOnly

def drainResults (w : World) : List SealedWork × World :=
  match w.engine with
  | .sealer sealer =>
    (sealer.outbox.queue,
      { w with engine := .sealer { sealer with outbox := { sealer.outbox with queue := [] } } })
  | _ => ([], w)

/-- Answers HTTP requests, while a consumer receives every solution as soon as it is accepted. -/
def answerAndLog (w : World) : List String → List HttpReply × List SealedWork
  | [] => ([], [])
  | body :: rest =>
    let (reply, w) := w.answerHttp body
    let (logged, w) := w.drainResults
    let (replies, later) := w.answerAndLog rest
    (reply :: replies, logged ++ later)

end World

/-- Binds an address and answers the requests that clients post there. -/
def Network.serve (network : Network) (address : String) (w : World) (bodies : List String) :
    Except ServeError (List HttpReply) :=
  match network.bind address with
  | .error fault => .error (.start (.ofBindFault address fault))
  | .ok _ =>
    match bodies, network.connectFault? with
    | [], _ => .ok []
    | _, some reason => .error (.unreachable reason)
    | bodies, none => .ok (w.settle.answerHttpAll bodies).1

/-- The text of a failed start, as it is written on the way out. -/
def StartError.report (e : StartError) : String :=
  "Error: failed to start RPC server\n\nCaused by:\n    " ++ e.message ++ "\n"

/-- Runs the program. The requests are posted once the gateway is bound, and then it is
interrupted. -/
def Network.run (network : Network) (arguments bodies : List String) : Except ServeError Run :=
  match CommandLine.parse arguments with
  | .error stop => .ok { exitCode := if stop.isRequest then 0 else 2 }
  | .ok config =>
    match network.bind config.address with
    | .error fault =>
      .ok { exitCode := 1, errorText := some (StartError.ofBindFault config.address fault).report }
    | .ok _ =>
      match bodies, network.connectFault? with
      | [], _ => .ok { exitCode := 0 }
      | _, some reason => .error (.unreachable reason)
      | bodies, none =>
        let (replies, logged) := (World.ofConfig config).answerAndLog bodies
        .ok { exitCode := 0, replies, logged }

end MinerGateway
