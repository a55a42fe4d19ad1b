import MinerGateway.Boundary.Request
import MinerGateway.Devnet.Chain
import MinerGateway.Rpc.Response

/-!
Calls: what is under way at the gateway.

A call is made, begins, and finishes with one answer. In between, the call of a miner waits at two
places: first for room in an intake channel, then, its letter handed over, for the reply.

Correspondence (gateway ↔ definition):
  a miner's request, made directly or by JSON-RPC  ↔ `Errand.miner`, `Form`
  a source of synthetic work, started on its own   ↔ `Errand.devnet`
  waiting for room, with an eye on the exit signal ↔ `Stage.waiting`
  waiting for the reply, whatever else happens     ↔ `Stage.sent`
  a caller that is cancelled while it waits        ↔ `Call.abort`
-/

namespace MinerGateway

/-- How a miner's call came in, and so how it is answered. -/
inductive Form where
  | direct
  | rpc (id : Rpc.Id)
  deriving DecidableEq, Repr

/-- What a call finishes with. -/
inductive Answer where
  | outcome (outcome : Outcome)
  /-- The reply to a letter that was put on a channel directly. -/
  | reply (reply : Reply)
  | response (response : Rpc.Response)
  /-- The text was no JSON-RPC call. -/
  | badRequest
  /-- The exit signal was seen. -/
  | exited
  /-- The source of synthetic work found the engine stopped. -/
  | sourceStopped
  | aborted
  | panicked

/-- Answers a miner in the form of the call. -/
def Form.tell : Form → Outcome → Answer
  | .direct, outcome => .outcome outcome
  | .rpc id, outcome => .response ⟨id, Rpc.resultOf outcome⟩

/-- What a call is about. -/
inductive Errand where
  | miner (request : Request) (form : Form)
  | readHashrate (id : Rpc.Id)
  /-- Is answered from its text alone. -/
  | known (answer : Answer)
  /-- Waits for the reply to a letter that was put on a channel directly. -/
  | letter
  | watchExit
  /-- Pushes synthetic work at once and then every `interval`. -/
  | devnet (interval : Nat)

/-- The call that a JSON-RPC text makes; nothing if the text is no call. -/
def Errand.ofRpc : Option Rpc.Call → Errand
  | none => .known .badRequest
  | some call =>
    match call.invocation with
    | .error failure => .known (.response ⟨call.id, .error failure⟩)
    | .ok .hashrate => .readHashrate call.id
    | .ok (.request request) => .miner request (.rpc call.id)

/-- The answer that a reply makes. -/
def Errand.answer : Errand → Reply → Answer
  | .miner request form, reply => form.tell (request.outcome reply)
  | _, reply => .reply reply

/-- Whether an unfinished call of this kind keeps the engine alive. -/
def Errand.holdsEngine : Errand → Bool
  | .miner .. | .readHashrate _ | .known _ | .devnet _ => true
  | .letter | .watchExit => false

/-- How far a call has come. -/
inductive Stage where
  | made
  /-- Waits for room for its message. -/
  | waiting (message : Message)
  /-- Its letter was handed over and not answered so far. -/
  | sent
  /-- The reply is there; the caller has not seen it yet. -/
  | replied (reply : Reply)
  | watching
  /-- Produces synthetic work; `due` when the next task is to be pushed. -/
  | producing (chain : Devnet.Chain) (due : Bool)
  | finished (answer : Answer)

structure Call where
  errand : Errand
  stage : Stage := .made
  reported : Bool := false

namespace Call

/-- The answer, once there is one. -/
def answer? (call : Call) : Option Answer :=
  match call.stage with
  | .finished answer => some answer
  | _ => none

def waitsFor (call : Call) (kind : Kind) : Bool :=
  match call.stage with
  | .waiting message => message.kind == kind
  | _ => false

def holdsEngine (call : Call) : Bool :=
  call.errand.holdsEngine && call.answer?.isNone

/-- A reply comes in. Only a call that waits for one takes it. -/
def receive (reply : Reply) (call : Call) : Call :=
  match call.stage with
  | .sent => { call with stage := .replied reply }
  | _ => call

/-- The next piece of synthetic work is due. -/
def fall (call : Call) : Call :=
  match call.stage with
  | .producing chain _ => { call with stage := .producing chain true }
  | _ => call

/-- The caller goes away, unless it has its answer already. -/
def abort (call : Call) : Call :=
  match call.stage with
  | .finished _ => call
  | _ => { call with stage := .finished .aborted }

/-- How many moves the call can still take part in, letters counted apart. -/
def potential (call : Call) : Nat :=
  match call.stage with
  | .made => 5
  | .waiting _ => 4
  | .sent => 2
  | .replied _ => 1
  | .watching => 1
  | .producing _ due => if due then 2 else 0
  | .finished _ => 0

end Call

end MinerGateway
