import MinerGateway.Proofs.Bystanders
import MinerGateway.Proofs.Recasting

/-!
The JSON-RPC methods are the requests of miners behind a parser of their parameters.

A call with a malformed parameter never comes to the gateway: its text alone decides the answer, and
all else goes on as without it (`answersAtOnce_of_failure`). Any other call of `eth_submitWork`,
`eth_submitHashrate` and `eth_getWork` does, for the rest of the session, exactly what the request
with the parsed parameters does when it is made directly, and has its answer in the form of a
response (`servesAs_of_invocation`). `rpc_methods` puts this together, for every state of every
engine.

Correspondence (interface ↔ definition):
  the malformed parameters, in the order of reading ↔ `solutionFaults`, `rateFaults`
  refused for one of them, and nothing else touched ↔ `Refuses`
  served as the request made directly               ↔ `ServesAs`
  the form of the answer under the call's id        ↔ `Answer.respond`

What is assumed: nothing. Where nobody holds the engine any more there is nobody to take a call, and
a request made directly is refused in the same way. What the server does with bodies and batches
lies in front of this.
-/

namespace MinerGateway

/-! ## Parameters -/

namespace Rpc

/-- What is wrong with the text of a parameter of this name: nothing or one thing. -/
def faults {α : Type} (name : String) : Except HexError α → List (String × HexError)
  | .ok _ => []
  | .error cause => [(name, cause)]

/-- The malformed parameters of a solution, in the order in which they are read. -/
def solutionFaults (nonce hash digest : String) : List (String × HexError) :=
  faults "nonce" (Nonce.parse nonce)
    ++ (faults "hash" (Hash.parse hash) ++ faults "digest" (Hash.parse digest))

def rateFaults (rate id : String) : List (String × HexError) :=
  faults "rate" (Hex.decodeQuantity rate) ++ faults "id" (Hash.parse id)

variable {nonce hash digest rate id name : String} {cause : HexError}

/-- What is read after a parameter counts only if nothing is wrong with it. -/
theorem bind_eq_error {α β : Type} {read : Except HexError α} {next : α → Except Failure β}
    {own : String} {later : List (String × HexError)}
    (first : (faults own read ++ later).head? = some (name, cause))
    (rest : ∀ a, later.head? = some (name, cause) → next a = .error (.invalidParam name cause)) :
    read.mapError (.invalidParam own) >>= next = .error (.invalidParam name cause) := by
  cases read with
  | ok a => exact rest a first
  | error found =>
    obtain ⟨rfl, rfl⟩ := Prod.mk.inj (Option.some.inj first)
    rfl

theorem bind_eq_error_last {α β : Type} {read : Except HexError α} {next : α → Except Failure β}
    {own : String} (first : (faults own read).head? = some (name, cause)) :
    read.mapError (.invalidParam own) >>= next = .error (.invalidParam name cause) := by
  refine bind_eq_error ((List.append_nil (faults own read)).symm ▸ first) fun _ none => ?_
  cases none

theorem submitWork_eq_error (extraNonce : Option String)
    (first : (solutionFaults nonce hash digest).head? = some (name, cause)) :
    submitWork nonce hash digest extraNonce = .error (.invalidParam name cause) := by
  exact bind_eq_error first fun _ first => bind_eq_error first fun _ first =>
    bind_eq_error_last first

theorem submitHashrate_eq_error (first : (rateFaults rate id).head? = some (name, cause)) :
    submitHashrate rate id = .error (.invalidParam name cause) := by
  exact bind_eq_error first fun _ first => bind_eq_error_last first

theorem submitWork_eq_ok (extraNonce : Option String) {n : Nonce} {h d : Hash}
    (hn : Nonce.parse nonce = .ok n) (hh : Hash.parse hash = .ok h)
    (hd : Hash.parse digest = .ok d) :
    submitWork nonce hash digest extraNonce = .ok (.submitWork n h d extraNonce) := by
  simp only [submitWork, parseNonce, parseHash, hn, hh, hd]
  rfl

theorem submitHashrate_eq_ok {r : UInt64} {i : Hash} (hr : Hex.decodeQuantity rate = .ok r)
    (hi : Hash.parse id = .ok i) : submitHashrate rate id = .ok (.submitHashrate r i) := by
  simp only [submitHashrate, parseQuantity, parseHash, hr, hi]
  rfl

/-- Any texts can be given in an array, in this order; the extra nonce may be left out. -/
theorem submitWorkTexts?_array (nonce hash digest : String) (extraNonce : Option String) :
    submitWorkTexts? (some (.array (.string nonce :: .string hash :: .string digest
      :: extraNonce.toList.map fun text => .string text)))
        = some (nonce, hash, digest, extraNonce) := by
  cases extraNonce <;> rfl

theorem submitHashrateTexts?_array (rate id : String) :
    submitHashrateTexts? (some (.array [.string rate, .string id])) = some (rate, id) := rfl

end Rpc

/-! ## The form of a response -/

/-- What a miner would be told directly, as a response under an id. -/
def Answer.respond (id : Rpc.Id) : Answer → Answer
  | .outcome told => .response ⟨id, Rpc.resultOf told⟩
  | answer => answer

/-- A request made directly, as a JSON-RPC call under an id. -/
def Errand.respond (id : Rpc.Id) : Errand → Errand
  | .miner request .direct => .miner request (.rpc id)
  | .known answer => .known (answer.respond id)
  | errand => errand

/-- Requests made directly and JSON-RPC calls differ in nothing but the form of their answers. -/
def Recast.respond (id : Rpc.Id) : Recast where
  errand := Errand.respond id
  answer := Answer.respond id
  first connected rate e := by
    cases e with
    | miner request form =>
      cases form <;> simp only [Errand.respond, Errand.first] <;> split <;> rfl
    | devnet interval => simp only [Errand.respond, Errand.first]; split <;> rfl
    | _ => rfl
  told e reply := by
    cases e with
    | miner request form => cases form <;> rfl
    | _ => rfl
  holds e := by
    cases e with
    | miner request form => cases form <;> rfl
    | _ => rfl
  source e interval := by
    cases e with
    | miner request form => cases form <;> simp [Errand.respond]
    | _ => simp [Errand.respond]
  exited := rfl
  stopped := rfl
  aborted := rfl

namespace World

/-- The call is answered as soon as the gateway settles, and leaves everything else as it would be:
channels, engine and results of the engine, and all other calls. -/
structure AnswersAtOnce (w : World) (call : Rpc.Call) (answer : Answer) : Prop where
  made : w.perform (.rpc (some call))
    = (.ok (.call w.calls.length), w.beside { errand := .ofRpc (some call) })
  settled : (w.perform (.rpc (some call))).2.settle
    = w.settle.beside { errand := .ofRpc (some call), stage := .finished answer }
  told : (w.step false (.rpc (some call))).1.done
      = w.settle.unreported ++ [(w.calls.length, answer)]

/-- Whatever is done at the gateway from then on, the call has the effects of the request made
directly, and its answer in the form of a response. -/
structure ServesAs (w : World) (call : Rpc.Call) (request : Request) : Prop where
  told : ∀ hold rest, w.play ((hold, .rpc (some call)) :: rest)
    = (w.play ((hold, .request request) :: rest)).map
        (Report.recast (.respond call.id) w.calls.length)
  left : ∀ hold rest, w.after ((hold, .rpc (some call)) :: rest)
    = (w.after ((hold, .request request) :: rest)).recast (.respond call.id) w.calls.length

/-- The call is refused because of the parameter of this name, and leaves everything else as it
would be. -/
def Refuses (w : World) (call : Rpc.Call) (name : String) (cause : HexError) : Prop :=
  ∃ failure : Rpc.Failure, failure.code = -32602 ∧
    failure.message = "invalid " ++ name ++ ": " ++ cause.message ∧
    w.AnswersAtOnce call (.response ⟨call.id, .error failure⟩)

variable {w : World} {call : Rpc.Call}

theorem modify_last {α : Type} (f : α → α) (l : List α) (a : α) :
    (l ++ [a]).modify l.length f = l ++ [f a] := by
  induction l with
  | nil => rfl
  | cons first rest ih => exact congrArg (first :: ·) ih

theorem unreported_beside (w : World) (errand : Errand) (answer : Answer) :
    (w.beside { errand, stage := .finished answer }).unreported
      = w.unreported ++ [(w.calls.length, answer)] := by
  simp only [unreported, beside, withCalls, List.zipIdx_append,
    List.filterMap_append, List.zipIdx_singleton, Nat.zero_add]
  rfl

/-- A call that is made by an action and has its answer as soon as it begins is all that the action
adds. -/
theorem answered_beside (attached : w.attached = true) {action : Action}
    {errand : Errand} {answer : Answer}
    (made : w.perform action = (.ok (.call w.calls.length), w.beside { errand }))
    (first : ∀ connected, errand.first connected w.quiesce.engine.hashrate = .finished answer) :
    (w.perform action).2.settle = w.settle.beside { errand, stage := .finished answer } ∧
      (w.step false action).1.done = w.settle.unreported ++ [(w.calls.length, answer)] := by
  have settled : (w.perform action).2.settle
      = w.settle.beside { errand, stage := .finished answer } := by
    rw [made]
    exact settle_beside attached first
  refine ⟨settled, ?_⟩
  have done : (w.step false action).1.done = (w.perform action).2.settle.unreported := rfl
  rw [done, settled, unreported_beside, length_settle]

theorem perform_rpc (call : Rpc.Call) (attached : w.attached = true) :
    w.perform (.rpc (some call))
      = (.ok (.call w.calls.length), w.beside { errand := .ofRpc (some call) }) := by
  simp only [perform, World.call, attached, if_true, makeCall, beside, withCalls]

/-- **A call whose answer does not depend on the worker changes nothing.** -/
theorem answersAtOnce (attached : w.attached = true) {answer : Answer}
    (first : ∀ connected, (Errand.ofRpc (some call)).first connected w.quiesce.engine.hashrate
      = .finished answer) : w.AnswersAtOnce call answer := by
  have made := perform_rpc call attached
  obtain ⟨settled, told⟩ := answered_beside attached made first
  exact ⟨made, settled, told⟩

theorem answersAtOnce_of_failure (attached : w.attached = true) {failure : Rpc.Failure}
    (refused : call.invocation = .error failure) :
    w.AnswersAtOnce call (.response ⟨call.id, .error failure⟩) := by
  apply answersAtOnce attached
  intro connected
  simp only [Errand.ofRpc, refused, Errand.first]

/-- **A call that is a request does what the request does.** -/
theorem servesAs_of_invocation (attached : w.attached = true) {request : Request}
    (invokes : call.invocation = .ok (.request request)) : w.ServesAs call request := by
  have direct : w.perform (.request request)
      = (.ok (.call w.calls.length), w.beside { errand := .miner request .direct }) := by
    simp only [perform, World.call, attached, if_true, makeCall, beside, withCalls]
  have worded : (w.beside { errand := .miner request .direct }).recast
      (.respond call.id) w.calls.length
      = w.beside { errand := .ofRpc (some call) } := by
    simp only [World.recast, beside, withCalls, Errand.ofRpc, invokes, modify_last]
    rfl
  have made : w.perform (.rpc (some call)) = ((w.perform (.request request)).1,
      (w.perform (.request request)).2.recast (.respond call.id) w.calls.length) := by
    rw [perform_rpc call attached, direct, worded]
  have inside : ∀ hold, w.calls.length < (w.step hold (.request request)).2.calls.length := by
    have come : (w.perform (.request request)).2.calls.length = w.calls.length + 1 := by
      rw [direct]
      exact List.length_append
    rintro (_ | _)
    · have settled := length_settle (w.perform (.request request)).2
      have same : (w.step false (.request request)).2.calls.length
          = (w.perform (.request request)).2.settle.calls.length := List.length_map ..
      omega
    · exact Nat.lt_of_lt_of_eq (Nat.lt_succ_self _) come.symm
  have first := step_of_performed (.respond call.id) w.calls.length made
  have later := fun hold => play_recast (.respond call.id) w.calls.length (inside hold)
  constructor
  · intro hold rest
    simp only [play, first, List.map_cons, (later hold rest).1]
  · intro hold rest
    simp only [after, first, (later hold rest).2]

/-! ## The methods -/

theorem refuses_of_invocation (attached : w.attached = true) {name : String} {cause : HexError}
    (refused : call.invocation = .error (.invalidParam name cause)) : w.Refuses call name cause :=
  ⟨.invalidParam name cause, rfl, rfl, answersAtOnce_of_failure attached refused⟩

theorem invocation_submitWork (method : call.method = "eth_submitWork") {nonce hash digest : String}
    {extraNonce : Option String}
    (texts : Rpc.submitWorkTexts? call.params = some (nonce, hash, digest, extraNonce)) :
    call.invocation = (Rpc.submitWork nonce hash digest extraNonce).map .request := by
  simp only [Rpc.Call.invocation, method, texts]

theorem invocation_submitHashrate (method : call.method = "eth_submitHashrate") {rate id : String}
    (texts : Rpc.submitHashrateTexts? call.params = some (rate, id)) :
    call.invocation = (Rpc.submitHashrate rate id).map .request := by
  simp only [Rpc.Call.invocation, method, texts]

theorem first_of_message? {request : Request} (silent : request.message? = none) (form : Form)
    (connected : Bool) (rate : UInt64) :
    (Errand.miner request form).first connected rate = .finished (form.tell (.accepted false)) := by
  cases connected with
  | true => simp only [Errand.first, silent]
  | false => simp only [Errand.first, Request.failure_of_message? silent]

theorem first_of_malformed_extraNonce {text : String} {cause : HexError}
    (malformed : Hex.decode text = .error cause) (nonce : Nonce) (hash digest : Hash) (id : Rpc.Id)
    (connected : Bool) (rate : UInt64) :
    (Errand.miner (.submitWork nonce hash digest (some text)) (.rpc id)).first connected rate
      = .finished (.response ⟨id, .ok (.accepted false)⟩) := by
  have none : (Request.submitWork nonce hash digest (some text)).message? = none := by
    simp only [Request.message?, Request.decodeExtraNonce, malformed]
    rfl
  exact first_of_message? none (.rpc id) connected rate

/-- **The methods are the requests of miners behind a parser**, whatever the engine is and in
whatever state. If texts of a solution or of a hash rate are malformed, the call is refused for the
first of them and leaves everything as it would be. Else it does what the request with the parsed
values does, from then on, and has the answer of the request in the form of a response. A solution
with a malformed extra nonce is told that it is not accepted; whether it was taken is answered by
that truth value, a package by its eleven texts in order, an error of the engine by its message. The
hash rate is the one that can be read at the gateway. Nobody can call a gateway whose engine was let
go. -/
theorem rpc_methods (w : World) (call : Rpc.Call) :
    (w.attached = false → w.perform (.rpc (some call)) = (.error .gone, w) ∧
      ∀ request, w.perform (.request request) = (.error .gone, w)) ∧
    (w.attached = true →
      (call.method = "eth_submitWork" → ∀ nonce hash digest extraNonce,
        Rpc.submitWorkTexts? call.params = some (nonce, hash, digest, extraNonce) →
        (∀ name cause, (Rpc.solutionFaults nonce hash digest).head? = some (name, cause) →
          w.Refuses call name cause) ∧
        (∀ n h d, Nonce.parse nonce = .ok n → Hash.parse hash = .ok h → Hash.parse digest = .ok d →
          w.ServesAs call (.submitWork n h d extraNonce) ∧
          (∀ yes, Answer.respond call.id (.outcome (.accepted yes))
            = .response ⟨call.id, .ok (.accepted yes)⟩) ∧
          ∀ text cause, extraNonce = some text → Hex.decode text = .error cause →
            w.AnswersAtOnce call (.response ⟨call.id, .ok (.accepted false)⟩))) ∧
      (call.method = "eth_submitHashrate" → ∀ rate id,
        Rpc.submitHashrateTexts? call.params = some (rate, id) →
        (∀ name cause, (Rpc.rateFaults rate id).head? = some (name, cause) →
          w.Refuses call name cause) ∧
        (∀ r i, Hex.decodeQuantity rate = .ok r → Hash.parse id = .ok i →
          w.ServesAs call (.submitHashrate r i) ∧
          ∀ yes, Answer.respond call.id (.outcome (.accepted yes))
            = .response ⟨call.id, .ok (.accepted yes)⟩)) ∧
      (call.method = "eth_getWork" → w.ServesAs call .getWork ∧
        (∀ package, ∃ result, Answer.respond call.id (.outcome (.work (.ok package)))
            = .response ⟨call.id, .ok result⟩ ∧
          package.fields.length = 11 ∧ result.write
            = String.ofList ('[' :: Json.joinItems (package.fields.map Json.writeString)
              ++ [']'])) ∧
        (∀ error, ∃ failure, Answer.respond call.id (.outcome (.work (.error error)))
            = .response ⟨call.id, .error failure⟩ ∧
          failure.code = -32000 ∧ failure.message = error.message)) ∧
      (call.method = "eth_hashrate" → ∃ rate,
        w.quiesce.perform .readHashrate = (.ok (.hashrate rate), w.quiesce) ∧
        w.AnswersAtOnce call (.response ⟨call.id, .ok (.hashrate rate)⟩))) := by
  refine ⟨fun gone => by simp [perform, World.call, gone], fun attached => ?_⟩
  refine ⟨fun method => ?_, fun method => ?_, fun method => ?_, fun method => ?_⟩
  · intro nonce hash digest extraNonce texts
    have invocation := invocation_submitWork method texts
    constructor
    · intro name cause first
      exact refuses_of_invocation attached
        (by rw [invocation, Rpc.submitWork_eq_error extraNonce first]; rfl)
    · intro n h d hn hh hd
      have invokes : call.invocation = .ok (.request (.submitWork n h d extraNonce)) := by
        rw [invocation, Rpc.submitWork_eq_ok extraNonce hn hh hd]
        rfl
      refine ⟨servesAs_of_invocation attached invokes, fun _ => rfl, ?_⟩
      rintro text cause rfl malformed
      apply answersAtOnce attached
      intro connected
      simp only [Errand.ofRpc, invokes]
      exact first_of_malformed_extraNonce malformed n h d call.id connected _
  · intro rate id texts
    have invocation := invocation_submitHashrate method texts
    constructor
    · intro name cause first
      exact refuses_of_invocation attached
        (by rw [invocation, Rpc.submitHashrate_eq_error first]; rfl)
    · intro r i hr hi
      have invokes : call.invocation = .ok (.request (.submitHashrate r i)) := by
        rw [invocation, Rpc.submitHashrate_eq_ok hr hi]
        rfl
      exact ⟨servesAs_of_invocation attached invokes, fun _ => rfl⟩
  · have invokes : call.invocation = .ok (.request .getWork) := by
      simp only [Rpc.Call.invocation, method]
    exact ⟨servesAs_of_invocation attached invokes,
      fun package => ⟨.package package, rfl, package.length_fields, rfl⟩,
      fun error => ⟨.engine error, rfl, rfl, rfl⟩⟩
  · have invokes : call.invocation = .ok .hashrate := by simp only [Rpc.Call.invocation, method]
    have held : w.quiesce.attached = true := (attached_run w.potential w).trans attached
    refine ⟨w.quiesce.engine.hashrate, by simp only [perform, held, if_true], ?_⟩
    apply answersAtOnce attached
    intro connected
    simp only [Errand.ofRpc, invokes, Errand.first]

/-- A solution with a short hash and a digest that is no hexadecimal text at all. -/
def garbled : Rpc.Call where
  id := .number 7
  method := "eth_submitWork"
  params := some (.array [.string "0x0000000000000001", .string "0x1234", .string "digest"])

def boast : Rpc.Call where
  id := .string "boast"
  method := "eth_submitHashrate"
  params := some (.array [.string "0x1f4", .string Hash.zero.text])

/-- The first is refused for its hash, at an engine whose loop has ended. The other is served by
hand. -/
theorem rpc_methods_garbled :
    (World.started {} .acceptAll).signal.settle.Refuses garbled "hash" (.wrongLength 32 2) ∧
      (World.scripted 1).ServesAs boast (.submitHashrate 500 Hash.zero) := by
  have ended := (rpc_methods (World.started {} .acceptAll).signal.settle garbled).2
      (by decide +kernel)
  have scripted := (rpc_methods (World.scripted 1) boast).2 rfl
  constructor
  · refine (ended.1 rfl _ _ _ _ (Rpc.submitWorkTexts?_array _ _ _ none)).1
      "hash" (.wrongLength 32 2) ?_
    decide +kernel
  · refine ((scripted.2.1 rfl _ _ (Rpc.submitHashrateTexts?_array _ _)).2 500 Hash.zero ?_ ?_).1
    · decide +kernel
    · decide +kernel

end World

end MinerGateway
