import MinerGateway.Proofs.HexCase
import MinerGateway.Proofs.RpcMethods

/-!
Letter case never matters to miners.

A call that gives its texts in other letter case is refused alike or makes a request with the same
message (`Rpc.Call.SameButCase.denotesAlike`). The only text that goes further into the gateway is
that of an extra nonce, which nothing but the message of its call depends on: so a call may be taken
to have been made in lower case (`Recast.lowered`). Two gateways that are the same when taken so go
on alike (`step_alike`), and hence do two sessions whose calls differ in letter case alone
(`letter_case`).

Correspondence (texts ↔ definition):
  other case of some digits, or of the mark's second letter ↔ `Hex.SameButCase`
  calls, and sessions, that differ in no more than that     ↔ `Rpc.Call.SameButCase`, `SameButCase`
  the same state, and calls that have come equally far      ↔ `Agrees`

Nothing is assumed of the texts: they may be malformed, and are then refused with the same code and
the same message, the named character included.
-/

namespace MinerGateway

namespace Request

def lowered : Request → Request
  | .submitWork nonce hash digest extraNonce =>
    .submitWork nonce hash digest (extraNonce.map Hex.lowered)
  | request => request

theorem message?_lowered (request : Request) : request.lowered.message? = request.message? := by
  cases request with
  | submitWork nonce hash digest extraNonce =>
    have bytes : decodeExtraNonce (extraNonce.map Hex.lowered) = decodeExtraNonce extraNonce := by
      cases extraNonce with
      | none => rfl
      | some text => exact congrArg (Except.map some) (Hex.decode_lowered text)
    simp only [lowered, message?, bytes]
  | _ => rfl

theorem failure_lowered (error : SealingError) (request : Request) :
    request.lowered.failure error = request.failure error := by
  cases request <;> rfl

theorem outcome_lowered (request : Request) (reply : Reply) :
    request.lowered.outcome reply = request.outcome reply := by
  cases request with
  | submitWork =>
    cases reply with
    | verdict result => cases result <;> rfl
    | _ => rfl
  | _ => rfl

end Request

def Errand.lowered : Errand → Errand
  | .miner request form => .miner request.lowered form
  | errand => errand

/-- A request in lower case begins alike and is told the same. -/
def Recast.lowered : Recast where
  errand := Errand.lowered
  answer := id
  first connected rate e := by
    cases e with
    | miner request form =>
      simp only [Errand.lowered, Errand.first, Request.message?_lowered, Request.failure_lowered]
      split <;> rfl
    | devnet interval => simp only [Errand.lowered, Errand.first]; split <;> rfl
    | _ => rfl
  told e reply := by
    cases e with
    | miner request form => simp only [Errand.lowered, Errand.answer, Request.outcome_lowered, id]
    | _ => rfl
  holds e := by cases e <;> rfl
  source e interval := by cases e <;> simp [Errand.lowered]
  exited := rfl
  stopped := rfl
  aborted := rfl

/-! ## Calls -/

namespace Rpc

/-- Two calls of the same method under the same id whose texts differ in nothing but case. -/
inductive Call.SameButCase (call call' : Call) : Prop where
  | submitWork (id : call'.id = call.id) (method : call.method = "eth_submitWork")
    (method' : call'.method = "eth_submitWork")
    {nonce nonce' hash hash' digest digest' : String} {extraNonce extraNonce' : Option String}
    (texts : submitWorkTexts? call.params = some (nonce, hash, digest, extraNonce))
    (texts' : submitWorkTexts? call'.params = some (nonce', hash', digest', extraNonce'))
    (nonces : Hex.SameButCase nonce nonce') (hashes : Hex.SameButCase hash hash')
    (digests : Hex.SameButCase digest digest')
    (extraNonces : extraNonce.map Hex.lowered = extraNonce'.map Hex.lowered)
  | submitHashrate (id : call'.id = call.id) (method : call.method = "eth_submitHashrate")
    (method' : call'.method = "eth_submitHashrate") {rate rate' miner miner' : String}
    (texts : submitHashrateTexts? call.params = some (rate, miner))
    (texts' : submitHashrateTexts? call'.params = some (rate', miner'))
    (rates : Hex.SameButCase rate rate') (miners : Hex.SameButCase miner miner')

def Invocation.lowered : Invocation → Invocation
  | .hashrate => .hashrate
  | .request asked => .request asked.lowered

/-- The two calls are refused with the same failure, or make requests that write the same message.
-/
structure Call.DenotesAlike (call call' : Call) : Prop where
  refused : ∀ failure, call.invocation = .error failure ↔ call'.invocation = .error failure
  request : ∀ request, call.invocation = .ok (.request request) →
    ∃ request', call'.invocation = .ok (.request request') ∧ request'.message? = request.message?

theorem parse_congr {n : Nat} {text text' : String} (same : Hex.SameButCase text text') :
    FixedBytes.parse n text = FixedBytes.parse n text' := by
  rw [← FixedBytes.parse_lowered, same, FixedBytes.parse_lowered]

theorem decodeQuantity_congr {text text' : String} (same : Hex.SameButCase text text') :
    Hex.decodeQuantity text = Hex.decodeQuantity text' := by
  rw [← Hex.decodeQuantity_lowered, same, Hex.decodeQuantity_lowered]

theorem submitWork_lowered (nonce hash digest : String) (extraNonce : Option String) :
    ((submitWork nonce hash digest extraNonce).map Invocation.request).map Invocation.lowered
      = (submitWork nonce hash digest (extraNonce.map Hex.lowered)).map Invocation.request := by
  unfold submitWork
  cases parseNonce nonce with
  | error => rfl
  | ok =>
  cases parseHash "hash" hash with
  | error => rfl
  | ok =>
  cases parseHash "digest" digest <;> rfl

theorem submitWork_congr {nonce nonce' hash hash' digest digest' : String}
    (extraNonce : Option String)
    (nonces : Hex.SameButCase nonce nonce') (hashes : Hex.SameButCase hash hash')
    (digests : Hex.SameButCase digest digest') :
    submitWork nonce hash digest extraNonce = submitWork nonce' hash' digest' extraNonce := by
  simp only [submitWork, parseNonce, parseHash, Nonce.parse, Hash.parse, parse_congr nonces,
    parse_congr hashes, parse_congr digests]

theorem submitHashrate_congr {rate rate' id id' : String} (rates : Hex.SameButCase rate rate')
    (ids : Hex.SameButCase id id') : submitHashrate rate id = submitHashrate rate' id' := by
  simp only [submitHashrate, parseQuantity, parseHash, Hash.parse, decodeQuantity_congr rates,
    parse_congr ids]

/-- **The calls ask for the same**, but for the text of an extra nonce. -/
theorem Call.SameButCase.invocation {call call' : Call} (same : call.SameButCase call') :
    call.invocation.map Invocation.lowered = call'.invocation.map Invocation.lowered := by
  cases same with
  | submitWork id method method' texts texts' nonces hashes digests extraNonces =>
    rw [World.invocation_submitWork method texts, World.invocation_submitWork method' texts',
      submitWork_lowered, submitWork_lowered, submitWork_congr _ nonces hashes digests, extraNonces]
  | submitHashrate id method method' texts texts' rates miners =>
    rw [World.invocation_submitHashrate method texts,
      World.invocation_submitHashrate method' texts', submitHashrate_congr rates miners]

/-- **The calls are refused alike or make requests with the same message.** -/
theorem Call.SameButCase.denotesAlike {call call' : Call} (same : call.SameButCase call') :
    call.DenotesAlike call' := by
  have lowered := same.invocation
  constructor
  · intro failure
    cases h : call.invocation <;> cases h' : call'.invocation <;> simp_all [Except.map]
  · intro request asked
    rw [asked] at lowered
    cases asked' : call'.invocation with
    | error failure =>
      rw [asked'] at lowered
      cases lowered
    | ok invocation =>
      rw [asked'] at lowered
      have same : Invocation.request request.lowered = invocation.lowered := Except.ok.inj lowered
      cases invocation with
      | hashrate => cases same
      | request request' =>
        refine ⟨request', rfl, ?_⟩
        rw [← request'.message?_lowered, ← Invocation.request.inj same, request.message?_lowered]

end Rpc

/-- The calls are about the same, but for the text of an extra nonce. -/
theorem Errand.lowered_ofRpc {call call' : Rpc.Call} (same : call.SameButCase call') :
    (Errand.ofRpc (some call)).lowered = (Errand.ofRpc (some call')).lowered := by
  have id : call'.id = call.id := by cases same <;> assumption
  have invocation := same.invocation
  cases h : call.invocation with
  | error failure =>
    have h' := (same.denotesAlike.refused failure).mp h
    simp only [Errand.ofRpc, h, h', id]
  | ok asked =>
    cases h' : call'.invocation with
    | error failure => cases h.symm.trans ((same.denotesAlike.refused failure).mpr h')
    | ok asked' =>
      rw [h, h'] at invocation
      have lowered : asked.lowered = asked'.lowered := Except.ok.inj invocation
      cases asked <;> cases asked' <;>
        simp_all [Rpc.Invocation.lowered, Errand.ofRpc, Errand.lowered]

/-! ## Sessions -/

/-- Sessions in which the same actions are taken, but for the letter case of some calls. -/
inductive SameButCase : List (Bool × Action) → List (Bool × Action) → Prop where
  | nil : SameButCase [] []
  | step (hold : Bool) (action : Action) {rest rest' : List (Bool × Action)}
    (others : SameButCase rest rest') :
    SameButCase ((hold, action) :: rest) ((hold, action) :: rest')
  | call (hold : Bool) {call call' : Rpc.Call} (same : call.SameButCase call')
    {rest rest' : List (Bool × Action)} (others : SameButCase rest rest') :
    SameButCase ((hold, .rpc (some call)) :: rest) ((hold, .rpc (some call')) :: rest')

namespace World

/-- The two gateways are in the same state, and their calls have come equally far with equal
answers. -/
structure Agrees (w w' : World) : Prop where
  engine : w.engine = w'.engine
  intake : w.intake = w'.intake
  now : w.now = w'.now
  attached : w.attached = w'.attached
  timers : w.timers = w'.timers
  stages : w.calls.map (fun call => (call.stage, call.reported))
    = w'.calls.map fun call => (call.stage, call.reported)

/-- The two gateways are the same if one call is taken to have been made in lower case. -/
def Alike (i : Nat) (w w' : World) : Prop := w.recast .lowered i = w'.recast .lowered i

variable {w w' : World} {i : Nat}

theorem Agrees.refl (w : World) : w.Agrees w := ⟨rfl, rfl, rfl, rfl, rfl, rfl⟩

theorem Agrees.trans {u v : World} (h : u.Agrees v) (h' : v.Agrees w) : u.Agrees w :=
  ⟨h.engine.trans h'.engine, h.intake.trans h'.intake, h.now.trans h'.now,
    h.attached.trans h'.attached, h.timers.trans h'.timers, h.stages.trans h'.stages⟩

theorem Agrees.symm (h : w.Agrees w') : w'.Agrees w :=
  ⟨h.engine.symm, h.intake.symm, h.now.symm, h.attached.symm, h.timers.symm, h.stages.symm⟩

theorem reword_lowered (i j : Nat) (answer : Answer) :
    Recast.lowered.reword i j answer = answer := by
  simp only [Recast.reword, Recast.lowered, id, ite_self]

theorem report_recast_lowered (i : Nat) (report : Report) : report.recast .lowered i = report := by
  simp only [Report.recast, reword_lowered, List.map_id']

theorem unreported_recast_lowered (i : Nat) (w : World) :
    (w.recast .lowered i).unreported = w.unreported := by
  simp only [unreported_recast, reword_lowered, List.map_id']

theorem agrees_recast_lowered (i : Nat) (w : World) : (w.recast .lowered i).Agrees w := by
  refine ⟨rfl, rfl, rfl, rfl, rfl, map_modify_eq (fun call => ?_) w.calls i⟩
  obtain ⟨errand, stage, reported⟩ := call
  cases stage <;> rfl

theorem Alike.agrees (h : w.Alike i w') : w.Agrees w' := by
  have same : w.recast .lowered i = w'.recast .lowered i := h
  have agrees := agrees_recast_lowered i w
  rw [same] at agrees
  exact agrees.symm.trans (agrees_recast_lowered i w')

theorem Alike.settle (h : w.Alike i w') : w.settle.Alike i w'.settle := by
  rw [Alike, ← settle_recast, ← settle_recast, h]

theorem Alike.markReported (h : w.Alike i w') : w.markReported.Alike i w'.markReported := by
  rw [Alike, ← markReported_recast, ← markReported_recast, h]

theorem Alike.unreported (h : w.Alike i w') : w.unreported = w'.unreported := by
  rw [← unreported_recast_lowered i w, ← unreported_recast_lowered i w', h]

/-- Gateways that are alike go on alike. -/
theorem play_of_alike (h : w.Alike i w') (inside : i < w.calls.length)
    (inside' : i < w'.calls.length) (actions : List (Bool × Action)) :
    w.play actions = w'.play actions ∧ (w.after actions).Alike i (w'.after actions) := by
  obtain ⟨reports, state⟩ := play_recast .lowered i inside actions
  obtain ⟨reports', state'⟩ := play_recast .lowered i inside' actions
  have unworded : Report.recast Recast.lowered i = id := funext (report_recast_lowered i)
  rw [unworded, List.map_id] at reports reports'
  constructor
  · rw [← reports, ← reports', h]
  · rw [Alike, ← state, ← state', h]

theorem step_of_performed_alike {action action' : Action}
    (effect : (w.perform action).1 = (w.perform action').1)
    (alike : (w.perform action).2.Alike i (w.perform action').2) (hold : Bool) :
    (w.step hold action).1 = (w.step hold action').1 ∧
      (w.step hold action).2.Alike i (w.step hold action').2 := by
  cases hold with
  | true =>
    have same := alike.agrees
    rw [step_held, step_held]
    refine ⟨?_, alike⟩
    simp only [step, effect, same.engine, same.intake, same.attached, if_true]
  | false =>
    have same := alike.settle.agrees
    have told := alike.settle.unreported
    rw [step_snd, step_snd]
    refine ⟨?_, alike.settle.markReported⟩
    simp only [step, effect, told, same.engine, same.intake,
      same.attached, Bool.false_eq_true, if_false]

/-- **A call in other letter case is reported alike and leads to the same.** -/
theorem step_alike (attached : w.attached = true) (hold : Bool) {call call' : Rpc.Call}
    (same : call.SameButCase call') :
    (w.step hold (.rpc (some call))).1 = (w.step hold (.rpc (some call'))).1 ∧
      (w.step hold (.rpc (some call))).2.Alike w.calls.length
        (w.step hold (.rpc (some call'))).2 := by
  have worded : ∀ errand, (w.beside { errand }).recast .lowered w.calls.length
      = w.beside { errand := errand.lowered } := by
    intro errand
    simp only [World.recast, beside, withCalls, modify_last]
    rfl
  apply step_of_performed_alike
  · rw [perform_rpc call attached, perform_rpc call' attached]
  · rw [perform_rpc call attached, perform_rpc call' attached, Alike, worded, worded,
      Errand.lowered_ofRpc same]

theorem length_lt_step (attached : w.attached = true) (hold : Bool) (call : Rpc.Call) :
    w.calls.length < (w.step hold (.rpc (some call))).2.calls.length := by
  have come : (w.perform (.rpc (some call))).2.calls.length = w.calls.length + 1 := by
    rw [perform_rpc call attached]
    exact List.length_append
  cases hold with
  | true => exact Nat.lt_of_lt_of_eq (Nat.lt_succ_self _) come.symm
  | false =>
    have settled := length_settle (w.perform (.rpc (some call))).2
    have same : (w.step false (.rpc (some call))).2.calls.length
        = (w.perform (.rpc (some call))).2.settle.calls.length := List.length_map ..
    omega

/-- A gateway whose engine was let go takes no call. -/
theorem perform_rpc_of_unattached (gone : w.attached = false) (call : Rpc.Call) :
    w.perform (.rpc (some call)) = (.error .gone, w) := by
  simp [perform, World.call, gone]

/-- **A session with a call in other letter case goes on alike.** -/
theorem play_alike (w : World) (hold : Bool) {call call' : Rpc.Call} (same : call.SameButCase call')
    (rest : List (Bool × Action)) :
    w.play ((hold, .rpc (some call)) :: rest) = w.play ((hold, .rpc (some call')) :: rest) ∧
      (w.after ((hold, .rpc (some call)) :: rest)).Agrees
        (w.after ((hold, .rpc (some call')) :: rest)) := by
  cases attached : w.attached with
  | true =>
    obtain ⟨report, alike⟩ := step_alike attached hold same
    have inside := length_lt_step attached hold call
    have inside' := length_lt_step attached hold call'
    obtain ⟨reports, state⟩ := play_of_alike alike inside inside' rest
    exact ⟨by simp only [play, report, reports], state.agrees⟩
  | false =>
    have steps : w.step hold (.rpc (some call)) = w.step hold (.rpc (some call')) := by
      simp only [step, perform_rpc_of_unattached attached]
    constructor
    · simp only [play, steps]
    · simp only [after, steps]
      exact .refl _

/-- **Sessions that differ in letter case alone are reported alike and lead to the same.** -/
theorem play_sameButCase {actions actions' : List (Bool × Action)}
    (same : SameButCase actions actions') (w : World) : w.play actions = w.play actions' ∧
    (w.after actions).Agrees (w.after actions') := by
  induction same generalizing w with
  | nil => exact ⟨rfl, .refl w⟩
  | step hold action others ih =>
    obtain ⟨reports, state⟩ := ih (w.step hold action).2
    exact ⟨by simp only [play, reports], state⟩
  | @call hold call call' same rest rest' others ih =>
    obtain ⟨reports, state⟩ := w.play_alike hold same rest
    obtain ⟨reports', state'⟩ := ih (w.step hold (.rpc (some call'))).2
    refine ⟨reports.trans ?_, state.trans state'⟩
    simp only [play, reports']

/-- **Letter case never matters**, whatever the engine is and in whatever state. A call that gives
its texts in other letter case is refused with the same failure, or makes a request that writes the
same message: so it names the same task or the same miner, and brings the same bytes of an extra
nonce. And whatever is done at the gateway before, along with it or afterwards, other calls in other
letter case included, everything that is seen from then on is the same, the sealed work and the hash
rate included, and so is the state of the gateway in the end. -/
theorem letter_case {call call' : Rpc.Call} (same : call.SameButCase call') :
    call.DenotesAlike call' ∧
    ∀ (w : World) (hold : Bool) (rest rest' : List (Bool × Action)), SameButCase rest rest' →
      w.play ((hold, .rpc (some call)) :: rest) = w.play ((hold, .rpc (some call')) :: rest') ∧
      (w.after ((hold, .rpc (some call)) :: rest)).Agrees
        (w.after ((hold, .rpc (some call')) :: rest')) := by
  refine ⟨same.denotesAlike, ?_⟩
  intro w hold rest rest' others
  exact play_sameButCase (.call hold same others) w

/-- A solution in lower case, with an extra nonce. -/
def murmured : Rpc.Call where
  id := .number 1
  method := "eth_submitWork"
  params := some (.array [.string "0x00000000000000ab", .string (FixedBytes.filled 32 0xcd).text,
    .string (FixedBytes.filled 32 0xef).text, .string "0xfade"])

/-- The same solution by name and in capitals, but for some digits. -/
def shouted : Rpc.Call where
  id := .number 1
  method := "eth_submitWork"
  params := some (.object [(some "hash", .string ("0X" ++ String.join (List.replicate 32 "Cd"))),
    (some "nonce", .string "0X00000000000000AB"), (some "extraNonce", .string "0XFaDe"),
    (some "digest", .string ("0X" ++ String.join (List.replicate 32 "EF")))])

def murmuredTask : Task := ⟨FixedBytes.filled 32 0xcd, 1, .empty⟩

theorem letter_case_shouted :
    murmured.SameButCase shouted ∧ murmured.DenotesAlike shouted ∧
      ((World.started {} .acceptAll).after [(false, .push murmuredTask)]).play
          [(false, .rpc (some murmured)), (false, .receiveResult)]
        = ((World.started {} .acceptAll).after [(false, .push murmuredTask)]).play
          [(false, .rpc (some shouted)), (false, .receiveResult)] := by
  have same : murmured.SameButCase shouted := by
    have texts : Rpc.submitWorkTexts? murmured.params = some ("0x00000000000000ab",
        (FixedBytes.filled 32 0xcd).text, (FixedBytes.filled 32 0xef).text, some "0xfade") := rfl
    have texts' : Rpc.submitWorkTexts? shouted.params = some ("0X00000000000000AB",
        "0X" ++ String.join (List.replicate 32 "Cd"), "0X" ++ String.join (List.replicate 32 "EF"),
        some "0XFaDe") := rfl
    refine .submitWork rfl rfl rfl texts texts' ?_ ?_ ?_ ?_
    · decide +kernel
    · decide +kernel
    · decide +kernel
    · decide +kernel
  obtain ⟨alike, sessions⟩ := letter_case same
  exact ⟨same, alike, (sessions _ false _ _ (.step false .receiveResult .nil)).1⟩

end World

end MinerGateway
