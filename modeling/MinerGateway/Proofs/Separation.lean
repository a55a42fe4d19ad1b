import MinerGateway.Proofs.ConcurrentShutdown
import MinerGateway.Proofs.Delivery
import MinerGateway.Proofs.Operations
import MinerGateway.Proofs.PunctualSessions
import MinerGateway.Proofs.Tending

/-!
Which actions bear on which kind of message.

An action that does not concern a kind leaves alone what the kind sees (`perform_apart`), and one
that does sees nothing else of the gateway (`perform_congr`): not the other channels, not the other
callers, and not the part of the ledger that the kind does not bear on. The passing of time is such
an action.
-/

namespace MinerGateway

namespace Action

/-- Whether an action can bear on what this kind of message sees: tasks and the exit signal are for
everyone but for reports, which no task bears on, and results are for submissions. -/
def concerns (kind : Kind) : Action → Bool
  | .push _ => kind ≠ .report
  | .receiveResult | .dropResults => kind = .submission
  | .send message => message.kind = kind
  | .sleep _ | .close | .shutdown => true
  | action => action.asks kind

/-- The action is tame, and sends no caller away. -/
def staid : Action → Bool
  | .abort _ => false
  | action => action.tame

/-- Whether what the action comes to is told at once, and names no call. -/
def tells : Action → Bool
  | .push _ | .receiveResult | .dropResults | .sleep _ | .close | .shutdown => true
  | _ => false

theorem tame_of_staid {action : Action} (h : action.staid = true) : action.tame = true := by
  cases action <;> first | rfl | cases h

end Action

variable {kind : Kind}

/-! ## Sealers and channels that look alike -/

theorem Intake.only_put_other (intake : Intake) {letter : Letter} (other : letter.kind ≠ kind) :
    (intake.put letter).only kind = intake.only kind := by
  rw [Intake.only, Intake.only, World.emptied_put, Intake.queue_put,
    if_neg other.symm, List.append_nil]

theorem Intake.signal_congr {intake intake' : Intake}
    (alike : intake.only kind = intake'.only kind) :
    intake.signal.only kind = intake'.signal.only kind := by
  have signalled := congrArg Intake.signal alike
  cases kind <;> exact signalled

theorem Sealer.push_congr {s s' : Sealer} (same : s.only kind = s'.only kind) (task : Task) :
    ({ s with tasks := s.tasks ++ [task] } : Sealer).only kind
      = ({ s' with tasks := s'.tasks ++ [task] } : Sealer).only kind := by
  have pushed := congrArg
    (fun s : Sealer => ({ s with tasks := s.tasks ++ [task] } : Sealer).only kind) same
  cases kind <;> exact pushed

theorem Call.fall_errand (call : Call) : call.fall.errand = call.errand := by
  unfold Call.fall
  split <;> rfl

theorem Call.fall_of_early {call : Call}
    (early : call.stage = .made ∨ ∃ answer, call.stage = .finished answer) : call.fall = call := by
  unfold Call.fall
  split
  · next producing =>
    rcases early with made | ⟨answer, finished⟩
    · cases made.symm.trans producing
    · cases finished.symm.trans producing
  · rfl

namespace World

variable {w w' v : World} {s : Sealer} {intake : Intake} {action : Action}

/-! ## Before the calls made since begin -/

/-- A sealer that is tended, before the calls made since begin. -/
structure Poised (kind : Kind) (w : World) : Prop where
  tended : w.Tended
  calm : w.Calm kind

/-- Calls were made, and letters put on the channels directly, and nothing has come of it so far. -/
structure Grows (w w' : World) : Prop where
  calls : ∀ call ∈ w'.calls, call ∈ w.calls ∨ call.stage = .made ∨
    call.errand = .letter ∧ call.stage = .sent
  orderly : (∀ intake, w.intake = some intake → intake.Orderly) →
    ∀ intake, w'.intake = some intake → intake.Orderly

theorem Grows.of_same (calls : w'.calls = w.calls) (intake : w'.intake = w.intake) : Grows w w' :=
  ⟨fun _ there => .inl (calls ▸ there), fun orderly _ hi => orderly _ (intake ▸ hi)⟩

theorem Grows.refl (w : World) : Grows w w := .of_same rfl rfl

theorem grows_makeCall (w : World) (errand : Errand) : Grows w (w.makeCall errand).2 := by
  refine ⟨?_, fun orderly => orderly⟩
  intro call there
  rcases List.mem_append.mp there with there | new
  · exact .inl there
  · rw [List.mem_singleton.mp new]
    exact .inr (.inl rfl)

theorem grows_call (w : World) (errand : Errand) : Grows w (w.call errand).2 := by
  unfold call
  split
  · exact grows_makeCall w errand
  · exact .refl w

theorem grows_signal (w : World) : Grows w w.signal := by
  refine ⟨fun _ there => .inl there, ?_⟩
  intro orderly intake hi
  obtain ⟨before, there, rfl⟩ := Option.map_eq_some_iff.mp hi
  obtain ⟨filed, bounded⟩ := orderly before there
  constructor
  · intro kind
    have same : before.signal.queue kind = before.queue kind := by cases kind <;> rfl
    rw [same]
    exact filed kind
  · intro kind
    have same : before.signal.queue kind = before.queue kind := by cases kind <;> rfl
    rw [same]
    exact bounded kind

theorem send_calls (w : World) (intake : Intake) (message : Message) :
    ({ (w.makeCall .letter).2 with
        intake := some (intake.put ⟨w.calls.length, message⟩) }.setStage w.calls.length .sent).calls
      = w.calls ++ [{ errand := .letter, stage := .sent }] := by
  simp only [makeCall, setStage]
  rw [List.modify_eq_take_cons_drop (by simp)]
  simp

theorem grows_send (w : World) (message : Message) : Grows w (w.send message).2 := by
  unfold send
  split
  · exact .refl w
  next intake hi =>
  split
  · exact .refl w
  next attended =>
  split
  · next room =>
    constructor
    · intro call there
      have there : call ∈ w.calls ++ [{ errand := .letter, stage := .sent }] := by
        rw [← w.send_calls intake message]
        exact there
      rcases List.mem_append.mp there with there | new
      · exact .inl there
      · rw [List.mem_singleton.mp new]
        exact .inr (.inr ⟨rfl, rfl⟩)
    · intro orderly after hi'
      obtain rfl := Option.some.inj hi'
      have put : intake.Changes (.posted ⟨w.calls.length, message⟩)
          (intake.put ⟨w.calls.length, message⟩) :=
        .put (by simpa using attended) (hasRoom_zero room) (.inr rfl)
      exact put.orderly (orderly intake hi)
  · exact .refl w

namespace Poised

theorem of_settled (h : w.Tended) (settled : w.Settled) : w.Poised kind :=
  ⟨h, .of_settled h.attended settled⟩

theorem of_grows (h : w.Poised kind) (tended : w'.Tended) (grows : Grows w w') :
    w'.Poised kind := by
  refine ⟨tended, tended.attended, tended.sourceless.sober, ?_, ?_, grows.orderly h.calm.orderly⟩
  · intro call there asks
    rcases grows.calls call there with there | made | ⟨letter, -⟩
    · exact h.calm.early call there asks
    · exact .inl made
    · rw [Call.asks, letter] at asks
      cases asks
  · intro call there message waits
    rcases grows.calls call there with there | made | ⟨-, sent⟩
    · exact h.calm.unhurried call there message waits
    · cases made.symm.trans waits
    · cases sent.symm.trans waits

end Poised

/-! ## Time -/

theorem Tended.settled_ring (h : w.Tended) (settled : w.Settled) {target : Nat} {timer : Timer}
    {others : List Timer} (next : nextTimer target w.timers = some (timer, others)) :
    (w.rung timer others).quiesce.Settled := by
  obtain ⟨log, tracked⟩ := h.attended.tracked
  have begun : ({ w with now := timer.due, timers := others } : World).Begun :=
    settled.begun tracked
  have begun : (w.rung timer others).Begun := begun.fire timer.owner
  obtain ⟨n, moves⟩ := moves_run (w.rung timer others).potential (w.rung timer others)
  apply settled_of_move_eq_none
    (move_run_eq_none _ (h.ring next).attended.sound (Nat.le_refl _))
  intro i call found made
  exact begun.of_moves moves i call.errand (made ▸ view_eq_some found)

theorem Tended.settled_advance (fuel target : Nat) (h : w.Tended) (settled : w.Settled) :
    (w.advance fuel target).Settled := by
  induction fuel generalizing w with
  | zero => exact settled.congr rfl rfl rfl fun _ => rfl
  | succ fuel ih =>
    unfold advance
    split
    · exact settled.congr rfl rfl rfl fun _ => rfl
    · next timer others next => exact ih (h.ring next).quiesce (h.settled_ring settled next)

theorem Tended.settled_settle (h : w.Tended) : w.settle.Settled := by
  obtain ⟨log, tracked⟩ := h.attended.tracked
  exact World.settled_settle h.attended.sound tracked

theorem Tended.settled_sleep (h : w.Tended) (duration : Nat) : (w.sleep duration).Settled :=
  h.settle.settled_advance _ _ h.settled_settle

theorem Tended.settle_again (h : w.Tended) :
    w.settle.markReported.settle.markReported = w.settle.markReported := by
  have settled := h.settled_settle.markReported
  obtain ⟨log, tracked⟩ := h.settle.markReported.attended.tracked
  have still := settle_eq_self settled.move_eq_none (settled.begun tracked)
  rw [still, World.markReported, World.markReported, List.map_map]
  rfl

theorem Tended.sealerSummary? (h : w.Tended) : w.sealerSummary?.isSome = true := by
  obtain ⟨s, engine⟩ := h.attended.sealer
  simp [World.sealerSummary?, h.attended.attached, engine, Engine.isRunning?]

/-- Whatever is done but to wait, nothing comes of the calls at once. -/
theorem grows_perform (h : w.Tended) (staid : action.staid = true)
    (awake : ∀ duration, action ≠ .sleep duration) (stays : action ≠ .shutdown) :
    Grows w (w.perform action).2 := by
  obtain ⟨s, engine⟩ := h.attended.sealer
  obtain ⟨intake, hi, -⟩ := h.attended.sound
  cases action with
  | abort | startDevnet | dropEngine => cases staid
  | sleep duration => exact absurd rfl (awake duration)
  | shutdown => exact absurd rfl stays
  | request request => exact grows_call w _
  | rpc call => exact grows_call w _
  | send message => exact grows_send w message
  | watchExit =>
    simp only [perform]
    split
    · exact grows_makeCall w .watchExit
    · exact .refl w
  | push task =>
    rw [perform_push h.attended.attached engine]
    split
    · exact .refl w
    · exact .of_same rfl rfl
  | close =>
    simp only [perform, close, engine]
    split
    · exact grows_signal w
    · exact .refl w
  | receiveResult =>
    simp only [perform, receiveResult, engine]
    split
    · exact .refl w
    · split
      · exact .of_same rfl rfl
      · exact .refl w
  | dropResults =>
    simp only [perform, dropResults, engine]
    exact .of_same rfl rfl
  | _ =>
    obtain ⟨now, _, _, attached, calls, timers⟩ := w
    obtain rfl := engine
    obtain rfl := hi
    cases attached <;> exact .refl _

namespace Poised

theorem settle (h : w.Poised kind) : w.settle.markReported.Poised kind :=
  .of_settled h.tended.settle.markReported h.tended.settled_settle.markReported

theorem beginShutdown (h : w.Poised kind) : w.beginShutdown.1.Poised kind := by
  obtain ⟨s, engine⟩ := h.tended.attended.sealer
  have tended : w.beginShutdown.1.Tended := h.tended.beginShutdown
  have grows := grows_signal w
  rw [beginShutdown_eq engine] at tended ⊢
  exact h.of_grows tended ⟨grows.calls, grows.orderly⟩

/-- An action leaves the gateway as it is before its calls begin, or after they are through. -/
theorem perform (h : w.Poised kind) (staid : action.staid = true) :
    (w.perform action).2.Poised kind := by
  have tended := h.tended.perform (Action.tame_of_staid staid)
  by_cases asleep : ∃ duration, action = .sleep duration
  · obtain ⟨duration, rfl⟩ := asleep
    exact .of_settled tended (h.tended.settled_sleep duration)
  by_cases closes : action = .shutdown
  · subst closes
    have begun : w.beginShutdown.1.Poised kind := h.beginShutdown
    simp only [World.perform, shutdown, h.tended.sealerSummary?, if_true] at tended ⊢
    cases last : w.beginShutdown with
    | mk next waits =>
      rw [last] at tended begun
      cases waits with
      | true => exact .of_settled tended begun.tended.settled_settle
      | false => exact begun
  · exact h.of_grows tended (grows_perform h.tended staid (not_exists.mp asleep) closes)

end Poised

/-! ## What an action changes for one kind -/

theorem asks_rpc (kind : Kind) (call : Option Rpc.Call) :
    (Action.rpc call).asks kind = ({ errand := .ofRpc call } : Call).asks kind := by
  unfold Action.asks Action.miner? Call.asks
  cases errand : Errand.ofRpc call <;> simp [errand]

theorem filter_concat (calls : List Call) {call : Call} (other : call.asks kind = false) :
    (calls ++ [call]).filter (Call.asks kind) = calls.filter (Call.asks kind) := by
  rw [List.filter_append, List.filter_singleton, other]
  simp

theorem call_apart (w : World) {errand : Errand} (other : ({ errand } : Call).asks kind = false) :
    (w.call errand).2.only kind = w.only kind := by
  unfold call
  split
  · exact only_ext rfl rfl rfl rfl (filter_concat w.calls other) rfl
  · rfl

theorem send_apart (w : World) {message : Message} (other : message.kind ≠ kind) :
    (w.send message).2.only kind = w.only kind := by
  unfold send
  split
  · rfl
  next intake hi =>
  split
  · rfl
  split
  · refine only_ext rfl rfl ?_ rfl ?_ rfl
    · rw [hi]
      exact congrArg some (Intake.only_put_other intake other)
    · exact (congrArg _ (w.send_calls intake message)).trans (filter_concat w.calls rfl)
  · rfl

/-- **An action that does not concern a kind leaves alone what the kind sees.** -/
theorem perform_apart (h : w.Tended) (staid : action.staid = true)
    (apart : action.concerns kind = false) : (w.perform action).2.only kind = w.only kind := by
  obtain ⟨s, engine⟩ := h.attended.sealer
  obtain ⟨intake, hi, -⟩ := h.attended.sound
  cases action with
  | abort | startDevnet | dropEngine => cases staid
  | sleep | shutdown | close => cases apart
  | request request => exact call_apart w apart
  | rpc call => exact call_apart w ((asks_rpc kind call).symm.trans apart)
  | send message => exact send_apart w (of_decide_eq_false apart)
  | watchExit =>
    simp only [perform]
    split
    · exact only_ext rfl rfl rfl rfl (filter_concat w.calls rfl) rfl
    · rfl
  | push task =>
    obtain rfl : kind = .report := by simpa [Action.concerns] using apart
    rw [perform_push h.attended.attached engine]
    split
    · rfl
    · exact only_ext rfl (by rw [engine]; rfl) rfl rfl rfl rfl
  | receiveResult =>
    have other : kind ≠ .submission := by simpa [Action.concerns] using apart
    simp only [perform, receiveResult, engine]
    split
    · rfl
    · split
      · refine only_ext rfl ?_ rfl rfl rfl rfl
        simp [engine, Engine.only, Sealer.only, other]
      · rfl
  | dropResults =>
    have other : kind ≠ .submission := by simpa [Action.concerns] using apart
    simp only [perform, dropResults, engine]
    refine only_ext rfl ?_ rfl rfl rfl rfl
    simp [engine, Engine.only, Sealer.only, other]
  | _ =>
    obtain ⟨now, _, _, attached, calls, timers⟩ := w
    obtain rfl := engine
    obtain rfl := hi
    cases attached <;> rfl

/-! ## What an action sees of one kind -/

/-- Gateways that look alike to a kind have sealers and channels that do. -/
theorem exists_alike (h : w.Tended) (h' : w'.Tended) (alike : w.only kind = w'.only kind) :
    ∃ s s' intake intake', w.engine = .sealer s ∧ w'.engine = .sealer s' ∧ w.intake = some intake ∧
      w'.intake = some intake' ∧ s.only kind = s'.only kind ∧
      intake.only kind = intake'.only kind := by
  obtain ⟨s, engine⟩ := h.attended.sealer
  obtain ⟨s', engine'⟩ := h'.attended.sealer
  obtain ⟨intake, hi, -⟩ := h.attended.sound
  obtain ⟨intake', hi', -⟩ := h'.attended.sound
  obtain ⟨-, engines, channels, -, -, -⟩ := World.mk.inj alike
  rw [engine, engine'] at engines
  rw [hi, hi'] at channels
  exact ⟨s, s', intake, intake', engine, engine', hi, hi', Engine.sealer.inj engines,
    Option.some.inj channels⟩

theorem only_congr (alike : w.only kind = w'.only kind) {engine engine' : Engine}
    {intake intake' : Option Intake} {calls calls' : List Call}
    (engines : engine.only kind = engine'.only kind)
    (channels : intake.map (Intake.only kind) = intake'.map (Intake.only kind))
    (callers : calls.filter (Call.asks kind) = calls'.filter (Call.asks kind)) :
    ({ w with engine, intake, calls } : World).only kind
      = ({ w' with engine := engine', intake := intake', calls := calls' } : World).only kind := by
  obtain ⟨now, -, -, attached, -, timers⟩ := World.mk.inj alike
  exact only_ext now engines channels attached callers timers

theorem filter_concat_congr {calls calls' : List Call} (call : Call)
    (alike : calls.filter (Call.asks kind) = calls'.filter (Call.asks kind)) :
    (calls ++ [call]).filter (Call.asks kind) = (calls' ++ [call]).filter (Call.asks kind) := by
  rw [List.filter_append, List.filter_append, alike]

theorem call_congr (alike : w.only kind = w'.only kind) (errand : Errand) :
    (w.call errand).2.only kind = (w'.call errand).2.only kind := by
  obtain ⟨-, engines, channels, attached, callers, -⟩ := World.mk.inj alike
  unfold call
  rw [attached]
  split
  · exact only_congr alike engines channels (filter_concat_congr _ callers)
  · exact alike

theorem push_congr (h : w.Tended) (h' : w'.Tended) (alike : w.only kind = w'.only kind)
    (task : Task) :
    (w.perform (.push task)).2.only kind = (w'.perform (.push task)).2.only kind ∧
      (w.perform (.push task)).1 = (w'.perform (.push task)).1 := by
  obtain ⟨s, s', intake, intake', engine, engine', hi, hi', sealers, channels⟩ :=
    exists_alike h h' alike
  obtain ⟨-, -, -, -, callers, -⟩ := World.mk.inj alike
  have loop : s.loop = s'.loop := (congrArg Sealer.loop sealers :)
  have signalled : intake.signalled = intake'.signalled := by
    rw [← intake.signalled_only, channels, intake'.signalled_only]
  have refuses : w.refuses s = w'.refuses s' := by
    rw [World.refuses, World.refuses, isSignalled_eq hi, isSignalled_eq hi', signalled, loop]
  rw [perform_push h.attended.attached engine, perform_push h'.attended.attached engine', refuses]
  split
  · exact ⟨alike, rfl⟩
  · exact ⟨only_congr alike (congrArg Engine.sealer (Sealer.push_congr sealers task))
      (by rw [hi, hi', Option.map_some, Option.map_some, channels]) callers, rfl⟩

theorem send_congr (h : w.Poised kind) (h' : w'.Poised kind) (alike : w.only kind = w'.only kind)
    {message : Message} (own : message.kind = kind) :
    (w.send message).2.only kind = (w'.send message).2.only kind := by
  obtain ⟨s, s', intake, intake', engine, engine', hi, hi', sealers, channels⟩ :=
    exists_alike h.tended h'.tended alike
  obtain ⟨-, engines, -, -, callers, -⟩ := World.mk.inj alike
  have attended : intake.attended = intake'.attended := by
    have seen := congrArg Intake.attended channels
    rwa [Intake.only, Intake.only, Intake.attended_setQueue, Intake.attended_setQueue] at seen
  have capacity : intake.capacity = intake'.capacity := by
    have seen := congrArg Intake.capacity channels
    rwa [Intake.only, Intake.only, Intake.capacity_setQueue, Intake.capacity_setQueue] at seen
  have letters : (intake.queue kind).map Letter.unsigned
      = (intake'.queue kind).map Letter.unsigned := by
    rw [← intake.letters_only, channels, intake'.letters_only]
  have length : (intake.queue kind).length = (intake'.queue kind).length := by
    simpa using congrArg List.length letters
  have nobody : ∀ w : World, w.Poised kind → w.waitingFor message.kind = 0 := by
    intro w h
    refine List.countP_eq_zero.mpr ?_
    intro call there waits
    unfold Call.waitsFor at waits
    split at waits
    · next stage => exact h.calm.unhurried call there _ stage
    · cases waits
  have room : intake.hasRoom message.kind (w.waitingFor message.kind)
      = intake'.hasRoom message.kind (w'.waitingFor message.kind) := by
    rw [nobody w h, nobody w' h', own, Intake.hasRoom, Intake.hasRoom, length, capacity]
  have emptied : intake.emptied = intake'.emptied := by
    rw [← intake.emptied_only, channels, intake'.emptied_only]
  have put : (intake.put ⟨w.calls.length, message⟩).only kind
      = (intake'.put ⟨w'.calls.length, message⟩).only kind := by
    rw [Intake.only, Intake.only, emptied_put, emptied_put, Intake.queue_put, Intake.queue_put,
      List.map_append, List.map_append, letters, emptied, if_pos own.symm, if_pos own.symm]
    rfl
  simp only [send, hi, hi', attended, room]
  split
  · exact alike
  split
  · refine only_congr alike engines (congrArg some put) ?_
    have there := congrArg (List.filter (Call.asks kind)) (w.send_calls intake message)
    have there' := congrArg (List.filter (Call.asks kind)) (w'.send_calls intake' message)
    exact there.trans ((filter_concat_congr _ callers).trans there'.symm)
  · exact alike

theorem signal_congr (h : w.Tended) (h' : w'.Tended) (alike : w.only kind = w'.only kind) :
    w.signal.only kind = w'.signal.only kind := by
  obtain ⟨s, s', intake, intake', engine, engine', hi, hi', sealers, channels⟩ :=
    exists_alike h h' alike
  obtain ⟨-, engines, -, -, callers, -⟩ := World.mk.inj alike
  refine only_congr alike engines ?_ callers
  rw [hi, hi']
  exact congrArg some (Intake.signal_congr channels)

theorem receiveResult_congr (h : w.Tended) (h' : w'.Tended)
    (alike : w.only .submission = w'.only .submission) :
    w.receiveResult.2.only .submission = w'.receiveResult.2.only .submission ∧
      w.receiveResult.1 = w'.receiveResult.1 := by
  obtain ⟨s, s', intake, intake', engine, engine', hi, hi', sealers, channels⟩ :=
    exists_alike h h' alike
  obtain ⟨-, -, channels, -, callers, -⟩ := World.mk.inj alike
  have loop : s.loop = s'.loop := (congrArg Sealer.loop sealers :)
  have outbox : s.outbox = s'.outbox := (congrArg Sealer.outbox sealers :)
  simp only [receiveResult, engine, engine', outbox]
  split
  · exact ⟨alike, rfl⟩
  · split
    · next work rest _ =>
      refine ⟨only_congr alike ?_ channels callers, rfl⟩
      exact congrArg (fun s : Sealer => Engine.sealer { s with outbox := rest }) sealers
    · rw [loop]
      exact ⟨alike, rfl⟩

theorem dropResults_congr (h : w.Tended) (h' : w'.Tended)
    (alike : w.only .submission = w'.only .submission) :
    w.dropResults.only .submission = w'.dropResults.only .submission := by
  obtain ⟨s, s', intake, intake', engine, engine', hi, hi', sealers, channels⟩ :=
    exists_alike h h' alike
  obtain ⟨-, -, channels, -, callers, -⟩ := World.mk.inj alike
  simp only [dropResults, engine, engine']
  refine only_congr alike ?_ channels callers
  exact congrArg (fun s : Sealer => Engine.sealer { s with outbox := s.outbox.abandon }) sealers

theorem markReported_congr (alike : w.only kind = w'.only kind) :
    w.markReported.only kind = w'.markReported.only kind := by
  obtain ⟨-, engines, channels, -, callers, -⟩ := World.mk.inj alike
  refine only_congr alike engines channels ?_
  have reported : ∀ calls : List Call,
      (calls.map fun call => { call with reported := call.answer?.isSome }).filter (Call.asks kind)
        = (calls.filter (Call.asks kind)).map fun call =>
        { call with reported := call.answer?.isSome } :=
    filter_map_asks fun _ => rfl
  rw [reported, reported, callers]

theorem Poised.settle_congr (h : w.Poised kind) (h' : w'.Poised kind)
    (alike : w.only kind = w'.only kind) :
    w.settle.markReported.only kind = w'.settle.markReported.only kind :=
  markReported_congr (h.calm.settle_congr h'.calm alike)

/-! ## Time -/

theorem rung_congr (h : w.Poised kind) (h' : w'.Poised kind) (alike : w.only kind = w'.only kind)
    (timer : Timer) (others : List Timer) :
    (w.rung timer others).only kind = (w'.rung timer others).only kind := by
  obtain ⟨s, s', intake, intake', engine, engine', hi, hi', sealers, -⟩ :=
    exists_alike h.tended h'.tended alike
  obtain ⟨-, engines, channels, attached, callers, -⟩ := World.mk.inj alike
  have loop : s.loop = s'.loop := (congrArg Sealer.loop sealers :)
  cases owner : timer.owner with
  | worker =>
    simp only [rung, owner, fire, engine, engine']
    by_cases running : s.loop = .running
    · rw [if_pos running, if_pos (loop.symm.trans running)]
      refine only_ext rfl ?_ channels attached callers rfl
      exact congrArg (fun s : Sealer => Engine.sealer { s with cleanupDue := true }) sealers
    · rw [if_neg running, if_neg (loop ▸ running)]
      exact only_ext rfl (congrArg Engine.sealer sealers) channels attached callers rfl
  | call i =>
    have unseen : ∀ w : World, w.Poised kind → (w.calls.modify i Call.fall).filter (Call.asks kind)
        = w.calls.filter (Call.asks kind) := by
      intro w h
      apply filter_modify
      · intro call _
        exact Call.asks_congr kind call.fall_errand
      · intro call there asks
        exact Call.fall_of_early (h.calm.early call there asks)
    simp only [rung, owner, fire]
    exact only_ext rfl engines channels attached
      ((unseen w h).trans (callers.trans (unseen w' h').symm)) rfl

theorem Poised.ring (h : w.Poised kind) {target : Nat} {timer : Timer} {others : List Timer}
    (next : nextTimer target w.timers = some (timer, others)) :
    (w.rung timer others).Poised kind := by
  have tended := h.tended.ring next
  obtain ⟨s, engine⟩ := h.tended.attended.sealer
  cases owner : timer.owner with
  | worker =>
    refine h.of_grows tended ?_
    simp only [rung, owner, fire, engine]
    split <;> exact .of_same rfl rfl
  | call i =>
    have fallen : (w.rung timer others).calls = w.calls.modify i Call.fall ∧
        (w.rung timer others).intake = w.intake := by
      simp only [rung, owner, fire, and_self]
    refine ⟨tended, tended.attended, tended.sourceless.sober, ?_, ?_, ?_⟩
    · rw [fallen.1]
      apply forall_modify _ h.calm.early
      intro call early asks
      have early := early ((Call.asks_congr kind call.fall_errand).symm.trans asks)
      have same : call.fall = call := Call.fall_of_early early
      rw [same]
      exact early
    · rw [fallen.1]
      apply forall_modify _ h.calm.unhurried
      intro call unhurried
      obtain ⟨errand, stage, reported⟩ := call
      cases stage with
      | producing => exact fun _ waits => by cases waits
      | _ => exact unhurried
    · rw [fallen.2]
      exact h.calm.orderly

theorem advance_congr (fuel target : Nat) (h : w.Tended) (h' : w'.Tended) (settled : w.Settled)
    (settled' : w'.Settled) (alike : w.only kind = w'.only kind) :
    (w.advance fuel target).only kind = (w'.advance fuel target).only kind := by
  induction fuel generalizing w w' with
  | zero =>
    obtain ⟨-, engines, channels, attached, callers, timers⟩ := World.mk.inj alike
    exact only_ext rfl engines channels attached callers timers
  | succ fuel ih =>
    obtain ⟨-, engines, channels, attached, callers, timers⟩ := World.mk.inj alike
    have poised : w.Poised kind := .of_settled h settled
    have poised' : w'.Poised kind := .of_settled h' settled'
    cases next : nextTimer target w.timers with
    | none =>
      have next' : nextTimer target w'.timers = none := timers ▸ next
      simp only [advance, next, next']
      exact only_ext rfl engines channels attached callers timers
    | some found =>
      obtain ⟨timer, others⟩ := found
      have next' : nextTimer target w'.timers = some (timer, others) := timers ▸ next
      have rung := rung_congr poised poised' alike timer others
      have quiet : (w.rung timer others).quiesce.only kind
          = (w'.rung timer others).quiesce.only kind := by
        rw [quiesce_eq_forecast (h.ring next).attended,
          quiesce_eq_forecast (h'.ring next').attended,
          (poised.ring next).calm.forecast_only, (poised'.ring next').calm.forecast_only, rung]
      simp only [advance, next, next']
      exact ih (h.ring next).quiesce (h'.ring next').quiesce (h.settled_ring settled next)
        (h'.settled_ring settled' next') quiet

theorem sleep_congr (h : w.Poised kind) (h' : w'.Poised kind) (alike : w.only kind = w'.only kind)
    (duration : Nat) : (w.sleep duration).only kind = (w'.sleep duration).only kind := by
  have settled := h.calm.settle_congr h'.calm alike
  obtain ⟨now, -, -, -, -, timers⟩ := World.mk.inj settled
  have bound : w.settle.timerBound (w.settle.now + duration)
      = w'.settle.timerBound (w'.settle.now + duration) := by
    rw [timerBound, timerBound, now, timers]
  simp only [sleep]
  rw [bound, now]
  exact advance_congr _ _ h.tended.settle h'.tended.settle h.tended.settled_settle
    h'.tended.settled_settle settled

/-! ## Sessions -/

theorem beginShutdown_congr (h : w.Tended) (h' : w'.Tended) (alike : w.only kind = w'.only kind) :
    w.beginShutdown.1.only kind = w'.beginShutdown.1.only kind ∧
      w.beginShutdown.2 = w'.beginShutdown.2 := by
  obtain ⟨s, s', intake, intake', engine, engine', -, -, sealers, -⟩ := exists_alike h h' alike
  obtain ⟨-, -, channels, -, callers, -⟩ := World.mk.inj (signal_congr h h' alike)
  have joined : s.joined = s'.joined := (congrArg Sealer.joined sealers :)
  rw [beginShutdown_eq engine, beginShutdown_eq engine', joined]
  refine ⟨only_congr (signal_congr h h' alike) ?_ channels callers, rfl⟩
  exact congrArg (fun s : Sealer => Engine.sealer { s with joined := true }) sealers

theorem shutdown_congr (h : w.Poised kind) (h' : w'.Poised kind)
    (alike : w.only kind = w'.only kind) :
    w.shutdown.2.only kind = w'.shutdown.2.only kind ∧ w.shutdown.1 = w'.shutdown.1 := by
  obtain ⟨begun, waits⟩ := beginShutdown_congr h.tended h'.tended alike
  have poised := h.beginShutdown
  have poised' := h'.beginShutdown
  simp only [shutdown, h.tended.sealerSummary?, h'.tended.sealerSummary?, if_true]
  cases last : w.beginShutdown with
  | mk next await =>
    cases last' : w'.beginShutdown with
    | mk next' await' =>
      rw [last, last'] at begun waits
      rw [last] at poised
      rw [last'] at poised'
      obtain rfl : await = await' := waits
      cases await with
      | true => exact ⟨poised.calm.settle_congr poised'.calm begun, rfl⟩
      | false => exact ⟨begun, rfl⟩

/-- **An action that concerns a kind sees nothing but what the kind sees.** -/
theorem perform_congr (h : w.Poised kind) (h' : w'.Poised kind) (alike : w.only kind = w'.only kind)
    (staid : action.staid = true) (concerns : action.concerns kind = true) :
    (w.perform action).2.only kind = (w'.perform action).2.only kind ∧
      (action.tells = true → (w.perform action).1 = (w'.perform action).1) := by
  obtain ⟨s, engine⟩ := h.tended.attended.sealer
  obtain ⟨s', engine'⟩ := h'.tended.attended.sealer
  cases action with
  | abort | startDevnet | dropEngine => cases staid
  | request request => exact ⟨call_congr alike _, by simp [Action.tells]⟩
  | rpc call => exact ⟨call_congr alike _, by simp [Action.tells]⟩
  | send message =>
    exact ⟨send_congr h h' alike (of_decide_eq_true concerns), by simp [Action.tells]⟩
  | push task =>
    obtain ⟨state, told⟩ := push_congr h.tended h'.tended alike task
    exact ⟨state, fun _ => told⟩
  | close =>
    simp only [perform, close, engine, engine', h.tended.sealerSummary?,
      h'.tended.sealerSummary?, if_true]
    exact ⟨signal_congr h.tended h'.tended alike, fun _ => trivial⟩
  | shutdown =>
    obtain ⟨state, told⟩ := shutdown_congr h h' alike
    exact ⟨state, fun _ => told⟩
  | receiveResult =>
    obtain rfl : kind = .submission := of_decide_eq_true concerns
    obtain ⟨state, told⟩ := receiveResult_congr h.tended h'.tended alike
    exact ⟨state, fun _ => told⟩
  | dropResults =>
    obtain rfl : kind = .submission := of_decide_eq_true concerns
    exact ⟨dropResults_congr h.tended h'.tended alike, fun _ => rfl⟩
  | sleep duration => exact ⟨sleep_congr h h' alike duration, fun _ => rfl⟩
  | _ => cases concerns

end World

end MinerGateway
