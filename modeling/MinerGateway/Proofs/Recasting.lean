import MinerGateway.Proofs.Callers
import MinerGateway.Proofs.SessionRuns

/-!
Calls that differ in nothing but the form of their answers.

The gateway looks at what a call is about only to begin it and to word its answer. So if one call of
a gateway is taken to be about something else that begins alike and is answered alike (`Recast`),
all that happens stays the same but the wording of this one answer: every move (`move_recast`),
settling (`settle_recast`), every action (`perform_recast`), and with them whole sessions
(`play_recast`).
-/

namespace MinerGateway

def Stage.recast (answer : Answer → Answer) : Stage → Stage
  | .finished a => .finished (answer a)
  | stage => stage

/-- A way to take calls to be about something else, and their answers to be worded in another way,
that makes no difference to the gateway. -/
structure Recast where
  errand : Errand → Errand
  answer : Answer → Answer
  first : ∀ connected rate e, (errand e).first connected rate
      = (e.first connected rate).recast answer
  told : ∀ e reply, (errand e).answer reply = answer (e.answer reply)
  holds : ∀ e, (errand e).holdsEngine = e.holdsEngine
  source : ∀ e interval, errand e = .devnet interval ↔ e = .devnet interval
  exited : answer .exited = .exited
  stopped : answer .sourceStopped = .sourceStopped
  aborted : answer .aborted = .aborted

/-- The call taken to be about something else. -/
def Recast.call (r : Recast) (call : Call) : Call :=
  { call with errand := r.errand call.errand, stage := call.stage.recast r.answer }

/-- The answer of one call is worded in another way. -/
def Recast.reword (r : Recast) (i j : Nat) (answer : Answer) : Answer :=
  if i = j then r.answer answer else answer

/-- The same gateway with one call taken to be about something else. -/
def World.recast (r : Recast) (i : Nat) (w : World) : World :=
  w.withCalls fun calls => calls.modify i r.call

def Report.recast (r : Recast) (i : Nat) (report : Report) : Report :=
  { report with done := report.done.map fun (j, answer) => (j, r.reword i j answer) }

/-! ## Calls in a list -/

/-- What is done in two places can be done in either order, if it can where the places are the same.
-/
theorem modify_comm {α : Type} {f g g' : α → α} {i j : Nat} (same : i = j → ∀ a, g' (f a) = f (g a))
    (apart : i ≠ j → g' = g) (l : List α) :
    (l.modify i f).modify j g' = (l.modify j g).modify i f := by
  by_cases h : i = j
  · subst h
    rw [List.modify_modify_eq, List.modify_modify_eq]
    exact congrArg _ (funext (same rfl))
  · rw [apart h, List.modify_modify_ne f g l h]

theorem map_modify_comm {α : Type} {f g : α → α} (comm : ∀ a, g (f a) = f (g a)) (l : List α)
    (i : Nat) : (l.modify i f).map g = (l.map g).modify i f := by
  apply List.ext_getElem?
  intro j
  rw [List.getElem?_map, List.getElem?_modify, List.getElem?_modify, List.getElem?_map]
  cases l[j]? with
  | none => rfl
  | some a =>
    by_cases h : i = j <;> simp [h, comm]

theorem zipIdx_modify {α : Type} (f : α → α) (l : List α) (i : Nat) :
    (l.modify i f).zipIdx
      = l.zipIdx.map fun entry => (if i = entry.2 then f entry.1 else entry.1, entry.2) := by
  apply List.ext_getElem?
  intro j
  rw [List.getElem?_zipIdx, List.getElem?_modify, List.getElem?_map, List.getElem?_zipIdx]
  cases l[j]? with
  | none => rfl
  | some a => simp

/-! ## One call -/

namespace Recast

variable (r : Recast)

theorem receive_call (reply : Reply) (call : Call) :
    (r.call call).receive reply = r.call (call.receive reply) := by
  obtain ⟨errand, stage, reported⟩ := call
  cases stage <;> rfl

theorem fall_call (call : Call) : (r.call call).fall = r.call call.fall := by
  obtain ⟨errand, stage, reported⟩ := call
  cases stage <;> rfl

theorem abort_call (call : Call) : (r.call call).abort = r.call call.abort := by
  obtain ⟨errand, stage, reported⟩ := call
  cases stage <;> simp [Recast.call, Stage.recast, Call.abort, r.aborted]

theorem answer?_call (call : Call) : (r.call call).answer? = call.answer?.map r.answer := by
  obtain ⟨errand, stage, reported⟩ := call
  cases stage <;> rfl

theorem waitsFor_call (kind : Kind) (call : Call) :
    (r.call call).waitsFor kind = call.waitsFor kind := by
  obtain ⟨errand, stage, reported⟩ := call
  cases stage <;> rfl

theorem potential_call (call : Call) : (r.call call).potential = call.potential := by
  obtain ⟨errand, stage, reported⟩ := call
  cases stage <;> rfl

theorem holdsEngine_call (call : Call) : (r.call call).holdsEngine = call.holdsEngine := by
  have errand : (r.call call).errand.holdsEngine = call.errand.holdsEngine := r.holds call.errand
  rw [Call.holdsEngine, Call.holdsEngine, errand, r.answer?_call]
  cases call.answer? <;> rfl

theorem begun_call (connected : Bool) (rate : UInt64) (call : Call) :
    (r.call call).begun connected rate = r.call (call.begun connected rate) := by
  obtain ⟨errand, stage, reported⟩ := call
  cases stage with
  | made => simp only [Call.begun, Recast.call, Stage.recast, r.first]
  | _ => rfl

theorem reported_call (call : Call) :
    ({ r.call call with reported := (r.call call).answer?.isSome } : Call)
      = r.call { call with reported := call.answer?.isSome } := by
  rw [r.answer?_call]
  cases h : call.answer? <;> simp [Recast.call]

end Recast

namespace World

variable (r : Recast) (i : Nat) (w : World)

/-! ## What is done to calls -/

theorem recast_map {f : Call → Call} (comm : ∀ call, f (r.call call) = r.call (f call)) :
    { w.recast r i with calls := (w.recast r i).calls.map f }
      = ({ w with calls := w.calls.map f } : World).recast r i := by
  simp only [recast, withCalls, map_modify_comm comm]

theorem recast_modify {f : Call → Call} (comm : ∀ call, f (r.call call) = r.call (f call))
    (j : Nat) :
    { w.recast r i with calls := (w.recast r i).calls.modify j f }
      = ({ w with calls := w.calls.modify j f } : World).recast r i := by
  simp only [recast, withCalls, modify_comm (fun _ => comm) (fun _ => rfl)]

theorem takes_recast : TakesAlike fun calls => calls.modify i r.call :=
  fun calls _ reply => modify_comm (fun _ => r.receive_call reply) (fun _ => rfl) calls

theorem carries_recast (calls : List Call) (j : Nat) {stage : Stage}
    (still : stage.recast r.answer = stage) :
    Carries (fun calls => calls.modify i r.call) calls j stage stage := by
  refine modify_comm (fun _ call => ?_) (fun _ => rfl) calls
  simp only [Recast.call, still]

theorem carries_answer (calls : List Call) (j : Nat) (answer : Answer) :
    Carries (fun calls => calls.modify i r.call) calls j (.finished answer)
      (.finished (r.reword i j answer)) := by
  apply modify_comm
  · rintro rfl call
    simp [Recast.reword, Recast.call, Stage.recast]
  · intro apart
    simp [Recast.reword, apart]

theorem isHeldByCalls_recast : (w.recast r i).isHeldByCalls = w.isHeldByCalls := by
  have holds := map_modify_eq (g := Call.holdsEngine) r.holdsEngine_call w.calls i
  have any := congrArg (List.any · id) holds
  rw [List.any_map, List.any_map] at any
  exact any

theorem isOrphaned_recast : (w.recast r i).isOrphaned = w.isOrphaned := by
  have held := w.isHeldByCalls_recast r i
  simp only [isOrphaned, held]
  rfl

theorem waitingFor_recast (kind : Kind) : (w.recast r i).waitingFor kind = w.waitingFor kind := by
  have waits := map_modify_eq (g := (Call.waitsFor · kind)) (r.waitsFor_call kind) w.calls i
  have count := congrArg (List.countP id) waits
  rw [List.countP_map, List.countP_map] at count
  exact count

theorem potential_recast : (w.recast r i).potential = w.potential := by
  have potentials := map_modify_eq (g := Call.potential) r.potential_call w.calls i
  have sum := congrArg (List.foldr (· + ·) 0) potentials
  rw [List.foldr_map, List.foldr_map] at sum
  simp only [potential]
  exact congrArg (· + _ + _ + _) sum

/-! ## What happens by itself -/

variable {w}

theorem callMove_recast (j : Nat) (call : Call) :
    (w.recast r i).callMove j (if i = j then r.call call else call)
      = (w.callMove j call).map (recast r i) := by
  by_cases told : ∃ answer, call.stage = .finished answer
  · obtain ⟨answer, told⟩ := told
    have told' : ∃ answer, (if i = j then r.call call else call).stage = .finished answer := by
      split
      · exact ⟨r.answer answer, by simp only [Recast.call, told, Stage.recast]⟩
      · exact ⟨answer, told⟩
    obtain ⟨answer', told'⟩ := told'
    simp only [callMove, told, told']
    rfl
  · have still : ∀ stage : Stage, (∀ answer, stage ≠ .finished answer) →
        stage.recast r.answer = stage := by
      intro stage unfinished
      cases stage with
      | finished answer => exact absurd rfl (unfinished answer)
      | _ => rfl
    apply callMove_withCalls
    · split
      · exact still call.stage (not_exists.mp told)
      · rfl
    · intro interval
      split
      · exact r.source call.errand interval
      · rfl
    · exact fun stage unfinished => carries_recast r i w.calls j (still stage unfinished)
    · intro reply
      have word : (if i = j then r.call call else call).errand.answer reply
          = r.reword i j (call.errand.answer reply) := by
        unfold Recast.reword
        split
        · exact r.told call.errand reply
        · rfl
      rw [word]
      exact carries_answer r i w.calls j _
    · rintro answer (rfl | rfl)
      · exact carries_recast r i w.calls j (congrArg Stage.finished r.exited)
      · exact carries_recast r i w.calls j (congrArg Stage.finished r.stopped)

theorem anyCallMove_recast : (w.recast r i).anyCallMove = w.anyCallMove.map (recast r i) := by
  simp only [anyCallMove]
  rw [recast, withCalls, zipIdx_modify, List.findSome?_map, List.map_findSome?]
  congr 1
  funext ⟨call, j⟩
  exact callMove_recast r i j call

theorem move_recast : (w.recast r i).move = w.move.map (recast r i) :=
  move_withCalls (takes_recast r i) (anyCallMove_recast r i) (isOrphaned_recast r i w)

theorem run_recast (n : Nat) : (w.recast r i).run n = (w.run n).recast r i := by
  induction n generalizing w with
  | zero => rfl
  | succ n ih =>
    rw [run, run, move_recast]
    cases w.move with
    | none => rfl
    | some next => exact ih

theorem quiesce_recast : (w.recast r i).quiesce = w.quiesce.recast r i := by
  rw [quiesce, potential_recast, run_recast]
  rfl

theorem beginCalls_recast : (w.recast r i).beginCalls = w.beginCalls.recast r i := by
  rw [beginCalls_eq, beginCalls_eq]
  exact recast_map r i w (r.begun_call w.intake.isSome w.engine.hashrate)

/-- **The gateway settles alike**, whatever the call is about. -/
theorem settle_recast : (w.recast r i).settle = w.settle.recast r i := by
  rw [settle, quiesce_recast, beginCalls_recast, quiesce_recast]
  rfl

theorem fire_recast (owner : Owner) : (w.recast r i).fire owner = (w.fire owner).recast r i := by
  have same : (w.recast r i).engine = w.engine := rfl
  unfold fire
  rw [same]
  split
  · split <;> rfl
  · rfl
  · next j => exact recast_modify r i w r.fall_call j

theorem advance_recast (fuel target : Nat) :
    (w.recast r i).advance fuel target = (w.advance fuel target).recast r i := by
  induction fuel generalizing w with
  | zero => rfl
  | succ fuel ih =>
    have timers : (w.recast r i).timers = w.timers := rfl
    unfold advance
    rw [timers]
    split
    · rfl
    · next timer others _ =>
      have rung := fire_recast r i (w := { w with now := timer.due, timers := others }) timer.owner
      rw [← ih, ← quiesce_recast, ← rung]
      rfl

theorem sleep_recast (duration : Nat) :
    (w.recast r i).sleep duration = (w.sleep duration).recast r i := by
  unfold sleep
  rw [settle_recast]
  exact advance_recast r i _ _

/-! ## Actions -/

theorem makeCall_recast (inside : i < w.calls.length) (errand : Errand) :
    (w.recast r i).makeCall errand = ((w.makeCall errand).1, (w.makeCall errand).2.recast r i) := by
  simp only [makeCall, recast, withCalls, List.length_modify, append_modify inside]

theorem call_recast (inside : i < w.calls.length) (errand : Errand) :
    (w.recast r i).call errand = ((w.call errand).1, (w.call errand).2.recast r i) := by
  have attached : (w.recast r i).attached = w.attached := rfl
  unfold call
  rw [attached, makeCall_recast r i inside]
  split <;> rfl

theorem send_recast (inside : i < w.calls.length) (message : Message) :
    (w.recast r i).send message = ((w.send message).1, (w.send message).2.recast r i) := by
  have same : (w.recast r i).intake = w.intake := rfl
  unfold send
  rw [same]
  split
  · rfl
  next intake _ =>
  split
  · rfl
  rw [waitingFor_recast, makeCall_recast r i inside]
  split
  · have still : Stage.sent.recast r.answer = .sent := rfl
    let posted : World := { (w.makeCall .letter).2 with
      intake := some (intake.put ⟨w.calls.length, message⟩) }
    have sent := setStage_withCalls (carries_recast r i posted.calls w.calls.length still)
    exact Prod.ext rfl sent
  · rfl

theorem release_recast : (w.recast r i).release = w.release.recast r i := by
  unfold release
  rw [isOrphaned_recast]
  split <;> rfl

/-- A call can be sent away as long as its answer was not reported. -/
theorem abort_eq (j : Nat) :
    w.abort j = if w.calls[j]?.map Call.reported = some false
      then (.ok .nothing, ({ w with calls := w.calls.modify j Call.abort } : World).release)
      else (.error .noCall, w) := by
  unfold abort
  cases w.calls[j]? with
  | none => rfl
  | some call =>
    obtain ⟨errand, stage, reported⟩ := call
    cases reported <;> rfl

theorem abort_recast (j : Nat) :
    (w.recast r i).abort j = ((w.abort j).1, (w.abort j).2.recast r i) := by
  have gone : { w.recast r i with calls := (w.recast r i).calls.modify j Call.abort }
      = ({ w with calls := w.calls.modify j Call.abort } : World).recast r i :=
    recast_modify r i w r.abort_call j
  have there : (w.recast r i).calls[j]?.map Call.reported = w.calls[j]?.map Call.reported := by
    simp only [recast, withCalls, List.getElem?_modify]
    cases w.calls[j]? with
    | none => rfl
    | some call => by_cases here : i = j <;> simp [here, Recast.call]
  rw [abort_eq, abort_eq, there, gone, release_recast]
  split <;> rfl

theorem beginShutdown_recast :
    (w.recast r i).beginShutdown = (w.beginShutdown.1.recast r i, w.beginShutdown.2) := by
  obtain ⟨now, engine, intake, attached, calls, timers⟩ := w
  cases engine <;> rfl

theorem shutdown_recast : (w.recast r i).shutdown = (w.shutdown.1, w.shutdown.2.recast r i) := by
  have summary : (w.recast r i).sealerSummary? = w.sealerSummary? := rfl
  unfold shutdown
  rw [summary, beginShutdown_recast]
  split
  · cases w.beginShutdown with
    | mk next waits =>
      cases waits with
      | true => exact Prod.ext rfl (settle_recast r i)
      | false => rfl
  · rfl

theorem letGo_recast (held : Nat) :
    (w.recast r i).letGo held
      = (w.letGo held).map fun (letter, next) => (letter, next.recast r i) := by
  have same : (w.recast r i).engine = w.engine := rfl
  unfold letGo
  rw [same]
  split
  · split <;> rfl
  · rfl

theorem respond_recast (held : Nat) (ruling : Ruling) :
    (w.recast r i).respond held ruling
      = ((w.respond held ruling).1, (w.respond held ruling).2.recast r i) := by
  unfold respond
  rw [letGo_recast]
  cases w.letGo held with
  | none => rfl
  | some found =>
    obtain ⟨letter, next⟩ := found
    have delivered : ∀ reply, (next.recast r i).deliver letter.sender reply
        = (next.deliver letter.sender reply).recast r i :=
      deliver_withCalls (takes_recast r i) next letter.sender
    simp only [Option.map_some, delivered]
    split <;> rfl

theorem dropInbox_recast : (w.recast r i).dropInbox = w.dropInbox.recast r i := by
  have same : (w.recast r i).inbox? = w.inbox? := rfl
  unfold dropInbox
  rw [same]
  split
  · next intake _ _ =>
    exact lose_withCalls (takes_recast r i) intake.letters { w with intake := some intake.abandon }
  · rfl

/-- **An action does the same**, whatever the call is about. -/
theorem perform_recast (inside : i < w.calls.length) (action : Action) :
    (w.recast r i).perform action = ((w.perform action).1, (w.perform action).2.recast r i) := by
  cases action with
  | request request => exact call_recast r i inside _
  | rpc call => exact call_recast r i inside _
  | send message => exact send_recast r i inside message
  | abort j => exact abort_recast r i j
  | shutdown => exact shutdown_recast r i
  | sleep duration => exact Prod.ext rfl (sleep_recast r i duration)
  | dropEngine =>
    exact Prod.ext rfl (release_recast r i (w := { w with attached := false }))
  | respond held ruling => exact respond_recast r i held ruling
  | dropInbox => exact Prod.ext rfl (dropInbox_recast r i)
  | dropHeld held =>
    simp only [perform, letGo_recast]
    cases w.letGo held with
    | none => rfl
    | some found =>
      exact Prod.ext rfl (deliver_withCalls (takes_recast r i) found.2 found.1.sender .lost)
  | watchExit =>
    have same : (w.recast r i).intake = w.intake := rfl
    simp only [perform, same, makeCall_recast r i inside]
    split <;> rfl
  | push task =>
    have same : (w.recast r i).sealerSummary? = w.sealerSummary? := rfl
    have pushed : (w.recast r i).pushTask task = (w.pushTask task).map (recast r i) :=
      pushTask_withCalls w task
    simp only [perform, same, pushed]
    split
    · cases w.pushTask task <;> rfl
    · rfl
  | startDevnet interval =>
    have same : (w.recast r i).sealerSummary? = w.sealerSummary? := rfl
    simp only [perform, same, call_recast r i inside]
    split <;> rfl
  | readHashrate =>
    have same : (w.recast r i).attached = w.attached := rfl
    simp only [perform, same]
    split <;> rfl
  | close =>
    have same : (w.recast r i).engine = w.engine ∧ (w.recast r i).intake = w.intake ∧
        (w.recast r i).sealerSummary? = w.sealerSummary? := ⟨rfl, rfl, rfl⟩
    simp only [perform, close, same]
    split <;> split <;> rfl
  | summarize =>
    have same : (w.recast r i).sealerSummary? = w.sealerSummary? := rfl
    simp only [perform, same]
    split <;> rfl
  | receiveResult =>
    have same : (w.recast r i).engine = w.engine := rfl
    simp only [perform, receiveResult, same]
    split
    · split
      · rfl
      · split <;> rfl
    · rfl
  | dropResults =>
    have same : (w.recast r i).engine = w.engine := rfl
    simp only [perform, dropResults, same]
    split <;> rfl
  | setHashrate rate =>
    have same : (w.recast r i).engine = w.engine ∧ (w.recast r i).attached = w.attached :=
      ⟨rfl, rfl⟩
    simp only [perform, same]
    split <;> rfl
  | take kind =>
    have same : (w.recast r i).inbox? = w.inbox? := rfl
    simp only [perform, take, same]
    split
    · rfl
    · split <;> rfl
  | readSignal =>
    have same : (w.recast r i).inbox? = w.inbox? := rfl
    simp only [perform, same]
    split <;> rfl

/-! ## Sessions -/

theorem unreported_recast :
    (w.recast r i).unreported = w.unreported.map fun (j, answer) => (j, r.reword i j answer) := by
  unfold unreported
  rw [recast, withCalls, zipIdx_modify, List.filterMap_map, List.map_filterMap]
  congr 1
  funext ⟨call, j⟩
  obtain ⟨errand, stage, reported⟩ := call
  by_cases here : i = j
  · cases reported <;> cases stage <;>
      simp [here, Recast.call, Recast.reword, Call.answer?, Stage.recast]
  · cases reported <;> cases stage <;> simp [here, Recast.reword, Call.answer?]

theorem markReported_recast : (w.recast r i).markReported = w.markReported.recast r i :=
  recast_map r i w r.reported_call

theorem step_of_performed {w' : World} {action action' : Action}
    (performed : w'.perform action' = ((w.perform action).1, (w.perform action).2.recast r i))
    (hold : Bool) :
    w'.step hold action' = ((w.step hold action).1.recast r i,
      (w.step hold action).2.recast r i) := by
  cases hold with
  | true =>
    simp only [step, performed, if_true]
    rfl
  | false =>
    simp only [step, performed, settle_recast, unreported_recast,
      markReported_recast, Bool.false_eq_true, if_false]
    rfl

/-- **A step is reported alike**, but for the wording of one answer. -/
theorem step_recast (inside : i < w.calls.length) (hold : Bool) (action : Action) :
    (w.recast r i).step hold action
      = ((w.step hold action).1.recast r i, (w.step hold action).2.recast r i) :=
  step_of_performed r i (perform_recast r i inside action) hold

theorem length_le_step {w w' : World} {e : Event} (step : Step w e w') :
    w.calls.length ≤ w'.calls.length := by
  cases step with
  | move step => exact Nat.le_of_eq (length_move step).symm
  | act step =>
    cases step with
    | make => exact Nat.le_of_lt (by simp [makeCall])
    | post => exact Nat.le_of_lt (by simp [makeCall, setStage])
    | push pushed =>
      obtain ⟨s, -, -, -, rfl⟩ := pushTask_eq_ok pushed
      exact Nat.le_refl _
    | abort | resolve => exact Nat.le_of_eq (List.length_modify ..).symm
    | @drop intake =>
      obtain ⟨-, -, length⟩ := lose_frame intake.letters { w with intake := some intake.abandon }
      exact Nat.le_of_eq length.symm
    | @ring target timer timers =>
      simp only [fire]
      split
      · split <;> exact Nat.le_refl _
      · exact Nat.le_refl _
      · exact Nat.le_of_eq (List.length_modify ..).symm
    | report => exact Nat.le_of_eq (List.length_map ..).symm
    | _ => exact Nat.le_refl _

theorem length_le_run {log : List Event} {w w' : World} (run : w.Run log w') :
    w.calls.length ≤ w'.calls.length := by
  induction run with
  | refl => exact Nat.le_refl _
  | next _ step ih => exact Nat.le_trans ih (length_le_step step)

/-- **A session is reported alike**, but for the wording of one answer, and leads to the same
gateway. -/
theorem play_recast (inside : i < w.calls.length) (actions : List (Bool × Action)) :
    (w.recast r i).play actions = (w.play actions).map (Report.recast r i) ∧
      (w.recast r i).after actions = (w.after actions).recast r i := by
  induction actions generalizing w with
  | nil => exact ⟨rfl, rfl⟩
  | cons step rest ih =>
    obtain ⟨hold, action⟩ := step
    obtain ⟨log, run, -⟩ := exists_run_step w hold action
    obtain ⟨reports, state⟩ := ih (Nat.lt_of_lt_of_le inside (length_le_run run))
    have same := step_recast r i inside hold action
    simp only [play, after, same, List.map_cons, reports, state, and_self]

end World

end MinerGateway
