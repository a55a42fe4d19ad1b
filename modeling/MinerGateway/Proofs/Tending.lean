import MinerGateway.Proofs.Attending
import MinerGateway.Proofs.Timers

/-!
Sessions in which a sealer is held throughout and no synthetic work is produced.

Without letting the engine go and without starting a source of synthetic work, a session leaves a
sealer as it should be (`Tended`): held from outside, and with callers that wait for the worker
alone. Every action keeps it so (`Tended.perform`), and so does settling; in between it comes to
rest at the forecast (`Tended.settle_eq`).
-/

namespace MinerGateway

/-- The action neither lets the engine go nor starts a source of synthetic work. -/
def Action.tame : Action → Bool
  | .startDevnet _ | .dropEngine => false
  | _ => true

namespace World

def errands (w : World) : List Errand := w.calls.map Call.errand

/-- No call is a source of synthetic work. -/
def Sourceless (w : World) : Prop := ∀ interval, .devnet interval ∉ w.errands

/-- A sealer that is held from outside and has no source of synthetic work. -/
structure Tended (w : World) : Prop where
  attended : w.Attended
  sourceless : w.Sourceless

/-- The engine is held as before, and no source of synthetic work was added. -/
structure Keeps (w w' : World) : Prop where
  attached : w'.attached = w.attached
  errands : ∃ new, w'.errands = w.errands ++ new ∧ ∀ interval, .devnet interval ∉ new

variable {w w' : World} {e : Event}

namespace Keeps

theorem of_errands (attached : w'.attached = w.attached) (errands : w'.errands = w.errands) :
    Keeps w w' :=
  ⟨attached, [], by rw [errands, List.append_nil], fun _ => List.not_mem_nil⟩

theorem refl (w : World) : Keeps w w := of_errands rfl rfl

theorem trans {a b c : World} (h : Keeps a b) (h' : Keeps b c) : Keeps a c := by
  obtain ⟨attached, new, errands, none⟩ := h
  obtain ⟨attached', new', errands', none'⟩ := h'
  refine ⟨attached'.trans attached, new ++ new', ?_, ?_⟩
  · rw [errands', errands, List.append_assoc]
  · intro interval there
    rcases List.mem_append.mp there with there | there
    · exact none interval there
    · exact none' interval there

theorem sourceless (h : Keeps w w') (sourceless : w.Sourceless) : w'.Sourceless := by
  obtain ⟨-, new, errands, none⟩ := h
  intro interval there
  rw [errands] at there
  rcases List.mem_append.mp there with there | there
  · exact sourceless interval there
  · exact none interval there

end Keeps

/-! ## What happens by itself -/

theorem errands_setStage (w : World) (i : Nat) (stage : Stage) :
    (w.setStage i stage).errands = w.errands :=
  map_modify_eq (f := fun call : Call => { call with stage })
    (g := Call.errand) (fun _ => rfl) w.calls i

theorem errands_deliver (w : World) (i : Nat) (reply : Reply) :
    (w.deliver i reply).errands = w.errands :=
  map_modify_eq (receive_errand reply) w.calls i

theorem errands_lose (letters : List Letter) (w : World) :
    (w.lose letters).errands = w.errands := by
  induction letters generalizing w with
  | nil => rfl
  | cons letter rest ih => exact (ih (w.deliver letter.sender .lost)).trans (errands_deliver ..)

theorem keeps_move (step : Move w e w') : Keeps w w' := by
  apply Keeps.of_errands (attached_move step)
  cases step with
  | advance => exact errands_setStage ..
  | @enter i call message intake =>
    exact errands_setStage { w with intake := some (intake.put ⟨i, message⟩) } i .sent
  | @produce w' i interval call chain _ _ _ pushed =>
    obtain ⟨s, -, -, -, rfl⟩ := pushTask_eq_ok pushed
    exact errands_setStage _ i (.producing (chain.advance Sha256.digest) false)
  | @quit s intake =>
    exact errands_lose intake.letters { w with
      engine := .sealer s.exit, intake := some intake.abandon }
  | @serve s intake rest letter =>
    exact errands_deliver { w with
      engine := .sealer (s.serve w.now letter.message).1, intake := some rest } letter.sender _
  | handle | clean | release => rfl

theorem keeps_run (n : Nat) (w : World) : Keeps w (w.run n) := by
  refine run_preserves (P := Keeps w) ?_ n (.refl w)
  intro v v' turn kept
  obtain ⟨e, step⟩ := move_move turn
  exact kept.trans (keeps_move step)

theorem keeps_beginCalls (w : World) : Keeps w w.beginCalls := by
  rw [beginCalls_eq]
  apply Keeps.of_errands
  · rfl
  · simp only [errands, List.map_map]
    exact List.map_congr_left fun call _ => Call.begun_errand _ _ call

theorem keeps_settle (w : World) : Keeps w w.settle :=
  (keeps_run _ w).trans ((keeps_beginCalls _).trans (keeps_run _ _))

theorem keeps_fire (w : World) (owner : Owner) : Keeps w (w.fire owner) := by
  unfold fire
  split
  · split
    · exact .of_errands rfl rfl
    · exact .refl w
  · exact .refl w
  · refine .of_errands rfl (map_modify_eq ?_ _ _)
    intro call
    unfold Call.fall
    split <;> rfl

theorem keeps_advance (fuel target : Nat) (w : World) : Keeps w (w.advance fuel target) := by
  induction fuel generalizing w with
  | zero => exact .of_errands rfl rfl
  | succ fuel ih =>
    unfold advance
    split
    · exact .of_errands rfl rfl
    · next timer timers _ =>
      have passed : Keeps w { w with now := timer.due, timers } := .of_errands rfl rfl
      exact passed.trans ((keeps_fire _ timer.owner).trans ((keeps_run _ _).trans (ih _)))

theorem keeps_sleep (w : World) (duration : Nat) : Keeps w (w.sleep duration) :=
  (keeps_settle w).trans (keeps_advance _ _ _)

/-! ## Actions -/

theorem keeps_makeCall (w : World) {errand : Errand}
    (sober : ∀ interval, errand ≠ .devnet interval) :
    Keeps w (w.makeCall errand).2 := by
  refine ⟨rfl, [errand], List.map_append, ?_⟩
  intro interval there
  exact sober interval (List.mem_singleton.mp there).symm

theorem keeps_call (w : World) {errand : Errand} (sober : ∀ interval, errand ≠ .devnet interval) :
    Keeps w (w.call errand).2 := by
  unfold call
  split
  · exact keeps_makeCall w sober
  · exact .refl w

theorem ofRpc_ne_devnet (call : Option Rpc.Call) (interval : Nat) :
    Errand.ofRpc call ≠ .devnet interval := by
  unfold Errand.ofRpc
  split
  · simp
  · split <;> simp

theorem keeps_send (w : World) (message : Message) : Keeps w (w.send message).2 := by
  unfold send
  split
  · exact .refl w
  next intake _ =>
  split
  · exact .refl w
  split
  · have made : Keeps w (w.makeCall .letter).2 := keeps_makeCall w (by simp)
    refine made.trans (.of_errands rfl ?_)
    exact errands_setStage { (w.makeCall .letter).2 with
      intake := some (intake.put ⟨w.calls.length, message⟩) } _ .sent
  · exact .refl w

theorem release_of_attached (attached : w.attached = true) : w.release = w := by
  have held : w.isOrphaned = false := by
    unfold isOrphaned
    split
    · simp [attached]
    · rfl
  simp [release, held]

theorem keeps_release (w : World) : Keeps w w.release := by
  unfold release
  split
  · exact .of_errands rfl rfl
  · exact .refl w

theorem keeps_abort (w : World) (i : Nat) : Keeps w (w.abort i).2 := by
  unfold abort
  split
  · have gone : Keeps w { w with calls := w.calls.modify i Call.abort } := by
      refine .of_errands rfl (map_modify_eq ?_ w.calls i)
      intro call
      unfold Call.abort
      split <;> rfl
    exact gone.trans (keeps_release _)
  · exact .refl w

theorem keeps_close (w : World) : Keeps w w.close.2 := by
  unfold close
  split <;> split <;> exact .of_errands rfl rfl

theorem keeps_beginShutdown (w : World) : Keeps w w.beginShutdown.1 := by
  unfold beginShutdown
  split <;> exact .of_errands rfl rfl

theorem keeps_shutdown (w : World) : Keeps w w.shutdown.2 := by
  have begun : Keeps w w.beginShutdown.1 := keeps_beginShutdown w
  unfold shutdown
  split
  · split
    · next next h =>
      rw [h] at begun
      exact begun.trans (keeps_settle next)
    · next next h =>
      rw [h] at begun
      exact begun
  · exact .refl w

theorem keeps_perform (w : World) {action : Action} (tame : action.tame = true) :
    Keeps w (w.perform action).2 := by
  cases action with
  | request request => exact keeps_call w (by simp)
  | rpc call => exact keeps_call w (ofRpc_ne_devnet call)
  | send message => exact keeps_send w message
  | watchExit =>
    simp only [perform]
    split
    · exact keeps_makeCall w (by simp)
    · exact .refl w
  | abort i => exact keeps_abort w i
  | push task =>
    simp only [perform]
    split
    · split
      · next pushed =>
        obtain ⟨s, -, -, -, rfl⟩ := pushTask_eq_ok pushed
        exact .of_errands rfl rfl
      · exact .refl w
    · exact .refl w
  | startDevnet | dropEngine => cases tame
  | close => exact keeps_close w
  | shutdown => exact keeps_shutdown w
  | receiveResult =>
    simp only [perform, receiveResult]
    split
    · split
      · exact .refl w
      · split <;> exact .of_errands rfl rfl
    · exact .refl w
  | dropResults =>
    simp only [perform, dropResults]
    split <;> exact .of_errands rfl rfl
  | take kind =>
    simp only [perform, take]
    split
    · exact .refl w
    · split <;> exact .of_errands rfl rfl
  | respond held ruling =>
    simp only [perform, respond]
    split
    · exact .refl w
    next letter next gone =>
    obtain ⟨script, -, -, rfl⟩ := letGo_eq_some gone
    split <;> exact .of_errands rfl (errands_deliver _ _ _)
  | dropHeld held =>
    simp only [perform]
    split
    · next letter next gone =>
      obtain ⟨script, -, -, rfl⟩ := letGo_eq_some gone
      exact .of_errands rfl (errands_deliver _ _ _)
    · exact .refl w
  | dropInbox =>
    simp only [perform, dropInbox]
    split
    · next intake _ _ =>
      exact .of_errands (lose_attached _ _)
        (errands_lose intake.letters { w with intake := some intake.abandon })
    · exact .refl w
  | sleep duration => exact keeps_sleep w duration
  | readHashrate | summarize | setHashrate | readSignal =>
    simp only [perform]
    split <;> exact .of_errands rfl rfl

/-! ## Sessions -/

/-- Without a source, no synthetic work is due, and none begins. -/
theorem Sourceless.sober (h : w.Sourceless) : w.Sober := by
  intro i interval made
  obtain ⟨call, found, errand, -⟩ := exists_call made
  exact h interval (List.mem_map.mpr ⟨call, List.mem_of_getElem? found, errand⟩)

theorem Sourceless.noneDue {log : List Event} (h : w.Sourceless) (tracked : w.Tracked log) :
    w.NoneDue := by
  intro i errand chain due
  obtain ⟨call, found, same, -⟩ := exists_call due
  obtain ⟨place, -, life⟩ := tracked.life due
  obtain ⟨interval, rfl⟩ := life.errand_of_alone.2 chain true rfl
  exact h interval (List.mem_map.mpr ⟨call, List.mem_of_getElem? found, same⟩)

namespace Tended

theorem of_run {more : List Event} (h : w.Tended) (run : w.Run more w') (keeps : Keeps w w') :
    w'.Tended := by
  have sourceless : w'.Sourceless := keeps.sourceless h.sourceless
  obtain ⟨log, tracked⟩ := h.attended.tracked
  refine ⟨h.attended.of_run run ?_ ?_, sourceless⟩
  · rw [keeps.attached, h.attended.attached]
  · exact sourceless.noneDue (run.tracked_from tracked)

theorem started (settings : EngineSettings) (verifier : Verifier) :
    (started settings verifier).Tended := by
  have sourceless : (World.started settings verifier).Sourceless := fun _ => List.not_mem_nil
  exact ⟨⟨sound_started .., ⟨[], tracked_started ..⟩, rfl, ⟨_, rfl⟩,
    sourceless.noneDue (tracked_started ..)⟩, sourceless⟩

theorem settle (h : w.Tended) : w.settle.Tended := by
  have settles : Reaches none w w.settle := reaches_settle w
  obtain ⟨more, run, -⟩ := settles
  exact h.of_run run (keeps_settle w)

theorem quiesce (h : w.Tended) : w.quiesce.Tended := by
  have quiet : Reaches none w w.quiesce := reaches_run _ w
  obtain ⟨more, run, -⟩ := quiet
  exact h.of_run run (keeps_run _ w)

theorem perform (h : w.Tended) {action : Action} (tame : action.tame = true) :
    (w.perform action).2.Tended := by
  obtain ⟨more, run, -⟩ := reaches_perform w action
  exact h.of_run run (keeps_perform w tame)

theorem beginShutdown (h : w.Tended) : w.beginShutdown.1.Tended := by
  have begun : Within none w w.beginShutdown.1 := reachesBy_beginShutdown instant_still w
  obtain ⟨more, run, -⟩ := begun.reaches
  exact h.of_run run (keeps_beginShutdown w)

theorem ring (h : w.Tended) {target : Nat} {timer : Timer} {others : List Timer}
    (next : nextTimer target w.timers = some (timer, others)) : (w.rung timer others).Tended := by
  have passed : Keeps w { w with now := timer.due, timers := others } := .of_errands rfl rfl
  exact h.of_run (.single (.act (.ring next))) (passed.trans (keeps_fire _ timer.owner))

theorem markReported (h : w.Tended) : w.markReported.Tended := by
  refine h.of_run (.single (.act .report)) (.of_errands rfl ?_)
  simp only [errands, World.markReported, List.map_map]
  rfl

theorem step (h : w.Tended) (hold : Bool) {action : Action} (tame : action.tame = true) :
    (w.step hold action).2.Tended := by
  cases hold with
  | true => exact h.perform tame
  | false => exact (h.perform tame).settle.markReported

/-- **A sealer that is tended settles to what is foreseen.** -/
theorem settle_eq (h : w.Tended) : w.settle = w.forecast.beginCalls.forecast :=
  settle_eq_forecast h.attended h.sourceless.sober

end Tended

end World

end MinerGateway
