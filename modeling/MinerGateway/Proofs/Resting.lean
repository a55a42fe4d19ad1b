import MinerGateway.Proofs.Settling

/-!
What a gateway at rest looks at.

Whether anything can happen depends on the engine, the channels and how far the calls have come, but
neither on the time nor on what was reported (`Settled.congr`). A gateway is at rest when it has
settled and no timer goes off at this instant.
-/

namespace MinerGateway

namespace World

variable {w w' : World} {log : List Event}

/-- Every timer goes off later. -/
def Ahead (w : World) : Prop := ∀ timer ∈ w.timers, w.now < timer.due

/-- Nothing is left to happen at this instant. -/
structure AtRest (w : World) : Prop where
  settled : w.Settled
  ahead : w.Ahead

theorem pushTask_congr {task : Task} {next : World} (engine : w'.engine = w.engine)
    (intake : w'.intake = w.intake) (h : w.pushTask task = .ok next) :
    ∃ next', w'.pushTask task = .ok next' := by
  obtain ⟨sealer, he, running, quiet, -⟩ := pushTask_eq_ok h
  have quiet' : w'.isSignalled = false := by
    rw [← quiet, isSignalled, isSignalled, intake]
  simp [pushTask, engine, he, running, quiet']

theorem Advances.congr {errand : Errand} {stage stage' : Stage} (h : Advances w errand stage stage')
    (engine : w'.engine = w.engine) (intake : w'.intake = w.intake) :
    Advances w' errand stage stage' := by
  cases h with
  | unsupported hi => exact .unsupported (intake.trans hi)
  | malformed hi hm => exact .malformed (intake.trans hi) hm
  | wait hi hm => exact .wait (intake.trans hi) hm
  | read =>
    rw [← engine]
    exact .read
  | known => exact .known
  | watch => exact .watch
  | broken => exact .broken
  | source hz => exact .source hz
  | refused closed => exact .refused fun i hi => closed i (intake.symm.trans hi)
  | learn => exact .learn
  | exited signalled => exact .exited (by rw [← signalled, isSignalled, isSignalled, intake])
  | stopped other =>
    refine .stopped ?_
    intro interval next he pushed
    obtain ⟨next', pushed'⟩ := pushTask_congr engine.symm intake.symm pushed
    exact other interval next' he pushed'

theorem isHeldByCalls_iff :
    w.isHeldByCalls = true ↔
      ∃ i errand stage, w.view i = some (errand, stage) ∧
        (⟨errand, stage, false⟩ : Call).holdsEngine = true := by
  rw [isHeldByCalls, List.any_eq_true]
  constructor
  · rintro ⟨call, there, holds⟩
    obtain ⟨i, found⟩ := List.mem_iff_getElem?.mp there
    exact ⟨i, call.errand, call.stage, view_eq_some found, holds⟩
  · rintro ⟨i, errand, stage, hv, holds⟩
    obtain ⟨call, found, rfl, rfl⟩ := exists_call hv
    exact ⟨call, List.mem_of_getElem? found, holds⟩

theorem isHeldByCalls_congr (view : ∀ i, w'.view i = w.view i) :
    w'.isHeldByCalls = w.isHeldByCalls := by
  rw [Bool.eq_iff_iff, isHeldByCalls_iff, isHeldByCalls_iff]
  simp only [view]

/-- Neither the time nor what was reported makes anything happen. -/
theorem Settled.congr (settled : w.Settled) (engine : w'.engine = w.engine)
    (intake : w'.intake = w.intake) (attached : w'.attached = w.attached)
    (view : ∀ i, w'.view i = w.view i) : w'.Settled := by
  have working : ∀ sealer intake, w'.Working sealer intake → w.Working sealer intake := by
    intro sealer i h
    exact ⟨engine.symm.trans h.engine, intake.symm.trans h.intake, h.loop⟩
  intro e next step
  cases step with
  | advance found h =>
    obtain ⟨call, found', errand, stage⟩ := exists_call ((view _).symm.trans (view_eq_some found))
    rw [← errand, ← stage] at h
    exact settled _ _ (.advance found' (Advances.congr h engine.symm intake.symm))
  | enter found h hi quiet attended room =>
    obtain ⟨call, found', -, stage⟩ := exists_call ((view _).symm.trans (view_eq_some found))
    exact settled _ _ (.enter found' (stage.trans h) (intake.symm.trans hi) quiet attended room)
  | produce found h errand pushed =>
    obtain ⟨call, found', errand', stage⟩ := exists_call ((view _).symm.trans (view_eq_some found))
    obtain ⟨next', pushed'⟩ := pushTask_congr engine.symm intake.symm pushed
    exact settled _ _ (.produce found' (stage.trans h) (errand'.trans errand) pushed')
  | quit h signalled => exact settled _ _ (.quit (working _ _ h) signalled)
  | handle h quiet queue => exact settled _ _ (.handle (working _ _ h) quiet queue)
  | serve h quiet queue next => exact settled _ _ (.serve (working _ _ h) quiet queue next)
  | clean h quiet queue next due => exact settled _ _ (.clean (working _ _ h) quiet queue next due)
  | release orphaned quiet =>
    have orphaned' : w.isOrphaned = true := by
      rw [← orphaned, isOrphaned, isOrphaned, engine, attached, isHeldByCalls_congr view]
    have quiet' : w.isSignalled = false := by
      rw [← quiet, isSignalled, isSignalled, intake]
    exact settled _ _ (.release orphaned' quiet')

theorem Settled.markReported (settled : w.Settled) : w.markReported.Settled :=
  settled.congr rfl rfl rfl (view_markReported w)

theorem AtRest.markReported (h : w.AtRest) : w.markReported.AtRest :=
  ⟨h.settled.markReported, h.ahead⟩

theorem settled_step (sound : w.Sound) (tracked : w.Tracked log) (action : Action) :
    (w.step false action).2.Settled := by
  obtain ⟨more, run, -⟩ := reaches_perform w action
  have settled : (w.perform action).2.settle.Settled :=
    settled_settle (sound_run run sound) (run.tracked_from tracked)
  rw [step_snd]
  exact settled.markReported

theorem settled_session (sound : w.Sound) (tracked : w.Tracked log) (actions : List (Bool × Action))
    (awaited : ∀ action, actions.getLast? ≠ some (true, action)) :
    (w.settle.after actions).Settled := by
  have settle : Reaches none w w.settle := reaches_settle w
  obtain ⟨settling, run, -⟩ := settle
  rcases List.eq_nil_or_concat actions with rfl | ⟨front, ⟨hold, action⟩, rfl⟩
  · exact settled_settle sound tracked
  rw [List.concat_eq_append] at awaited ⊢
  rw [after_append]
  cases hold with
  | true => exact absurd List.getLast?_concat (awaited action)
  | false =>
    obtain ⟨more, run', -⟩ := exists_run_after w.settle front
    have whole := run.trans run'
    exact settled_step (sound_run whole sound) (whole.tracked_from tracked) action

theorem Settled.begun (settled : w.Settled) (tracked : w.Tracked log) : w.Begun := by
  intro i errand hv
  obtain ⟨call, found, rfl, made⟩ := exists_call hv
  have letter : call.errand ≠ .letter := by
    intro letter
    exact tracked.letterless i (letter ▸ hv)
  obtain ⟨e, step⟩ := begin_move found made letter
  exact settled _ _ step

end World

end MinerGateway
