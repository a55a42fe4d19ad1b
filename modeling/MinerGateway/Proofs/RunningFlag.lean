import MinerGateway.Proofs.AggregateRate

/-!
When the running flag tells the truth.

A sealer says that its worker runs unless the loop ended on the exit signal. A loop that breaks down
at its start is never taken back: the flag stays up over closed channels. So in settled states the
flag means that the channels are consumed exactly when the period of housekeeping is not zero
(`running_flag_truthful_iff`).

Correspondence (what is asked ↔ definition):
  what the sealer says of its worker          ↔ `Engine.isRunning?`
  tasks and letters are still taken           ↔ `Consuming`
  the loop broke down before it did anything  ↔ `Loop.crashed`

`running_flag_over_closed_channels` is a case: a period of zero, the flag up, and a task refused.
-/

namespace MinerGateway

namespace World

/-- The worker consumes its channels: no task is refused, and no letter because its channel is
closed. -/
structure Consuming (w : World) : Prop where
  tasks : ∀ task, ∃ w', w.pushTask task = .ok w'
  letters : ∀ message, (w.send message).1 ≠ .error .closed

variable {settings : EngineSettings} {verifier : Verifier} {w : World} {log : List Event}
  {sealer : Sealer}

theorem consuming_of_running (sound : w.Sound) (settled : w.Settled)
    (engine : w.engine = .sealer sealer) (running : sealer.loop = .running) : w.Consuming := by
  obtain ⟨intake, hi, sound⟩ := sound
  have quiet : w.isSignalled = false := by
    apply Bool.eq_false_iff.mpr
    intro signalled
    exact settled _ _ (.quit ⟨engine, hi, running⟩ ((isSignalled_eq hi).symm.trans signalled))
  have attended : intake.attended = true := (sound.attended_iff sealer engine).mpr running
  constructor
  · intro task
    simp [pushTask, engine, running, quiet]
  · intro message
    simp only [send, hi, attended, Bool.not_true, Bool.false_eq_true, if_false]
    split <;> simp

theorem not_consuming (engine : w.engine = .sealer sealer) (idle : sealer.loop ≠ .running) :
    ¬w.Consuming := by
  intro consuming
  obtain ⟨w', pushed⟩ := consuming.tasks (Devnet.Chain.start.task Sha256.digest)
  obtain ⟨sealer', engine', running, -⟩ := pushTask_eq_ok pushed
  obtain rfl := Engine.sealer.inj (engine.symm.trans engine')
  exact idle running

theorem consuming_iff_running (sound : w.Sound) (settled : w.Settled)
    (engine : w.engine = .sealer sealer) : w.Consuming ↔ sealer.loop = .running := by
  constructor
  · intro consuming
    exact Decidable.byContradiction fun idle => not_consuming engine idle consuming
  · exact consuming_of_running sound settled engine

theorem isRunning_eq_true_iff (engine : w.engine = .sealer sealer) :
    w.engine.isRunning? = some true ↔ sealer.loop ≠ .ended := by
  simp [engine, Engine.isRunning?]

/-- After the start of a sealer without a period of housekeeping, nothing is consumed. -/
theorem not_consuming_of_crashed (run : (started settings verifier).Run log w)
    (broken : settings.cleanupInterval = 0) :
    w.engine.isRunning? = some true ∧ ¬w.Consuming := by
  obtain ⟨sealer, engine, passes⟩ := run.passes_start
  have crashed : sealer.loop = .crashed := by
    have start : (Sealer.start settings verifier).loop = .crashed := by
      simp [Sealer.start, broken]
    rw [passes.loop_of_over (by simp [start]), start]
  refine ⟨(isRunning_eq_true_iff engine).mpr ?_, not_consuming engine ?_⟩
  · simp [crashed]
  · simp [crashed]

/-- **The running flag tells the truth unless the period of housekeeping is zero.** Every session on
a started sealer is a run and settles after each of its actions. In all settled states of all runs
the flag is up just when the worker consumes its channels, if and only if the period is not zero;
with a period of zero the flag is up in every state and the channels are never consumed. -/
theorem running_flag_truthful_iff (settings : EngineSettings) (verifier : Verifier) :
    let start := started settings verifier
    (∀ actions, ∃ log, start.Run log (start.settle.after actions)) ∧
      (∀ log w, start.Run log w → ∀ action, (w.step false action).2.Settled ∧
        ∃ more, w.Run more (w.step false action).2) ∧
      ((∀ log w, start.Run log w → w.Settled →
          (w.engine.isRunning? = some true ↔ w.Consuming)) ↔ settings.cleanupInterval ≠ 0) ∧
      (settings.cleanupInterval = 0 → ∀ log w, start.Run log w →
        w.engine.isRunning? = some true ∧ ¬w.Consuming) := by
  intro start
  refine ⟨?_, ?_, ?_, ?_⟩
  · intro actions
    obtain ⟨log, run, -⟩ := exists_run_session start actions
    exact ⟨log, run⟩
  · intro log w run action
    obtain ⟨more, step, -⟩ := exists_run_step w false action
    exact ⟨settled_step (sound_run run (sound_started ..))
      (run.tracked (tracked_started ..)) action, more, step⟩
  · constructor
    · intro truthful broken
      -- The state that the sealer settles to at its start is already a counterexample.
      have settle : Reaches none start start.settle := reaches_settle start
      obtain ⟨log, run, -⟩ := settle
      obtain ⟨up, idle⟩ := not_consuming_of_crashed run broken
      have settled := settled_settle (sound_started settings verifier)
        (tracked_started settings verifier)
      exact idle ((truthful log _ run settled).mp up)
    · intro ticks log w run settled
      obtain ⟨sealer, engine, passes⟩ := run.passes_start
      have sound : w.Sound := sound_run run (sound_started ..)
      have alive : sealer.loop ≠ .crashed := by
        apply passes.loop_ne_crashed
        simp [Sealer.start, ticks]
      rw [isRunning_eq_true_iff engine, consuming_iff_running sound settled engine]
      cases loop : sealer.loop with
      | crashed => exact absurd loop alive
      | running | ended => simp
  · intro broken log w run
    exact not_consuming_of_crashed run broken

/-- The flag of a sealer whose period of housekeeping is zero is up in a settled state, while a task
and a letter are refused. -/
theorem running_flag_over_closed_channels :
    let w := (started { cleanupInterval := 0 } .acceptAll).settle
    w.Settled ∧ w.engine.isRunning? = some true ∧ (w.send .fetch).1 = .error .closed ∧
      (∀ task, w.pushTask task = .error .stopped) ∧ ¬w.Consuming := by
  intro w
  have settle : Reaches none (started { cleanupInterval := 0 } .acceptAll) w := reaches_settle _
  obtain ⟨log, run, -⟩ := settle
  refine ⟨settled_settle (sound_started ..) (tracked_started ..), rfl, rfl, fun _ => rfl, ?_⟩
  exact (not_consuming_of_crashed run rfl).2

end World

end MinerGateway
