import MinerGateway.Proofs.Timers
import Mathlib.Data.List.Induction

/-!
Sessions on a started sealer are punctual.

A timer that goes off lowers the backlog, and what it sets off comes to an end (`punctual_ring`). So
the fuel of `advance` is enough, and time is passed only when the gateway has settled and only up to
the next timer (`punctual_advance`). After a sleep, and after every action that is not held back,
the gateway is at rest (`punctual_session`).
-/

namespace MinerGateway.World

variable {w : World} {log : List Event} {target : Nat} {timer : Timer} {others : List Timer}

theorem dues_fire_le (w : World) (owner : Owner) : (w.fire owner).dues ≤ w.dues + 1 := by
  have calls : ∀ i, (w.calls.modify i Call.fall).countP Call.isDue
      ≤ w.calls.countP Call.isDue + 1 := by
    intro i
    cases found : w.calls[i]? with
    | none =>
      rw [List.modify_eq_self (List.getElem?_eq_none_iff.mp found)]
      exact Nat.le_succ _
    | some call =>
      have counted := countP_modify Call.isDue Call.fall found
      split at counted <;> split at counted <;> omega
  unfold fire
  split
  · next sealer engine =>
    split
    · simp only [dues, Engine.dues, if_true]
      omega
    · exact Nat.le_succ _
  · exact Nat.le_succ _
  · next i =>
    have := calls i
    simp only [dues]
    omega

theorem Begun.fire (h : w.Begun) (owner : Owner) : (w.fire owner).Begun := by
  unfold World.fire
  split
  · split <;> exact h
  · exact h
  · next i =>
    intro j errand hv
    obtain ⟨call, found, rfl, made⟩ := exists_call hv
    rw [List.getElem?_modify] at found
    obtain ⟨call', found', same⟩ := Option.map_eq_some_iff.mp found
    refine h j call'.errand ?_
    rw [view_eq_some found']
    -- A call that falls due has begun already.
    have before : call'.stage = .made := by
      split at same
      · rw [← same] at made
        obtain ⟨errand, stage, reported⟩ := call'
        cases stage <;> first | rfl | cases made
      · rw [← made, ← same]
    rw [before]

section

variable {settings : EngineSettings} {verifier : Verifier} {leaver : Option Nat}

/-- Time passes up to a time before which no timer goes off. -/
theorem punctual_pass (settled : w.Settled) (le : w.now ≤ target)
    (later : ∀ timer ∈ w.timers, target < timer.due) :
    ReachesBy Punctual leaver w { w with now := target } ∧
    ({ w with now := target } : World).AtRest := by
  refine ⟨.of_act .pass trivial (.inr ⟨settled, le, ?_⟩),
    settled.congr rfl rfl rfl fun _ => rfl, later⟩
  intro timer there
  exact Nat.le_of_lt (later timer there)

/-- The gateway has settled on its way to a time, and no timer is past. -/
structure Armed (w : World) (target : Nat) : Prop where
  settled : w.Settled
  timers : ∀ timer ∈ w.timers, w.now ≤ timer.due
  le : w.now ≤ target

/-- A timer that goes off is gone, and makes one thing due at most. -/
theorem backlog_rung_lt (settled : w.Settled) (sound : w.Sound)
    (next : nextTimer target w.timers = some (timer, others)) :
    (w.rung timer others).backlog target < w.backlog target := by
  obtain ⟨perm, due, -⟩ := nextTimer_eq_some next
  obtain ⟨now, timers⟩ := w.rung_clock timer others
  have dues : (w.rung timer others).dues ≤ 1 := by
    have fired := dues_fire_le { w with now := timer.due, timers := others } timer.owner
    have before : w.dues = 0 := settled.dues_eq_zero sound
    exact Nat.le_trans fired (Nat.le_of_eq (congrArg (· + 1) before))
  have passed := Nat.mul_le_mul_right (target - timer.due) dues
  have bound : w.timerBound target
      = target + 1 - timer.due + (w.rung timer others).timerBound target :=
    timerBound_of_perm (timers.symm ▸ perm)
  rw [backlog, backlog, bound, now]
  omega

/-- **Time passes punctually up to a timer**, and what it sets off comes to an end. -/
theorem punctual_ring (run : (started settings verifier).Run log w)
    (ticks : 0 < settings.cleanupInterval) (armed : w.Armed target)
    (next : nextTimer target w.timers = some (timer, others)) :
    ReachesBy Punctual leaver w (w.rung timer others).quiesce ∧
      (w.rung timer others).quiesce.Armed target ∧
      (w.rung timer others).quiesce.backlog target < w.backlog target := by
  obtain ⟨perm, due, least⟩ := nextTimer_eq_some next
  have less := backlog_rung_lt armed.settled (sound_run run (sound_started ..)) next
  have begun : (w.rung timer others).Begun := by
    have before : ({ w with now := timer.due, timers := others } : World).Begun :=
      armed.settled.begun (run.tracked (tracked_started ..))
    exact before.fire timer.owner
  have ring : Act w .other (w.rung timer others) := .ring next
  obtain ⟨now, timers⟩ := w.rung_clock timer others
  generalize w.rung timer others = u at less begun ring now timers
  have run' := run.next (.act ring)
  have quiet : Within leaver u u.quiesce := within_run _ _
  obtain ⟨more, still, -⟩ := id quiet
  obtain ⟨now', set⟩ := mem_timers_still run' ticks still
  obtain ⟨n, moves⟩ := moves_run u.potential u
  have passed : ReachesBy Punctual leaver w u := by
    refine .of_act ring trivial (.inr ⟨armed.settled, ?_, ?_⟩)
    · rw [now]
      exact armed.timers timer (perm.mem_iff.mpr List.mem_cons_self)
    · rw [now]
      exact least
  refine ⟨passed.trans quiet.punctual, ⟨?_, ?_, ?_⟩,
    Nat.lt_of_le_of_lt (backlog_moves run' ticks begun moves) less⟩
  · apply settled_of_move_eq_none
      (move_run_eq_none _ (sound_run run' (sound_started ..)) (Nat.le_refl _))
    intro i call found made
    exact begun.of_moves moves i call.errand (made ▸ view_eq_some found)
  · intro other there
    rw [now', now]
    rcases set other there with there | later
    · rw [timers] at there
      exact least other (perm.mem_iff.mpr (List.mem_cons_of_mem _ there))
    · exact Nat.le_of_lt (now ▸ later)
  · rw [now', now]
    exact due

/-- **The fuel of `advance` is enough**, and the time it passes is passed punctually. -/
theorem punctual_advance (fuel : Nat) (run : (started settings verifier).Run log w)
    (ticks : 0 < settings.cleanupInterval) (armed : w.Armed target)
    (enough : w.backlog target ≤ fuel) :
    ReachesBy Punctual leaver w (w.advance fuel target) ∧ (w.advance fuel target).AtRest := by
  -- By the fuel: each timer that goes off lowers the backlog.
  induction fuel generalizing w log with
  | zero =>
    refine punctual_pass armed.settled armed.le ?_
    intro timer there
    have share : target + 1 - timer.due ≤ w.timerBound target := le_timerBound there
    rw [backlog] at enough
    omega
  | succ fuel ih =>
    unfold advance
    split
    · next none => exact punctual_pass armed.settled armed.le (nextTimer_eq_none none)
    · next timer others some =>
      obtain ⟨passed, armed', less⟩ := punctual_ring run ticks armed some
      obtain ⟨more, run', -⟩ := id passed
      obtain ⟨rest, atRest⟩ := ih (run.trans run'.run) armed' (by omega)
      exact ⟨passed.trans rest, atRest⟩

theorem punctual_sleep (run : (started settings verifier).Run log w)
    (ticks : 0 < settings.cleanupInterval) (ahead : w.Ahead) (duration : Nat) :
    ReachesBy Punctual leaver w (w.sleep duration) ∧ (w.sleep duration).AtRest := by
  have settling : Within leaver w w.settle := within_settle w
  obtain ⟨more, still, -⟩ := id settling
  have run' := run.trans still.run
  have settled : w.settle.Settled :=
    settled_settle (sound_run run (sound_started ..)) (run.tracked (tracked_started ..))
  have later : w.settle.Ahead := ahead.still run ticks still
  have enough : w.settle.backlog (w.settle.now + duration)
      ≤ w.settle.timerBound (w.settle.now + duration) := by
    rw [backlog, settled.dues_eq_zero (sound_run run' (sound_started ..))]
    omega
  have armed : w.settle.Armed (w.settle.now + duration) :=
    ⟨settled, fun timer there => Nat.le_of_lt (later timer there), Nat.le_add_right ..⟩
  obtain ⟨passed, rest⟩ := punctual_advance _ run' ticks armed enough
  exact ⟨settling.punctual.trans passed, rest⟩

/-! ## Sessions -/

theorem punctual_perform (run : (started settings verifier).Run log w)
    (ticks : 0 < settings.cleanupInterval) (ahead : w.Ahead) (action : Action) :
    ReachesBy Punctual action.leaver w (w.perform action).2 ∧ (w.perform action).2.Ahead := by
  by_cases asleep : ∃ duration, action = .sleep duration
  · obtain ⟨duration, rfl⟩ := asleep
    obtain ⟨passed, rest⟩ := punctual_sleep run ticks ahead duration
    rw [perform_sleep]
    exact ⟨passed, rest.ahead⟩
  · have acted := within_perform w action (not_exists.mp asleep)
    obtain ⟨more, still, -⟩ := id acted
    exact ⟨acted.punctual, ahead.still run ticks still⟩

theorem atRest_settle (run : (started settings verifier).Run log w)
    (ticks : 0 < settings.cleanupInterval) (ahead : w.Ahead) :
    w.settle.AtRest := by
  have settling : Within none w w.settle := within_settle w
  obtain ⟨more, still, -⟩ := settling
  exact ⟨settled_settle (sound_run run (sound_started ..)) (run.tracked (tracked_started ..)),
    ahead.still run ticks still⟩

theorem punctual_report (w : World) : w.RunBy Punctual [.reported] w.markReported :=
  .single (.act .report) (.inl rfl)

theorem punctual_step (run : (started settings verifier).Run log w)
    (ticks : 0 < settings.cleanupInterval) (ahead : w.Ahead) (hold : Bool) (action : Action) :
    (∃ more, w.RunBy Punctual more (w.step hold action).2) ∧ (w.step hold action).2.Ahead ∧
      (hold = false → (w.step hold action).2.AtRest) := by
  obtain ⟨⟨more, passed, -⟩, later⟩ := punctual_perform run ticks ahead action
  cases hold with
  | true =>
    rw [step_held]
    exact ⟨⟨more, passed⟩, later, by simp⟩
  | false =>
    have settling : Within none _ (w.perform action).2.settle := within_settle _
    obtain ⟨settle, still, -⟩ := settling
    have rest := (atRest_settle (run.trans passed.run) ticks later).markReported
    rw [step_snd]
    exact ⟨⟨_, (passed.trans still.punctual).trans (punctual_report _)⟩, rest.ahead, fun _ => rest⟩

/-- **Sessions are punctual.** After any session the gateway has come where it is by a punctual run,
and it is at rest unless the last action was held back. -/
theorem punctual_session (settings : EngineSettings) (verifier : Verifier)
    (ticks : 0 < settings.cleanupInterval) (actions : List (Bool × Action)) :
    (∃ log, (started settings verifier).RunBy Punctual log
        ((started settings verifier).settle.after actions)) ∧
      ((started settings verifier).settle.after actions).Ahead ∧
      ((∀ action, actions.getLast? ≠ some (true, action)) →
        ((started settings verifier).settle.after actions).AtRest) := by
  -- On the actions from the last one: each step adds to the run of those before.
  induction actions using List.reverseRecOn with
  | nil =>
    have settling : Within none _ (started settings verifier).settle := within_settle _
    obtain ⟨log, still, -⟩ := settling
    have rest : (started settings verifier).settle.AtRest :=
      atRest_settle .refl ticks (by simp [Ahead, started])
    exact ⟨⟨log, still.punctual⟩, rest.ahead, fun _ => rest⟩
  | append_singleton front last ih =>
    obtain ⟨⟨log, run⟩, ahead, -⟩ := ih
    obtain ⟨hold, action⟩ := last
    obtain ⟨⟨more, step⟩, ahead', rest⟩ := punctual_step run.run ticks ahead hold action
    have whole := run.trans step
    have last (w : World) : w.after [(hold, action)] = (w.step hold action).2 := rfl
    rw [after_append, last]
    refine ⟨⟨_, whole⟩, ahead', ?_⟩
    intro last
    apply rest
    cases hold with
    | false => rfl
    | true => exact absurd (by simp) (last action)

end

end MinerGateway.World
