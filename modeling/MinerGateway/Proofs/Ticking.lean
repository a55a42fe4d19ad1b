import MinerGateway.Proofs.StandingRates
import MinerGateway.Proofs.Timers

/-!
When housekeeping happens.

Along a punctual run the times at which the worker looks at the clock never fall (`sorted_times`),
and while its loop runs the cleanups come at the multiples of the interval and miss none of them:
either housekeeping is due now, which is at a multiple, or one timer of the worker is set, for one
interval after the last cleanup (`Ticking`, kept by `ticking_step`). At rest, the last cleanup was
at the last multiple (`Ticking.lastSweep_eq`).

What is assumed: time passes only when nothing else can happen, and not past a timer (`Punctual`).
Without it a cleanup could be late by any time, and the next one would be late with it.
-/

namespace MinerGateway.World

variable {w w' : World} {e : Event} {log : List Event} {s s' : Sealer} {interval last : Nat}

/-! ## The order of times -/

theorem Punctual.le (h : Punctual w w') : w.now ≤ w'.now := by
  rcases h with same | ⟨-, le, -⟩
  · exact Nat.le_of_eq same.symm
  · exact le

theorem time_eq_of_step (step : Step w e w') {t : Nat} (h : e.time? = some t) : t = w.now := by
  cases step with
  | move step =>
    cases step with
    | @advance i call stage => cases stage <;> cases h
    | serve | clean => exact (Option.some.inj h).symm
    | _ => cases h
  | act step => cases step <;> cases h

theorem sorted_times {start : World} (run : start.RunBy Punctual log w) :
    (times log ++ [w.now]).Pairwise (· ≤ ·) := by
  induction run with
  | refl => exact List.pairwise_singleton _ _
  | @next log w w' e _ step fine ih =>
    obtain ⟨sorted, -, past⟩ := List.pairwise_append.mp ih
    have past : ∀ t ∈ times log, t ≤ w.now := fun t there => past t there _ List.mem_cons_self
    have named : ∀ t ∈ e.time?.toList, t = w.now := by
      intro t there
      exact time_eq_of_step step (Option.mem_toList.mp there)
    rw [times_concat]
    refine List.pairwise_append.mpr ⟨List.pairwise_append.mpr ⟨sorted, ?_, ?_⟩,
      List.pairwise_singleton _ _, ?_⟩
    · cases e.time? <;> simp
    · intro t there t' there'
      rw [named t' there']
      exact past t there
    · intro t there t' there'
      rw [List.mem_singleton.mp there']
      rcases List.mem_append.mp there with there | there
      · exact Nat.le_trans (past t there) fine.le
      · exact named t there ▸ fine.le

/-! ## Housekeeping -/

def workerTimers (w : World) : List Timer := w.timers.filter (·.owner = .worker)

/-- How housekeeping stands in front of a running loop, `last` being the time of the last cleanup.
-/
inductive Ticking (w : World) (s : Sealer) (interval last : Nat) : Prop where
  | due (due : s.cleanupDue = true) (unset : w.workerTimers = []) (tick : interval ∣ w.now)
  | set (done : s.cleanupDue = false) (timer : w.workerTimers = [⟨last + interval, .worker⟩])
    (tick : interval ∣ last) (past : last ≤ w.now) (ahead : w.now ≤ last + interval)

theorem Settled.cleanupDue_eq_false (settled : w.Settled) (sound : w.Sound)
    (engine : w.engine = .sealer s) : s.cleanupDue = false := by
  have none := settled.dues_eq_zero sound
  rw [dues, engine, Engine.dues] at none
  split at none
  · omega
  · next idle => exact Bool.eq_false_iff.mpr idle

theorem mem_timers_of_workerTimers {timer : Timer} (h : w.workerTimers = [timer]) :
    timer ∈ w.timers := by
  have there : timer ∈ w.workerTimers := h ▸ List.mem_cons_self
  exact (List.mem_filter.mp there).1

namespace Ticking

theorem frame (h : w.Ticking s interval last) (due : s'.cleanupDue = s.cleanupDue)
    (timers : w'.workerTimers = w.workerTimers) (now : w'.now = w.now) :
    w'.Ticking s' interval last := by
  cases h with
  | due isDue unset tick => exact .due (due.trans isDue) (timers.trans unset) (now.symm ▸ tick)
  | set done timer tick past ahead =>
    exact .set (due.trans done) (timers.trans timer) tick (now.symm ▸ past) (now.symm ▸ ahead)

theorem passes (h : w.Ticking s interval last) (engine : w.engine = .sealer s) (sound : w.Sound)
    (punctual : Punctual w w') :
    w'.now = w.now ∨
      (s.cleanupDue = false ∧ w.now ≤ w'.now ∧ w'.now ≤ last + interval) := by
  rcases punctual with same | ⟨settled, le, upTo⟩
  · exact .inl same
  cases h with
  | due due _ _ =>
    rw [settled.cleanupDue_eq_false sound engine] at due
    cases due
  | set done timer _ _ _ =>
    exact .inr ⟨done, le, upTo _ (mem_timers_of_workerTimers timer)⟩

theorem pass (h : w.Ticking s interval last) (engine : w.engine = .sealer s) (sound : w.Sound)
    (punctual : Punctual w w') (due : s'.cleanupDue = s.cleanupDue)
    (timers : w'.workerTimers = w.workerTimers) : w'.Ticking s' interval last := by
  rcases h.passes engine sound punctual with same | ⟨idle, le, upTo⟩
  · exact h.frame due timers same
  cases h with
  | due isDue _ _ =>
    rw [idle] at isDue
    cases isDue
  | set done timer tick past _ =>
    exact .set (due.trans done) (timers.trans timer) tick (Nat.le_trans past le) upTo

/-- The worker has one timer at most, so their order does not matter. -/
theorem eq_of_perm (h : w.Ticking s interval last) {timers : List Timer}
    (perm : w.workerTimers.Perm timers) : timers = w.workerTimers := by
  cases h with
  | due _ unset =>
    rw [unset] at perm ⊢
    exact perm.nil_eq.symm
  | set _ one =>
    rw [one] at perm ⊢
    exact (List.singleton_perm.mp perm).symm

/-- **At rest the last cleanup was at the last multiple of the interval.** -/
theorem lastSweep_eq (h : w.Ticking s interval last) (engine : w.engine = .sealer s)
    (sound : w.Sound) (rest : w.AtRest) : last = w.now / interval * interval := by
  cases h with
  | due due _ _ =>
    rw [rest.settled.cleanupDue_eq_false sound engine] at due
    cases due
  | set _ timer tick past _ =>
    have later : w.now < last + interval := rest.ahead _ (mem_timers_of_workerTimers timer)
    obtain ⟨k, rfl⟩ := tick
    have quotient : w.now / interval = k := by
      apply Nat.div_eq_of_lt_le
      · rw [Nat.mul_comm]
        exact past
      · rw [Nat.add_mul, Nat.one_mul, Nat.mul_comm k]
        exact later
    rw [quotient, Nat.mul_comm]

end Ticking

theorem fire_worker (engine : w.engine = .sealer s) :
    (w.fire .worker).engine =
      .sealer (if s.loop = .running then { s with cleanupDue := true } else s) := by
  unfold fire
  split
  · next s' _ engine' =>
    obtain rfl := Engine.sealer.inj (engine.symm.trans engine')
    split
    · rfl
    · exact engine
  · next other => exact absurd engine (other s)
  · next impossible => cases impossible

theorem fire_other {owner : Owner} (other : owner ≠ .worker) :
    (w.fire owner).engine = w.engine := by
  cases owner with
  | worker => exact absurd rfl other
  | call i => rfl

/-- A timer goes off: the worker's makes housekeeping due, at its time, and another leaves the
worker alone. -/
theorem Ticking.ring {target : Nat} {timer : Timer} {others : List Timer}
    (h : w.Ticking s interval last) (next : nextTimer target w.timers = some (timer, others))
    (engine : w.engine = .sealer s)
    (engine' : (w.rung timer others).engine = .sealer s') (running : s'.loop = .running)
    (sound : w.Sound) (punctual : Punctual w (w.rung timer others)) :
    (w.rung timer others).Ticking s' interval last := by
  obtain ⟨perm, -, -⟩ := nextTimer_eq_some next
  have mine : w.workerTimers.Perm ((timer :: others).filter (·.owner = .worker)) := perm.filter _
  obtain ⟨now, timers⟩ := w.rung_clock timer others
  have left : (w.rung timer others).workerTimers = others.filter (·.owner = .worker) :=
    congrArg (List.filter _) timers
  by_cases owner : timer.owner = .worker
  · rw [List.filter_cons_of_pos (by simpa using owner)] at mine
    rw [rung, owner,
      fire_worker (w := { w with now := timer.due, timers := others }) engine] at engine'
    cases h with
    | due _ unset =>
      rw [unset] at mine
      exact absurd mine.nil_eq (List.cons_ne_nil _ _).symm
    | set _ one tick =>
      rw [one, List.singleton_perm, List.cons.injEq] at mine
      obtain ⟨rfl, none⟩ := mine
      refine .due ?_ (left.trans none.symm) ?_
      · split at engine'
        · obtain rfl := Engine.sealer.inj engine'
          rfl
        · next ended =>
          obtain rfl := Engine.sealer.inj engine'
          exact absurd running ended
      · rw [now]
        exact Nat.dvd_add tick (Nat.dvd_refl _)
  · rw [List.filter_cons_of_neg (by simpa using owner)] at mine
    rw [rung, fire_other owner] at engine'
    obtain rfl := Engine.sealer.inj (engine.symm.trans engine')
    exact h.pass engine sound punctual rfl (left.trans (h.eq_of_perm mine))

section

variable {settings : EngineSettings} {verifier : Verifier}

theorem ticking_move (run : (started settings verifier).Run log w) (step : Move w e w')
    (engine : w.engine = .sealer s) (engine' : w'.engine = .sealer s')
    (running : s'.loop = .running) (h : w.Ticking s settings.cleanupInterval (lastSweep log)) :
    w'.Ticking s' settings.cleanupInterval (lastSweep (log ++ [e])) := by
  cases step with
  | @advance i call stage =>
    obtain rfl := Engine.sealer.inj (engine.symm.trans engine')
    have silent : (Event.ofStage i call.errand stage).sweep? = none := by cases stage <;> rfl
    rw [lastSweep_concat log silent]
    exact h.frame rfl rfl rfl
  | enter | release =>
    obtain rfl := Engine.sealer.inj (engine.symm.trans engine')
    rw [lastSweep_concat log rfl]
    exact h.frame rfl rfl rfl
  | produce _ _ _ pushed =>
    obtain ⟨sealer, engine'', -, -, rfl⟩ := pushTask_eq_ok pushed
    obtain rfl := Engine.sealer.inj (engine.symm.trans engine'')
    obtain rfl := Engine.sealer.inj engine'
    rw [lastSweep_concat log rfl]
    refine h.frame rfl ?_ rfl
    exact (List.filter_append ..).trans (List.append_nil _)
  | quit working =>
    rw [(lose_frame _ _).1] at engine'
    obtain rfl := Engine.sealer.inj engine'
    cases running
  | handle working =>
    obtain rfl := Engine.sealer.inj (engine.symm.trans working.engine)
    obtain rfl := Engine.sealer.inj engine'
    rw [lastSweep_concat log rfl]
    exact h.frame rfl rfl rfl
  | serve working =>
    obtain rfl := Engine.sealer.inj (engine.symm.trans working.engine)
    obtain rfl := Engine.sealer.inj engine'
    rw [lastSweep_concat log rfl]
    exact h.frame (s.serve_frame ..).2.2.1 rfl rfl
  | clean working _ _ _ due =>
    obtain rfl := Engine.sealer.inj (engine.symm.trans working.engine)
    obtain rfl := Engine.sealer.inj engine'
    rw [lastSweep_cleaned]
    cases h with
    | due _ unset tick =>
      refine .set rfl ?_ tick (Nat.le_refl _) (Nat.le_add_right _ _)
      rw [← settings_of_run run engine]
      exact (List.filter_append ..).trans (congrArg (· ++ _) unset)
    | set done =>
      rw [due] at done
      cases done

theorem ticking_act (run : (started settings verifier).Run log w) (step : Act w e w')
    (punctual : Punctual w w') (engine : w.engine = .sealer s) (engine' : w'.engine = .sealer s')
    (running : s'.loop = .running) (h : w.Ticking s settings.cleanupInterval (lastSweep log)) :
    w'.Ticking s' settings.cleanupInterval (lastSweep (log ++ [e])) := by
  have sound : w.Sound := sound_run run (sound_started ..)
  have silent : e.sweep? = none := by cases step <;> rfl
  rw [lastSweep_concat log silent]
  cases step with
  | make | post | abort | signal | read | detach | report =>
    obtain rfl := Engine.sealer.inj (engine.symm.trans engine')
    exact h.frame rfl rfl rfl
  | push pushed =>
    obtain ⟨sealer, engine'', -, -, rfl⟩ := pushTask_eq_ok pushed
    obtain rfl := Engine.sealer.inj (engine.symm.trans engine'')
    obtain rfl := Engine.sealer.inj engine'
    exact h.frame rfl rfl rfl
  | receive engine'' | abandon engine'' | join engine'' =>
    obtain rfl := Engine.sealer.inj (engine.symm.trans engine'')
    obtain rfl := Engine.sealer.inj engine'
    exact h.frame rfl rfl rfl
  | setHashrate other | take other | resolve other | drop other =>
    rw [engine] at other
    cases other
  | pass =>
    obtain rfl := Engine.sealer.inj (engine.symm.trans engine')
    exact h.pass engine sound punctual rfl rfl
  | ring next => exact h.ring next engine engine' running sound punctual

theorem ticking_step (run : (started settings verifier).Run log w) (step : Step w e w')
    (punctual : Punctual w w') (engine : w.engine = .sealer s) (engine' : w'.engine = .sealer s')
    (running : s'.loop = .running) (h : w.Ticking s settings.cleanupInterval (lastSweep log)) :
    w'.Ticking s' settings.cleanupInterval (lastSweep (log ++ [e])) := by
  cases step with
  | move step => exact ticking_move run step engine engine' running h
  | act step => exact ticking_act run step punctual engine engine' running h

/-- **Along a punctual run housekeeping keeps its period** as long as the loop runs. -/
theorem ticking_run (run : (started settings verifier).RunBy Punctual log w)
    (engine : w.engine = .sealer s) (running : s.loop = .running) :
    w.Ticking s settings.cleanupInterval (lastSweep log) := by
  induction run generalizing s with
  | refl =>
    obtain rfl := Engine.sealer.inj engine
    refine .due ?_ rfl (Nat.dvd_zero _)
    by_cases never : settings.cleanupInterval = 0
    · rw [Sealer.start, if_pos never] at running
      cases running
    · simpa [Sealer.start] using never
  | next before step fine ih =>
    obtain ⟨s', engine', -⟩ := before.run.passes_start
    obtain ⟨s'', engine'', takes⟩ :=
      takes_step step (before.run.tracked (tracked_started ..)) engine'
    obtain rfl := Engine.sealer.inj (engine.symm.trans engine'')
    have still := ih engine' (takes.running running).1
    exact ticking_step before.run step fine engine' engine running still

end

end MinerGateway.World
