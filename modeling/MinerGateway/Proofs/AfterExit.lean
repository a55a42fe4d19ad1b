import MinerGateway.Proofs.AcceptedWork
import MinerGateway.Proofs.AggregateRate
import MinerGateway.Proofs.Cutoff

/-!
A closed sealer stays dead.

Once the exit signal was given, the worker does one thing more, which is to end (`inert_run`): no
task is accepted or taken up, no letter is served, nothing is cleaned up. So no accepted solution is
added (`puts_of_inert`), every letter that was queued is lost, and every caller that has no reply by
then is told that the engine has stopped (`Tracked.stopped`). A settled gateway is then `Dead`, and
so is every later state of it (`Over.of_run`, `Over.dead`).

What is proved (`closed_sealer_stays_dead`), in every state of every run on a started sealer:
  1. closing and shutting down give the signal, and so does letting go, once the gateway has
     settled, unless a source of synthetic work still holds the engine;
  2. from then on nothing that was queued is handled, no solution is accepted, and whoever has no
     reply is told that the engine has stopped (`AfterExit`);
  3. every settled state is `Dead`: not running, no hash rate, tasks refused, the signal seen by
     everyone; and every later report shows this (`ShowsDead`), whatever is done.

What is assumed: the cleanup interval is positive. With a period of zero the loop has broken down
before the signal could be seen, and the sealer goes on to say that it runs.
-/

namespace MinerGateway

/-- The worker's queues stay as they are, or they go away. -/
def Event.Inert : Event → Prop
  | .pushed _ | .handled _ | .served .. | .cleaned _ => False
  | _ => True

theorem Event.puts_of_inert {e : Event} (h : e.Inert) : e.puts = [] := by
  cases e with
  | served => cases h
  | _ => rfl

theorem puts_append (log more : List Event) : puts (log ++ more) = puts log ++ puts more :=
  List.flatMap_append ..

theorem puts_of_inert {log : List Event} (h : ∀ e ∈ log, e.Inert) : puts log = [] := by
  apply List.flatMap_eq_nil_iff.mpr
  intro e he
  exact Event.puts_of_inert (h e he)

/-! ## The sealer after its end -/

namespace Sealer

variable {s s' : Sealer} {e : Event} {log : List Event}

/-- The end of the loop takes the hash rate back, and nothing announces one after it. -/
theorem Takes.published_of_ended (h : s.Takes e s')
    (before : s.loop = .ended → s.ledger.published = 0) (ended : s'.loop = .ended) :
    s'.ledger.published = 0 := by
  have unended (running : s.loop = .running) : s.loop ≠ .ended := by simp [running]
  cases h with
  | ended => rfl
  | pushed running | handled running | cleaned running | due running =>
    exact absurd ended (unended running)
  | served running =>
    rw [(s.serve_frame _ _).1] at ended
    exact absurd ended (unended running)
  | received | abandoned | read | told | joined | apart => exact before ended

theorem Passes.published_of_ended (h : s.Passes log s')
    (start : s.loop = .ended → s.ledger.published = 0) (ended : s'.loop = .ended) :
    s'.ledger.published = 0 := by
  induction h with
  | refl => exact start ended
  | next _ last ih => exact last.published_of_ended ih ended

/-- Unless the worker serves, whoever hears of its letter hears that it was lost. -/
theorem Takes.lost (h : s.Takes e s') (inert : e.Inert) (i : Nat) :
    ∀ reply ∈ replies (e.happenings i), reply = .lost := by
  intro reply there
  cases h with
  | pushed | handled | served | cleaned => cases inert
  | ended =>
    obtain ⟨happening, mem, same⟩ := List.mem_filterMap.mp there
    obtain ⟨letter, -, rfl⟩ := List.mem_map.mp mem
    exact (Option.some.inj same).symm
  | apart h =>
    rw [Event.replies_of_apart h] at there
    cases there
  | told =>
    simp only [Event.happenings] at there
    split at there <;> cases there
  | received | abandoned | read | joined | due => cases there

theorem Passes.lost (h : s.Passes log s') (inert : ∀ e ∈ log, e.Inert) (i : Nat) :
    ∀ reply ∈ replies (history i log), reply = .lost := by
  induction h with
  | refl => simp [history, replies]
  | next _ last ih =>
    intro reply there
    rw [history_append, replies_append, history_singleton] at there
    rcases List.mem_append.mp there with there | there
    · exact ih (fun e he => inert e (List.mem_append_left _ he)) reply there
    · exact last.lost (inert _ (List.mem_append_right _ List.mem_cons_self)) i reply there

end Sealer

namespace World

variable {settings : EngineSettings} {verifier : Verifier} {w w' : World} {e : Event}
  {log more : List Event} {sealer : Sealer}

/-! ## The signal wins -/

theorem inert_ofStage (i : Nat) (errand : Errand) (stage : Stage) :
    (Event.ofStage i errand stage).Inert := by
  cases stage <;> trivial

theorem not_pushTask_of_signalled (signalled : w.isSignalled = true) {task : Task} :
    w.pushTask task ≠ .ok w' := by
  intro pushed
  obtain ⟨_, -, -, quiet, -⟩ := pushTask_eq_ok pushed
  rw [signalled] at quiet
  cases quiet

/-- Under the signal no step does any of the worker's business. -/
theorem inert_step (signalled : w.isSignalled = true) (step : Step w e w') : e.Inert := by
  have noisy : ∀ intake, w.intake = some intake → intake.signalled ≠ false := by
    intro intake hi quiet
    rw [isSignalled_eq hi, quiet] at signalled
    cases signalled
  cases step with
  | move step =>
    cases step with
    | advance => exact inert_ofStage _ _ _
    | produce _ _ _ pushed => exact absurd pushed (not_pushTask_of_signalled signalled)
    | handle working quiet | serve working quiet | clean working quiet =>
      exact absurd quiet (noisy _ working.intake)
    | enter | quit | release => trivial
  | act step =>
    cases step with
    | push pushed => exact absurd pushed (not_pushTask_of_signalled signalled)
    | _ => trivial

theorem inert_run (run : w.Run log w') (signalled : w.isSignalled = true) : ∀ e ∈ log, e.Inert := by
  induction run with
  | refl => simp
  | next before step ih =>
    intro e he
    rcases List.mem_append.mp he with he | he
    · exact ih e he
    · obtain rfl := List.mem_singleton.mp he
      exact inert_step (signalled_run before signalled) step

/-! ## The callers -/

/-- At this time call `i` is not made, or it has no reply so far. -/
def Unanswered (w : World) (i : Nat) : Prop :=
  ∀ errand stage, w.view i = some (errand, stage) →
    (∀ reply, stage ≠ .replied reply) ∧ ∀ answer, stage ≠ .finished answer

theorem Tracked.unsent_or_sent (tracked : w.Tracked log) {i : Nat} {request : Request} {form : Form}
    (unanswered : w.Unanswered i)
    (about : ∀ errand stage, w.view i = some (errand, stage) → errand = .miner request form) :
    w.Unsent i ∨ w.view i = some (.miner request form, .sent) := by
  cases hv : w.view i with
  | none =>
    refine .inl ?_
    intro errand stage h
    rw [hv] at h
    cases h
  | some v =>
    obtain ⟨errand, stage⟩ := v
    obtain rfl := about errand stage hv
    obtain ⟨unreplied, unfinished⟩ := unanswered _ stage hv
    obtain ⟨place, -, life⟩ := tracked.life hv
    have early (h : stage = .made ∨ ∃ message, stage = .waiting message) : w.Unsent i := by
      intro errand' stage' h'
      rw [hv] at h'
      cases h'
      exact h
    cases stage with
    | made => exact .inl (early (.inl rfl))
    | waiting message => exact .inl (early (.inr ⟨message, rfl⟩))
    | sent => exact .inr rfl
    | replied reply => exact absurd rfl (unreplied reply)
    | finished answer => exact absurd rfl (unfinished answer)
    | watching =>
      have other := life.errand_of_alone.1 rfl
      cases other
    | producing chain due =>
      obtain ⟨interval, other⟩ := life.errand_of_alone.2 _ _ rfl
      cases other

/-- **Whoever has no reply when the signal is given is told that the engine has stopped.** -/
theorem Tracked.stopped (tracked : w.Tracked log) (engine : w.engine = .sealer sealer)
    (signalled : w.isSignalled = true) (run : w.Run more w') {i : Nat} {request : Request}
    {form : Form} {answer : Answer} (unanswered : w.Unanswered i)
    (hv : w'.view i = some (.miner request form, .finished answer)) :
    answer = form.tell request.stopped ∨ (answer = .aborted ∧ .aborted i ∈ more) := by
  have about : ∀ errand stage, w.view i = some (errand, stage) → errand = .miner request form := by
    intro errand stage before
    obtain ⟨stage', after, -⟩ := tracked.view_run run before
    rw [hv] at after
    exact (Prod.mk.inj (Option.some.inj after)).1.symm
  have stays : .aborted i ∉ log := by
    apply tracked.not_mem_aborted
    intro errand answer before
    exact (unanswered errand _ before).2 answer rfl
  rcases tracked.unsent_or_sent unanswered about with unsent | sent
  · -- Its letter never goes out.
    have none : entries (history i (log ++ more)) = [] := by
      rw [history_append, entries_append, tracked.unsent unsent,
        entries_of_signalled tracked signalled run hv, List.nil_append]
    have refused :=
      (run.tracked_from tracked).refused (signalled_run run signalled) hv none
    rcases refused.told answer rfl with told | ⟨gone, aborted⟩
    · exact .inl told
    · refine .inr ⟨gone, ?_⟩
      exact (List.mem_append.mp aborted).resolve_left stays
  · -- Its letter is lost with the channels.
    rcases (tracked.awaits run sent hv).told answer rfl with ⟨reply, one, told⟩ | gone
    · obtain ⟨sealer', -, passes⟩ := run.passes tracked engine
      have lost : reply = .lost := by
        apply passes.lost (inert_run run signalled) i
        rw [one]
        exact List.mem_cons_self
      rw [lost, request.outcome_lost, request.failure_stopped] at told
      exact .inl told
    · exact .inr gone

/-! ## Dead sealers -/

/-- What a report shows of a dead sealer. -/
structure ShowsDead (r : Report) : Prop where
  closed : r.signalled = some true
  stopped : ∀ running, r.running = some running → running = false
  rateless : ∀ rate, r.hashrate = some rate → rate = 0

/-- A dead sealer says that it does not run and has no hash rate, everyone sees the signal, and a
task is refused without a trace. This is what every report shows, whatever is done. -/
structure Dead (w : World) : Prop where
  stopped : w.engine.isRunning? = some false
  rateless : w.engine.hashrate = 0
  closed : w.Closed
  refuses : ∀ task, w.pushTask task = .error .stopped
  unpushed : ∀ task, (w.perform (.push task)).2 = w ∧
    (w.attached = true → (w.perform (.push task)).1 = .error (.engine .stopped))
  shown : ∀ actions, ∀ report ∈ w.play actions, ShowsDead report

/-- The loop of the sealer has ended on the signal. -/
structure Over (w : World) : Prop where
  signalled : w.isSignalled = true
  ended : ∃ sealer, w.engine = .sealer sealer ∧ sealer.loop = .ended ∧ sealer.ledger.published = 0

theorem Over.of_run (h : w.Over) (tracked : w.Tracked log) (run : w.Run more w') : w'.Over := by
  obtain ⟨signalled, sealer, engine, ended, published⟩ := h
  obtain ⟨sealer', engine', passes⟩ := run.passes tracked engine
  have ended' : sealer'.loop = .ended := (passes.loop_of_over (by simp [ended])).trans ended
  exact ⟨signalled_run run signalled, sealer', engine', ended',
    passes.published_of_ended (fun _ => published) ended'⟩

theorem step_fst (w : World) (hold : Bool) (action : Action) :
    let next := (w.step hold action).2
    (w.step hold action).1.signalled = next.intake.map Intake.signalled ∧
      (w.step hold action).1.running = (if next.attached then next.engine.isRunning? else none) ∧
      (w.step hold action).1.hashrate
        = (if next.attached then some next.engine.hashrate else none) := by
  cases hold <;> simp [step, markReported]

theorem Over.shows (h : w.Over) (tracked : w.Tracked log) (hold : Bool) (action : Action) :
    ShowsDead (w.step hold action).1 := by
  obtain ⟨more, run, -⟩ := exists_run_step w hold action
  obtain ⟨-, sealer, engine, ended, published⟩ := h.of_run tracked run
  obtain ⟨-, running, hashrate⟩ := step_fst w hold action
  refine ⟨signalled_step h.signalled hold action, ?_, ?_⟩
  · intro running' shown
    rw [running, engine] at shown
    split at shown
    · simpa [Engine.isRunning?, ended] using shown.symm
    · cases shown
  · intro rate shown
    rw [hashrate, engine] at shown
    split at shown
    · exact (Option.some.inj shown).symm.trans published
    · cases shown

theorem Over.shows_play (h : w.Over) (tracked : w.Tracked log) (actions : List (Bool × Action)) :
    ∀ report ∈ w.play actions, ShowsDead report := by
  induction actions generalizing w log with
  | nil => simp [play]
  | cons step rest ih =>
    obtain ⟨hold, action⟩ := step
    obtain ⟨more, run, -⟩ := exists_run_step w hold action
    intro report there
    rcases List.mem_cons.mp there with rfl | there
    · exact h.shows tracked hold action
    · exact ih (h.of_run tracked run) (run.tracked_from tracked) report there

theorem Over.dead (h : w.Over) (tracked : w.Tracked log) : w.Dead := by
  obtain ⟨sealer, engine, ended, published⟩ := h.ended
  have refuses : ∀ task, w.pushTask task = .error .stopped := by
    intro task
    simp [pushTask, engine, h.signalled]
  refine ⟨by simp [engine, Engine.isRunning?, ended], by rw [engine]; exact published,
    closed_of_signalled h.signalled, refuses, ?_, h.shows_play tracked⟩
  intro task
  simp only [perform, refuses]
  split
  · exact ⟨rfl, fun _ => rfl⟩
  · next gone =>
    refine ⟨rfl, ?_⟩
    intro attached
    exact absurd (by simp [sealerSummary?, attached, engine, Engine.isRunning?]) gone

theorem Dead.over (dead : w.Dead) (engine : w.engine = .sealer sealer) : w.Over := by
  refine ⟨dead.closed.given, sealer, engine, ?_, ?_⟩
  · have stopped := dead.stopped
    rw [engine] at stopped
    simpa [Engine.isRunning?] using stopped
  · have rateless := dead.rateless
    rw [engine] at rateless
    exact rateless

/-- A loop that no longer runs has ended on the signal. -/
theorem over_of_idle (run : (started settings verifier).Run log w)
    (ticks : 0 < settings.cleanupInterval) (signalled : w.isSignalled = true)
    (idle : ∀ sealer, w.engine = .sealer sealer → sealer.loop ≠ .running) : w.Over := by
  obtain ⟨sealer, engine, passes⟩ := run.passes_start
  have start : (Sealer.start settings verifier).loop = .running := by
    simp [Sealer.start, Nat.ne_of_gt ticks]
  have ended : sealer.loop = .ended := by
    cases loop : sealer.loop with
    | ended => rfl
    | crashed => exact absurd loop (passes.loop_ne_crashed (by simp [start]))
    | running => exact absurd loop (idle sealer engine)
  exact ⟨signalled, sealer, engine, ended, passes.published_of_ended (by simp [start]) ended⟩

theorem over_of_settled (run : (started settings verifier).Run log w)
    (ticks : 0 < settings.cleanupInterval) (signalled : w.isSignalled = true)
    (settled : w.Settled) : w.Over := by
  apply over_of_idle run ticks signalled
  intro sealer engine running
  obtain ⟨intake, hi⟩ := Option.ne_none_iff_exists'.mp (connected_of_signalled signalled)
  exact settled _ _ (.quit ⟨engine, hi, running⟩ ((isSignalled_eq hi).symm.trans signalled))

/-! ## Ways to stop -/

theorem detached_run (run : w.Run log w') (detached : w.attached = false) :
    w'.attached = false := by
  apply run.preserves ?_ detached
  intro w e w' step detached
  cases step with
  | move step =>
    cases step with
    | produce _ _ _ pushed =>
      obtain ⟨_, -, -, -, rfl⟩ := pushTask_eq_ok pushed
      exact detached
    | quit => exact (lose_attached _ _).trans detached
    | _ => exact detached
  | act step =>
    cases step with
    | push pushed =>
      obtain ⟨_, -, -, -, rfl⟩ := pushTask_eq_ok pushed
      exact detached
    | drop => exact (lose_attached _ _).trans detached
    | detach => rfl
    | ring =>
      unfold fire
      split
      · split <;> exact detached
      · exact detached
      · exact detached
    | _ => exact detached

theorem signalled_settle (signalled : w.isSignalled = true) : w.settle.isSignalled = true := by
  have settle : Reaches none w w.settle := reaches_settle w
  obtain ⟨more, run, -⟩ := settle
  exact signalled_run run signalled

theorem signalled_beginShutdown (connected : w.intake ≠ none) :
    w.beginShutdown.1.isSignalled = true := by
  have signalled := signalled_signal connected
  unfold beginShutdown
  split
  · exact signalled
  · exact signalled

theorem signalled_of_stop (connected : w.intake ≠ none) (engine : w.engine = .sealer sealer)
    (attached : w.attached = true) :
    (w.perform .close).2.isSignalled = true ∧ (w.perform .shutdown).2.isSignalled = true := by
  have held : w.sealerSummary?.isSome = true := by
    simp [sealerSummary?, attached, engine, Engine.isRunning?]
  have begun := signalled_beginShutdown connected
  constructor
  · simp only [perform, close, engine, held, if_true]
    exact signalled_signal connected
  · simp only [perform, shutdown, held, if_true]
    split
    · next next h =>
      rw [h] at begun
      exact signalled_settle begun
    · next next h =>
      rw [h] at begun
      exact begun

def Produces (w : World) (i : Nat) : Prop :=
  ∃ interval chain due, w.view i = some (.devnet interval, .producing chain due)

/-- In a settled gateway in front of a sealer, only a source of synthetic work is under way that
holds the engine. -/
theorem produces_of_holds (settled : w.Settled) (sound : w.Sound) (tracked : w.Tracked log)
    (engine : w.engine = .sealer sealer) (held : w.isHeldByCalls = true) : ∃ i, w.Produces i := by
  obtain ⟨i, errand, stage, hv, holds⟩ := isHeldByCalls_iff.mp held
  obtain ⟨place, -, life⟩ := tracked.life hv
  have begun : stage ≠ .made := by
    intro made
    exact settled.begun tracked i errand (made ▸ hv)
  have unfinished : ∀ answer, stage ≠ .finished answer := by
    intro answer finished
    simp [Call.holdsEngine, Call.answer?, finished] at holds
  -- Apart from a miner's call, which is finished, whoever holds the engine writes nothing.
  cases errand with
  | miner request form =>
    obtain ⟨answer, finished⟩ := finished_of_settled settled sound tracked engine hv
    exact absurd finished (unfinished answer)
  | letter | watchExit => simp [Call.holdsEngine, Errand.holdsEngine] at holds
  | readHashrate | known | devnet =>
    rcases life.stage_of_silent (fun _ h => h) with made | rfl | ⟨chain, due, rfl⟩ | ⟨answer, h⟩
    · exact absurd made begun
    · have other := life.errand_of_alone.1 rfl
      cases other
    · obtain ⟨interval, same⟩ := life.errand_of_alone.2 _ _ rfl
      exact ⟨i, interval, chain, due, same ▸ hv⟩
    · exact absurd h (unfinished answer)

/-- A sealer that is let go is stopped, unless a source of synthetic work still holds it. -/
theorem signalled_of_drop (sound : w.Sound) (tracked : w.Tracked log)
    (engine : w.engine = .sealer sealer) :
    (w.perform .dropEngine).2.settle.isSignalled = true ∨
      ∃ i, (w.perform .dropEngine).2.settle.Produces i := by
  let free : World := { w with attached := false }
  have released : Within none free free.release := reachesBy_release instant_still free
  have settling : Reaches none free.release free.release.settle := reaches_settle _
  obtain ⟨before, run, -⟩ := released.reaches
  obtain ⟨more, run', -⟩ := settling
  have whole : w.Run ([.other] ++ (before ++ more)) free.release.settle :=
    (Run.single (.act .detach)).trans (run.trans run')
  have detached : free.release.settle.attached = false := detached_run (run.trans run') rfl
  have settled : free.release.settle.Settled :=
    settled_settle (sound_run ((Run.single (.act .detach)).trans run) sound)
      (((Run.single (.act .detach)).trans run).tracked_from tracked)
  obtain ⟨sealer', engine', -⟩ := whole.passes tracked engine
  by_cases held : free.release.settle.isHeldByCalls = true
  · exact .inr (produces_of_holds settled (sound_run whole sound) (whole.tracked_from tracked)
      engine' held)
  · refine .inl ?_
    by_contra quiet
    have orphaned : free.release.settle.isOrphaned = true := by
      simp [isOrphaned, engine', detached, held]
    exact settled _ _ (.release orphaned (Bool.eq_false_iff.mpr quiet))

/-! ## The rest of a session -/

/-- What follows the exit signal in front of a sealer. -/
structure AfterExit (w : World) (log more : List Event) (w' : World) : Prop where
  /-- Nothing queued is handled, and no task is accepted. -/
  inert : ∀ e ∈ more, e.Inert
  /-- No accepted solution is added. -/
  puts : puts (log ++ more) = puts log
  told : ∀ i request form, w.Unanswered i → ∀ answer,
    w'.view i = some (.miner request form, .finished answer) →
      answer = form.tell request.stopped ∨ (answer = .aborted ∧ .aborted i ∈ more)
  ends : w'.Settled → ∀ i request form stage, w'.view i = some (.miner request form, stage) →
    ∃ answer, stage = .finished answer
  dies : w'.Settled → w'.Dead
  stays : w.Dead → w'.Dead

theorem afterExit (run : (started settings verifier).Run log w)
    (ticks : 0 < settings.cleanupInterval)
    (signalled : w.isSignalled = true) (later : w.Run more w') : AfterExit w log more w' := by
  obtain ⟨sealer, engine, -⟩ := run.passes_start
  obtain ⟨sealer', engine', -⟩ := (run.trans later).passes_start
  have tracked : w.Tracked log := run.tracked (tracked_started ..)
  have tracked' : w'.Tracked (log ++ more) := later.tracked_from tracked
  have inert := inert_run later signalled
  refine ⟨inert, ?_, ?_, ?_, ?_, ?_⟩
  · have silent : MinerGateway.puts more = [] := puts_of_inert inert
    rw [puts_append, silent, List.append_nil]
  · intro i request form unanswered answer hv
    exact tracked.stopped engine signalled later unanswered hv
  · intro settled i request form stage hv
    exact finished_of_settled settled (sound_run (run.trans later) (sound_started ..)) tracked'
      engine' hv
  · intro settled
    exact (over_of_settled (run.trans later) ticks (signalled_run later signalled) settled).dead
      tracked'
  · intro dead
    exact ((dead.over engine).of_run tracked later).dead tracked'

/-- **A closed sealer stays dead.** Every session on a started sealer is a run. In whatever state of
a run the sealer is closed or shut down, the exit signal is given, and so it is once a sealer that
was let go has settled, unless a source of synthetic work still holds it. From any state in which
the signal was given, the gateway can settle, and whatever happens then, nothing that was queued is
handled, no accepted solution is added, callers without a reply are told that the engine has
stopped, and every settled state is dead, with all that come after it. -/
theorem closed_sealer_stays_dead (settings : EngineSettings) (verifier : Verifier)
    (ticks : 0 < settings.cleanupInterval) :
    let start := started settings verifier
    (∀ actions, ∃ log, start.Run log (start.settle.after actions)) ∧
      ∀ log w, start.Run log w →
        (w.attached = true →
          (w.perform .close).2.isSignalled = true ∧ (w.perform .shutdown).2.isSignalled = true) ∧
        ((w.perform .dropEngine).2.settle.isSignalled = true ∨
          ∃ i, (w.perform .dropEngine).2.settle.Produces i) ∧
        (Reaches none w w.settle ∧ w.settle.Settled) ∧
        (∀ actions, ∃ more, w.Run more (w.after actions)) ∧
        (w.isSignalled = true → ∀ more w', w.Run more w' → AfterExit w log more w') := by
  intro start
  constructor
  · intro actions
    obtain ⟨log, run, -⟩ := exists_run_session start actions
    exact ⟨log, run⟩
  intro log w run
  obtain ⟨sealer, engine, -⟩ := run.passes_start
  have sound : w.Sound := sound_run run (sound_started ..)
  have tracked : w.Tracked log := run.tracked (tracked_started ..)
  refine ⟨signalled_of_stop tracked.connected engine, signalled_of_drop sound tracked engine,
    ⟨reaches_settle w, settled_settle sound tracked⟩, ?_, ?_⟩
  · intro actions
    obtain ⟨more, later, -⟩ := exists_run_after w actions
    exact ⟨more, later⟩
  · intro signalled more w' later
    exact afterExit run ticks signalled later

/-- A miner has reported, and at one instant a task is pushed, work is asked for, a report comes in
and the sealer is closed. -/
def loaded : List (Bool × Action) :=
  [(false, .request (.submitHashrate 5 (.filled 32 1))),
    (true, .push (Devnet.Chain.start.task Sha256.digest)), (true, .request .getWork),
    (true, .send (.report ⟨7, .filled 32 2⟩)), (true, .close)]

/-- Nothing of it is handled: the caller is told that the engine has stopped. -/
theorem closed_sealer_stays_dead_loaded :
    let w := (started {} .acceptAll).settle.after loaded
    0 < ({} : EngineSettings).cleanupInterval ∧ w.engine.hashrate = 5 ∧ w.queued.length = 1 ∧
      w.settle.Dead ∧ ∃ log more, w.Run more w.settle ∧ (∀ e ∈ more, e.Inert) ∧
        puts (log ++ more) = puts log ∧
        w.settle.view 1 = some (.miner .getWork .direct,
          .finished (.outcome (.work (.error .stopped)))) := by
  intro w
  obtain ⟨sessions, runs⟩ := closed_sealer_stays_dead {} .acceptAll (by decide)
  obtain ⟨log, run⟩ := sessions loaded
  obtain ⟨-, -, ⟨⟨more, settling, under⟩, settled⟩, -, later⟩ := runs log w run
  have signalled : w.isSignalled = true := by decide +kernel
  have exit := later signalled more w.settle settling
  have made : w.view 1 = some (.miner .getWork .direct, .made) := rfl
  have unanswered : w.Unanswered 1 := by
    intro errand stage before
    rw [made] at before
    cases before
    simp
  obtain ⟨stage, hv, -⟩ := (run.tracked (tracked_started ..)).view_run settling made
  obtain ⟨answer, rfl⟩ := exit.ends settled 1 _ _ _ hv
  refine ⟨by decide, by decide +kernel, by decide +kernel, exit.dies settled, log, more, settling,
    exit.inert, exit.puts, ?_⟩
  rcases exit.told 1 _ _ unanswered answer hv with rfl | ⟨-, gone⟩
  · exact hv
  · have nobody : none = some 1 := under _ gone
    cases nobody

end World

end MinerGateway
