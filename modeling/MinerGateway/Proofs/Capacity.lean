import MinerGateway.Proofs.Tending

/-!
The capacity of the intake channels cannot be seen from outside.

With small channels callers wait in front of them and are let in one at a time; with large ones all
letters lie in the channels at once. What a sealer comes to rest at does not depend on it
(`forecast_withCapacity`), and no action looks for room but the one that puts a letter on a channel
directly. So whole sessions are the same, report by report (`capacity_unseen`).

What is proved: two sealers whose settings differ in the capacity alone, zero included, give the
same reports at every step of every such session, and end in the same state but for the capacity.

What is assumed: no letter is put on a channel directly (`Action.mannered`), since whoever does so
is told whether there was room; the engine is held throughout, and no source of synthetic work is
started.
-/

namespace MinerGateway

def EngineSettings.withCapacity (capacity : Nat) (settings : EngineSettings) : EngineSettings :=
  { settings with intakeCapacity := capacity }

def Sealer.withCapacity (capacity : Nat) (s : Sealer) : Sealer :=
  { s with settings := s.settings.withCapacity capacity }

def Engine.withCapacity (capacity : Nat) : Engine → Engine
  | .sealer s => .sealer (s.withCapacity capacity)
  | engine => engine

/-- The same channels with another capacity; zero counts as one. -/
def Intake.withCapacity (capacity : Nat) (intake : Intake) : Intake :=
  { intake with capacity := max capacity 1 }

def World.withCapacity (capacity : Nat) (w : World) : World :=
  { w with
    engine := w.engine.withCapacity capacity
    intake := w.intake.map (Intake.withCapacity capacity) }

/-- The action is tame, and does not put a letter on a channel directly. -/
def Action.mannered : Action → Bool
  | .send _ => false
  | action => action.tame

variable (capacity : Nat)

theorem Action.tame_of_mannered {action : Action} (h : action.mannered = true) :
    action.tame = true := by
  cases action with
  | send => rfl
  | _ => exact h

namespace Sealer

theorem serve_withCapacity (s : Sealer) (now : Nat) (message : Message) :
    (s.withCapacity capacity).serve now message
      = ((s.serve now message).1.withCapacity capacity, (s.serve now message).2) := by
  cases message with
  | fetch => rfl
  | submission sub =>
    simp only [serve, withCapacity, EngineSettings.withCapacity]
    split <;> rfl
  | report r => rfl

theorem serveAll_withCapacity (s : Sealer) (now : Nat) (calls : List Call) (letters : List Letter) :
    (s.withCapacity capacity).serveAll now calls letters
      = ((s.serveAll now calls letters).1.withCapacity capacity,
        (s.serveAll now calls letters).2) := by
  induction letters generalizing s calls with
  | nil => rfl
  | cons letter rest ih =>
    simp only [serveAll, serve_withCapacity]
    exact ih _ _

theorem tidied_withCapacity (s : Sealer) (now : Nat) :
    (s.withCapacity capacity).tidied now = (s.tidied now).withCapacity capacity :=
  (apply_ite (withCapacity capacity) (s.cleanupDue = true)
    { s with ledger := s.ledger.cleanup s.settings now, cleanupDue := false } s).symm

theorem exit_withCapacity (s : Sealer) :
    (if (s.withCapacity capacity).loop = .running then (s.withCapacity capacity).exit
        else s.withCapacity capacity)
      = (if s.loop = .running then s.exit else s).withCapacity capacity :=
  (apply_ite (withCapacity capacity) (s.loop = .running) s.exit s).symm

end Sealer

namespace World

variable {w : World} {s : Sealer} {intake : Intake}

theorem served_withCapacity (w : World) (s : Sealer) (intake : Intake) :
    (w.withCapacity capacity).served (s.withCapacity capacity) (intake.withCapacity capacity)
      = (w.served s intake).withCapacity capacity := by
  have caughtUp : (s.withCapacity capacity).caughtUp = s.caughtUp.withCapacity capacity := rfl
  unfold served
  rw [caughtUp, Sealer.serveAll_withCapacity]
  simp only [Sealer.tidied_withCapacity]
  rfl

theorem dismissed_withCapacity (w : World) (s : Sealer) (intake : Intake) :
    (w.withCapacity capacity).dismissed (s.withCapacity capacity) (intake.withCapacity capacity)
      = (w.dismissed s intake).withCapacity capacity := by
  have letters : (intake.withCapacity capacity).letters = intake.letters := rfl
  have lost : ((w.withCapacity capacity).lose intake.letters).calls
      = (w.lose intake.letters).calls :=
    lose_calls_congr rfl
  unfold dismissed
  rw [Sealer.exit_withCapacity, letters, lost]
  rfl

/-- **What a gateway comes to rest at does not depend on the room in front of it.** -/
theorem forecast_withCapacity (w : World) :
    (w.withCapacity capacity).forecast = w.forecast.withCapacity capacity := by
  obtain ⟨now, engine, intake, attached, calls, timers⟩ := w
  cases engine with
  | sealer s =>
    cases intake with
    | none => rfl
    | some intake =>
      let w : World := ⟨now, .sealer s, some intake, attached, calls, timers⟩
      by_cases opened : s.loop = .running ∧ intake.signalled = false
      · have foreseen : w.forecast = w.served s intake := forecast_open rfl rfl opened.1 opened.2
        have foreseen' : (w.withCapacity capacity).forecast = (w.withCapacity capacity).served
            (s.withCapacity capacity) (intake.withCapacity capacity) :=
          forecast_open rfl rfl opened.1 opened.2
        rw [foreseen, foreseen', served_withCapacity]
      · have foreseen : w.forecast = w.dismissed s intake := forecast_closed rfl rfl opened
        have foreseen' : (w.withCapacity capacity).forecast = (w.withCapacity capacity).dismissed
            (s.withCapacity capacity) (intake.withCapacity capacity) :=
          forecast_closed rfl rfl opened
        rw [foreseen, foreseen', dismissed_withCapacity]
  | _ => rfl

theorem hashrate_withCapacity (w : World) :
    (w.withCapacity capacity).engine.hashrate = w.engine.hashrate := by
  obtain ⟨now, engine, intake, attached, calls, timers⟩ := w
  cases engine <;> rfl

theorem beginCalls_withCapacity (w : World) :
    (w.withCapacity capacity).beginCalls = w.beginCalls.withCapacity capacity := by
  have connected : (w.withCapacity capacity).intake.isSome = w.intake.isSome := Option.isSome_map
  rw [beginCalls_eq, beginCalls_eq, connected, hashrate_withCapacity]
  rfl

theorem quiesce_withCapacity (h : w.Tended) (h' : (w.withCapacity capacity).Tended) :
    (w.withCapacity capacity).quiesce = w.quiesce.withCapacity capacity := by
  rw [quiesce_eq_forecast h.attended, quiesce_eq_forecast h'.attended, forecast_withCapacity]

theorem settle_withCapacity (h : w.Tended) (h' : (w.withCapacity capacity).Tended) :
    (w.withCapacity capacity).settle = w.settle.withCapacity capacity := by
  rw [h.settle_eq, h'.settle_eq, forecast_withCapacity,
    beginCalls_withCapacity, forecast_withCapacity]

theorem fire_withCapacity (w : World) (owner : Owner) :
    (w.withCapacity capacity).fire owner = (w.fire owner).withCapacity capacity := by
  obtain ⟨now, engine, intake, attached, calls, timers⟩ := w
  cases owner with
  | worker =>
    cases engine with
    | sealer s =>
      let w : World := ⟨now, .sealer s, intake, attached, calls, timers⟩
      exact (apply_ite (World.withCapacity capacity) (s.loop = .running)
        { w with engine := .sealer { s with cleanupDue := true } } w).symm
    | _ => rfl
  | call i => cases engine <;> rfl

theorem advance_withCapacity (fuel target : Nat) (h : w.Tended)
    (h' : (w.withCapacity capacity).Tended) :
    (w.withCapacity capacity).advance fuel target
      = (w.advance fuel target).withCapacity capacity := by
  induction fuel generalizing w with
  | zero => rfl
  | succ fuel ih =>
    have timers : (w.withCapacity capacity).timers = w.timers := rfl
    cases next : nextTimer target w.timers with
    | none =>
      simp only [advance, timers, next]
      rfl
    | some found =>
      obtain ⟨timer, others⟩ := found
      have rung := h.ring next
      have rung' := h'.ring (timers ▸ next)
      have same : (w.withCapacity capacity).rung timer others
          = (w.rung timer others).withCapacity capacity :=
        fire_withCapacity capacity { w with now := timer.due, timers := others } timer.owner
      rw [same] at rung'
      have quiet := quiesce_withCapacity capacity rung rung'
      have after := ih rung.quiesce (quiet ▸ rung'.quiesce)
      rw [← quiet, ← same] at after
      simp only [advance, timers, next]
      exact after

theorem sleep_withCapacity (duration : Nat) (h : w.Tended) (h' : (w.withCapacity capacity).Tended) :
    (w.withCapacity capacity).sleep duration = (w.sleep duration).withCapacity capacity := by
  have settled := settle_withCapacity capacity h h'
  have later := advance_withCapacity capacity
    (w.settle.timerBound (w.settle.now + duration)) (w.settle.now + duration) h.settle
    (settled ▸ h'.settle)
  unfold sleep
  rw [settled]
  exact later

/-! ## Actions -/

theorem beginShutdown_withCapacity (engine : w.engine = .sealer s) :
    (w.withCapacity capacity).beginShutdown
      = (w.beginShutdown.1.withCapacity capacity, w.beginShutdown.2) := by
  obtain ⟨now, _, intake, attached, calls, timers⟩ := w
  obtain rfl := engine
  cases intake <;> rfl

theorem held_withCapacity (engine : w.engine = .sealer s) (attached : w.attached = true) :
    (w.withCapacity capacity).sealerSummary?.isSome = true ∧ w.sealerSummary?.isSome = true := by
  simp [sealerSummary?, withCapacity, engine, attached, Engine.withCapacity, Engine.isRunning?]

theorem shutdown_withCapacity (h : w.Tended) (h' : (w.withCapacity capacity).Tended) :
    (w.withCapacity capacity).shutdown
      = (w.shutdown.1, w.shutdown.2.withCapacity capacity) := by
  obtain ⟨s, engine⟩ := h.attended.sealer
  have begun := beginShutdown_withCapacity capacity engine
  have settled : (w.beginShutdown.1.withCapacity capacity).settle
      = w.beginShutdown.1.settle.withCapacity capacity := by
    have tended := h'.beginShutdown
    rw [begun] at tended
    exact settle_withCapacity capacity h.beginShutdown tended
  have held := held_withCapacity capacity engine h.attended.attached
  simp only [shutdown, held, if_true, begun]
  cases last : w.beginShutdown with
  | mk next waits =>
    rw [last] at settled
    cases waits with
    | true => simp only [settled]
    | false => rfl

theorem abort_withCapacity (attached : w.attached = true) (i : Nat) :
    (w.withCapacity capacity).abort i = ((w.abort i).1, (w.abort i).2.withCapacity capacity) := by
  have calls : (w.withCapacity capacity).calls = w.calls := rfl
  let gone : World := { w with calls := w.calls.modify i Call.abort }
  have held : gone.release = gone := release_of_attached attached
  have held' : (gone.withCapacity capacity).release = gone.withCapacity capacity :=
    release_of_attached attached
  unfold abort
  rw [calls]
  split
  · exact Prod.ext rfl (held'.trans (congrArg (World.withCapacity capacity) held.symm))
  · rfl

theorem pushTask_withCapacity (engine : w.engine = .sealer s) (task : Task) :
    (w.withCapacity capacity).pushTask task
      = (w.pushTask task).map (World.withCapacity capacity) := by
  have signalled : (w.withCapacity capacity).isSignalled = w.isSignalled := by
    obtain ⟨now, _, intake, attached, calls, timers⟩ := w
    cases intake <;> rfl
  have engine' : (w.withCapacity capacity).engine = .sealer (s.withCapacity capacity) := by
    simp only [withCapacity, engine, Engine.withCapacity]
  have loop : (s.withCapacity capacity).loop = s.loop := rfl
  simp only [pushTask, engine, engine', signalled, loop]
  by_cases refused : (w.isSignalled || s.loop != .running) = true
  · rw [if_pos refused, if_pos refused]
    rfl
  · rw [if_neg refused, if_neg refused]
    rfl

theorem receiveResult_withCapacity (engine : w.engine = .sealer s) :
    (w.withCapacity capacity).receiveResult
      = (w.receiveResult.1, w.receiveResult.2.withCapacity capacity) := by
  have engine' : (w.withCapacity capacity).engine = .sealer (s.withCapacity capacity) := by
    simp only [withCapacity, engine, Engine.withCapacity]
  have outbox : (s.withCapacity capacity).outbox = s.outbox := rfl
  simp only [receiveResult, engine, engine', outbox]
  split
  · rfl
  · split <;> rfl

/-- Who has manners does the same in front of channels of any capacity. -/
theorem perform_withCapacity {action : Action} (mannered : action.mannered = true) (h : w.Tended)
    (h' : (w.withCapacity capacity).Tended) :
    (w.withCapacity capacity).perform action
      = ((w.perform action).1, (w.perform action).2.withCapacity capacity) := by
  obtain ⟨s, engine⟩ := h.attended.sealer
  obtain ⟨intake, hi, -⟩ := h.attended.sound
  have attached := h.attended.attached
  cases action with
  | send | startDevnet | dropEngine => cases mannered
  | sleep duration => simp only [perform, sleep_withCapacity capacity duration h h']
  | shutdown => exact shutdown_withCapacity capacity h h'
  | abort i => exact abort_withCapacity capacity attached i
  | receiveResult => exact receiveResult_withCapacity capacity engine
  | push task =>
    have summary : (w.withCapacity capacity).sealerSummary?.isSome = true ∧
        w.sealerSummary?.isSome = true := held_withCapacity capacity engine attached
    simp only [perform, summary, if_true, pushTask_withCapacity capacity engine]
    cases w.pushTask task <;> rfl
  | _ =>
    obtain ⟨now, _, _, _, calls, timers⟩ := w
    obtain rfl := engine
    obtain rfl := hi
    obtain rfl := attached
    rfl

/-! ## Sessions -/

theorem running_withCapacity (w : World) :
    (w.withCapacity capacity).engine.isRunning? = w.engine.isRunning? := by
  obtain ⟨now, engine, intake, attached, calls, timers⟩ := w
  cases engine <;> rfl

theorem signalled_withCapacity (w : World) :
    (w.withCapacity capacity).intake.map Intake.signalled = w.intake.map Intake.signalled := by
  obtain ⟨now, engine, intake, attached, calls, timers⟩ := w
  cases intake <;> rfl

theorem step_withCapacity (hold : Bool) {action : Action} (mannered : action.mannered = true)
    (h : w.Tended) (h' : (w.withCapacity capacity).Tended) :
    (w.withCapacity capacity).step hold action
      = ((w.step hold action).1, (w.step hold action).2.withCapacity capacity) := by
  have tame := Action.tame_of_mannered mannered
  have performed := perform_withCapacity capacity mannered h h'
  cases hold with
  | true =>
    simp only [step, performed, if_true, hashrate_withCapacity, running_withCapacity,
      signalled_withCapacity]
    rfl
  | false =>
    have tended := h'.perform tame
    rw [performed] at tended
    have settled := settle_withCapacity capacity (h.perform tame) tended
    simp only [step, performed, Bool.false_eq_true, if_false, settled, hashrate_withCapacity,
      running_withCapacity, signalled_withCapacity]
    rfl

theorem play_withCapacity {actions : List (Bool × Action)}
    (mannered : ∀ step ∈ actions, step.2.mannered = true) (h : w.Tended)
    (h' : (w.withCapacity capacity).Tended) :
    (w.withCapacity capacity).play actions = w.play actions ∧
      (w.withCapacity capacity).after actions = (w.after actions).withCapacity capacity := by
  induction actions generalizing w with
  | nil => exact ⟨rfl, rfl⟩
  | cons step rest ih =>
    obtain ⟨hold, action⟩ := step
    have first : action.mannered = true := mannered _ List.mem_cons_self
    have tame := Action.tame_of_mannered first
    have same := step_withCapacity capacity hold first h h'
    have next := h'.step hold tame
    rw [same] at next
    obtain ⟨reports, state⟩ :=
      ih (fun step there => mannered step (List.mem_cons_of_mem _ there)) (h.step hold tame) next
    simp only [play, after, same, reports, state, and_self]

theorem started_withCapacity (settings : EngineSettings) (verifier : Verifier) :
    started (settings.withCapacity capacity) verifier
      = (started settings verifier).withCapacity capacity := by
  by_cases broken : settings.cleanupInterval = 0
  · simp [started, Sealer.start, broken, withCapacity, Engine.withCapacity, Sealer.withCapacity,
      EngineSettings.withCapacity, Intake.withCapacity, Intake.abandon, Intake.start]
  · simp [started, Sealer.start, broken, withCapacity, Engine.withCapacity, Sealer.withCapacity,
      EngineSettings.withCapacity, Intake.withCapacity, Intake.start]

/-- **The capacity of the channels cannot be seen.** Two sealers whose settings differ in the
capacity alone answer a session in which nobody puts letters on the channels directly with the same
reports: the results of all actions, the answers to all calls, the hash rate, and whether the loop
runs. In the end they are in the same state, results that nobody received included. -/
theorem capacity_unseen (settings : EngineSettings) (verifier : Verifier) (capacity : Nat)
    (actions : List (Bool × Action)) (mannered : ∀ step ∈ actions, step.2.mannered = true) :
    let start := started settings verifier
    let other := started (settings.withCapacity capacity) verifier
    other.session actions = start.session actions ∧
      other.settle.after actions = (start.settle.after actions).withCapacity capacity := by
  intro start other
  have same : other = start.withCapacity capacity := started_withCapacity capacity settings verifier
  have tended : start.Tended := .started settings verifier
  have tended' : other.Tended := .started (settings.withCapacity capacity) verifier
  have settled : other.settle = start.settle.withCapacity capacity := by
    rw [same] at tended' ⊢
    exact settle_withCapacity capacity tended tended'
  have settled' := tended'.settle
  rw [settled] at settled'
  rw [session, session, settled]
  exact play_withCapacity capacity mannered tended.settle settled'

/-- Two miners ask for work, and one submits, all before the task comes at the same instant; one
reports a rate, and nobody renews it. -/
def crowd : List (Bool × Action) :=
  let task : Task := ⟨default, 7, .labelled "a"⟩
  [(true, .request .getWork), (true, .request (.submitWork default default default none)),
    (true, .request .getWork), (true, .push task), (false, .request (.submitHashrate 5 default)),
    (false, .receiveResult), (false, .sleep 20000)]

/-- Whether one letter has room or a thousand, four callers have their answers after one settling.
-/
theorem capacity_unseen_crowd :
    let settings : EngineSettings := { intakeCapacity := 0 }
    (started (settings.withCapacity 1000) .acceptAll).session crowd
        = (started settings .acceptAll).session crowd ∧
      ((started settings .acceptAll).session crowd).map
          (fun report => (report.done.length, report.hashrate))
        = [(0, some 0), (0, some 0), (0, some 0), (0, some 0),
          (4, some 5), (0, some 5), (0, some 0)] := by
  refine ⟨(capacity_unseen _ .acceptAll 1000 crowd (by decide)).1, ?_⟩
  decide +kernel

end World

end MinerGateway
