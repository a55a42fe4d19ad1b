import MinerGateway.Proofs.AfterExit

/-!
Shutting a sealer down from several places at once.

Whoever asks gives the exit signal, and takes the handle of the worker's loop to wait for its end.
There is one handle: whoever asks later finds none and returns at once, even if the one who took it
still waits, or was aborted while waiting. So the first who asks returns only after the loop has
ended, and everybody else without waiting for it (`only_first_shutdown_waits`).

Correspondence (shutting down ↔ definition):
  one call, from its beginning to its return     ↔ `Shutdown`
  all of them in front of one gateway            ↔ `Closing`
  a call takes the handle, or finds none         ↔ `ask`
  a step of the gateway or of one of the calls   ↔ `Step`
  any interleaving from the start of the sealer  ↔ `Reachable`

`second_shutdown_returns_early` is a case in which the second call has returned and the worker still
runs: so it is not true that whoever has returned has waited for the worker.
-/

namespace MinerGateway

/-- How far a call of `shutdown` has come. -/
inductive Shutdown where
  /-- Waits for the loop to end. -/
  | waiting
  | returned
  /-- Was aborted while it waited. -/
  | aborted
  deriving DecidableEq, Repr

/-- A gateway and the calls of `shutdown` on its sealer, in the order in which they were made. -/
structure Closing where
  world : World
  shutdowns : List Shutdown := []

namespace World

/-- Whether someone has taken the handle of the worker's loop. -/
def isJoined (w : World) : Bool :=
  match w.engine with
  | .sealer sealer => sealer.joined
  | _ => false

def Runs (w : World) : Prop := ∃ sealer, w.engine = .sealer sealer ∧ sealer.loop = .running

variable {w : World} {sealer : Sealer}

theorem isJoined_eq (engine : w.engine = .sealer sealer) : w.isJoined = sealer.joined := by
  rw [isJoined, engine]

theorem beginShutdown_eq (engine : w.engine = .sealer sealer) :
    w.beginShutdown = ({ w.signal with engine := .sealer { sealer with joined := true } },
      !sealer.joined) := by
  obtain ⟨now, engine', intake, attached, calls, timers⟩ := w
  obtain rfl : engine' = .sealer sealer := engine
  rfl

end World

namespace Closing

/-- One more call of `shutdown` begins. It waits if it gets the handle, and otherwise it is through.
-/
def ask (c : Closing) : Closing where
  world := c.world.beginShutdown.1
  shutdowns := c.shutdowns ++ [if c.world.beginShutdown.2 then .waiting else .returned]

/-- What can happen while calls of `shutdown` are under way: the gateway takes a step, a call is
made, comes to its end with the loop, or is aborted. -/
inductive Step (c : Closing) : Closing → Prop where
  | world {e w} (step : MinerGateway.Step c.world e w) (handle : w.isJoined = c.world.isJoined) :
    Step c { c with world := w }
  | ask (held : c.world.sealerSummary?.isSome = true) : Step c c.ask
  | finish {i} (waits : c.shutdowns[i]? = some .waiting) (idle : ¬c.world.Runs) :
    Step c { c with shutdowns := c.shutdowns.set i .returned }
  | abort {i} (waits : c.shutdowns[i]? = some .waiting) :
    Step c { c with shutdowns := c.shutdowns.set i .aborted }

inductive Reachable (settings : EngineSettings) (verifier : Verifier) : Closing → Prop where
  | start : Reachable settings verifier ⟨.started settings verifier, []⟩
  | next {c c'} (before : Reachable settings verifier c) (step : Step c c') :
    Reachable settings verifier c'

/-- The sealer says that its worker does not run, and there is no hash rate. -/
structure Ended (c : Closing) : Prop where
  stopped : c.world.engine.isRunning? = some false
  rateless : c.world.engine.hashrate = 0

/-- The first call has taken the handle, and no other waits. -/
structure OneWaits (settings : EngineSettings) (verifier : Verifier) (c : Closing) : Prop where
  run : ∃ log, (World.started settings verifier).Run log c.world
  joined : c.world.isJoined = !c.shutdowns.isEmpty
  signalled : c.shutdowns ≠ [] → c.world.isSignalled = true
  later : ∀ shutdown ∈ c.shutdowns.tail, shutdown = .returned
  first : 0 < settings.cleanupInterval → c.shutdowns.head? = some .returned → c.world.Over

variable {settings : EngineSettings} {verifier : Verifier} {c c' : Closing}

namespace OneWaits

theorem start : OneWaits settings verifier ⟨.started settings verifier, []⟩ where
  run := ⟨[], .refl⟩
  joined := rfl
  signalled := fun none => absurd rfl none
  later := by simp
  first := by simp

/-- Whoever waits was the first to ask. -/
theorem eq_zero_of_waiting (h : OneWaits settings verifier c) {i : Nat}
    (waits : c.shutdowns[i]? = some .waiting) : i = 0 := by
  obtain ⟨w, shutdowns⟩ := c
  cases i with
  | zero => rfl
  | succ i =>
    cases shutdowns with
    | nil => cases waits
    | cons head tail =>
      have other := h.later _ (List.mem_of_getElem? waits)
      cases other

theorem world {e : Event} {w : World} (h : OneWaits settings verifier c)
    (step : MinerGateway.Step c.world e w) (handle : w.isJoined = c.world.isJoined) :
    OneWaits settings verifier { c with world := w } := by
  obtain ⟨log, run⟩ := h.run
  refine ⟨⟨_, run.next step⟩, handle.trans h.joined, ?_, h.later, ?_⟩
  · intro asked
    exact World.signalled_run (.single step) (h.signalled asked)
  · intro ticks first
    exact (h.first ticks first).of_run (run.tracked (World.tracked_started ..)) (.single step)

theorem ask (h : OneWaits settings verifier c) : OneWaits settings verifier c.ask := by
  obtain ⟨log, run⟩ := h.run
  obtain ⟨sealer, engine, -⟩ := run.passes_start
  have tracked : c.world.Tracked log := run.tracked (World.tracked_started ..)
  have reached : World.Reaches none c.world c.ask.world :=
    (World.reachesBy_beginShutdown World.instant_anytime c.world).reaches
  obtain ⟨more, later, -⟩ := reached
  have begun := World.beginShutdown_eq engine
  have wait : c.world.beginShutdown.2 = c.shutdowns.isEmpty := by
    have joined := (World.isJoined_eq engine).symm.trans h.joined
    rw [begun, joined, Bool.not_not]
  have joined : c.ask.world.isJoined = true := by
    rw [Closing.ask, begun]
    rfl
  refine ⟨⟨_, run.trans later⟩, ?_, ?_, ?_, ?_⟩
  · rw [joined]
    simp [Closing.ask]
  · intro _
    exact World.signalled_beginShutdown tracked.connected
  · intro shutdown there
    cases asked : c.shutdowns with
    | nil => simp [Closing.ask, asked] at there
    | cons head tail =>
      simp only [Closing.ask, wait, asked, List.cons_append, List.tail_cons, List.isEmpty_cons,
        Bool.false_eq_true, if_false, List.mem_append, List.mem_singleton] at there
      rcases there with old | new
      · exact h.later shutdown (by simp [asked, old])
      · exact new
  · intro ticks first
    cases asked : c.shutdowns with
    | nil => simp [Closing.ask, wait, asked] at first
    | cons head tail =>
      have before : c.shutdowns.head? = some .returned := by
        simpa [Closing.ask, asked] using first
      exact (h.first ticks before).of_run tracked later

theorem set {i : Nat} {shutdown : Shutdown} (h : OneWaits settings verifier c)
    (waits : c.shutdowns[i]? = some .waiting)
    (idle : shutdown = .returned → ¬c.world.Runs) :
    OneWaits settings verifier { c with shutdowns := c.shutdowns.set i shutdown } := by
  obtain ⟨w, shutdowns⟩ := c
  obtain rfl := h.eq_zero_of_waiting waits
  obtain ⟨log, run⟩ := h.run
  cases shutdowns with
  | nil => cases waits
  | cons head tail =>
    refine ⟨h.run, h.joined, fun _ => h.signalled (by simp), h.later, ?_⟩
    intro ticks first
    have returned : shutdown = .returned := by simpa using first
    apply World.over_of_idle run ticks (h.signalled (by simp))
    intro sealer engine running
    exact idle returned ⟨sealer, engine, running⟩

theorem step (h : OneWaits settings verifier c) (step : Step c c') :
    OneWaits settings verifier c' := by
  cases step with
  | world step handle => exact h.world step handle
  | ask => exact h.ask
  | finish waits idle => exact h.set waits fun _ => idle
  | abort waits => exact h.set waits nofun

end OneWaits

theorem Reachable.oneWaits (h : Reachable settings verifier c) : OneWaits settings verifier c := by
  induction h with
  | start => exact .start
  | next _ step ih => exact ih.step step

/-- While the loop runs, of any two calls that are made one returns. -/
theorem returned_of_ask_ask (reachable : Reachable settings verifier c) (runs : c.world.Runs)
    (held : c.world.sealerSummary?.isSome = true) :
    Reachable settings verifier c.ask.ask ∧ .returned ∈ c.ask.ask.shutdowns ∧ c.ask.ask.world.Runs ∧
      c.ask.ask.world.engine.isRunning? = some true ∧
      c.ask.ask.world.engine.hashrate = c.world.engine.hashrate := by
  obtain ⟨sealer, engine, running⟩ := runs
  have first : c.ask.world.engine = .sealer { sealer with joined := true } := by
    rw [ask, World.beginShutdown_eq engine]
  have second : c.ask.ask.world.engine = .sealer { sealer with joined := true } := by
    rw [ask, World.beginShutdown_eq first]
  have held' : c.ask.world.sealerSummary?.isSome = true := by
    have same : c.ask.world.attached = c.world.attached := by
      rw [ask, World.beginShutdown_eq engine]
      rfl
    rw [World.sealerSummary?] at held ⊢
    rw [same, first]
    split at held
    · cases held
    · next attached => simp [attached, Engine.isRunning?]
  refine ⟨(reachable.next (.ask held)).next (.ask held'), ?_, ⟨_, second, running⟩, ?_, ?_⟩
  · -- The handle is gone when the second asks.
    have last : c.ask.world.beginShutdown.2 = false := by rw [World.beginShutdown_eq first]; rfl
    exact List.mem_append_right _ (by simp [last])
  · simp [second, Engine.isRunning?, running]
  · rw [second, engine]
    rfl

/-- **Only the first shutdown waits.** On a started sealer, whatever else happens: once the first
call of `shutdown` has returned, the worker's loop has ended; every later call has returned as soon
as it was made. So as long as the loop runs, two more calls leave one that has returned while it
still runs. -/
theorem only_first_shutdown_waits (settings : EngineSettings) (verifier : Verifier) :
    ∀ c, Reachable settings verifier c →
      (0 < settings.cleanupInterval → c.shutdowns.head? = some .returned → c.Ended) ∧
      (∀ shutdown ∈ c.shutdowns.tail, shutdown = .returned) ∧
      (c.world.Runs → c.world.sealerSummary?.isSome = true →
        Reachable settings verifier c.ask.ask ∧ .returned ∈ c.ask.ask.shutdowns ∧
          c.ask.ask.world.Runs ∧ c.ask.ask.world.engine.isRunning? = some true ∧
          c.ask.ask.world.engine.hashrate = c.world.engine.hashrate) := by
  intro c reachable
  have waits := reachable.oneWaits
  refine ⟨?_, waits.later, returned_of_ask_ask reachable⟩
  intro ticks first
  obtain ⟨-, sealer, engine, ended, published⟩ := waits.first ticks first
  exact ⟨by simp [engine, Engine.isRunning?, ended], by rw [engine]; exact published⟩

/-- A call that is alone returns after the loop has ended. -/
theorem only_first_shutdown_waits_alone :
    ∃ c, Reachable {} .acceptAll c ∧ c.shutdowns = [.returned] ∧ c.Ended := by
  let start : Closing := ⟨.started {} .acceptAll, []⟩
  have asked : Reachable {} .acceptAll start.ask := .next .start (.ask rfl)
  have working : ∃ sealer intake, start.ask.world.Working sealer intake ∧ intake.signalled = true ∧
      sealer.joined = true :=
    ⟨_, _, ⟨rfl, rfl, rfl⟩, rfl, rfl⟩
  obtain ⟨sealer, intake, working, signalled, joined⟩ := working
  have quit := Move.quit working signalled
  have handle := World.isJoined_eq (World.lose_frame intake.letters
    { start.ask.world with engine := .sealer sealer.exit, intake := some intake.abandon }).1
  have ended := asked.next (.world (.move quit) (handle.trans joined))
  have returned := ended.next (.finish (i := 0) rfl ?_)
  · exact ⟨_, returned, rfl, (only_first_shutdown_waits {} .acceptAll _ returned).1 (by decide) rfl⟩
  · rintro ⟨other, engine, running⟩
    obtain rfl := Engine.sealer.inj ((World.lose_frame ..).1.symm.trans engine)
    cases running

/-- The second of two calls returns while the loop runs, and so does a call after one that was
aborted. -/
theorem second_shutdown_returns_early :
    let start : Closing := ⟨.started {} .acceptAll, []⟩
    let gone : Closing := { start.ask with shutdowns := [.aborted] }
    Reachable {} .acceptAll start.ask.ask ∧ start.ask.ask.shutdowns = [.waiting, .returned] ∧
      start.ask.ask.world.engine.isRunning? = some true ∧
      Reachable {} .acceptAll gone.ask ∧ gone.ask.shutdowns = [.aborted, .returned] ∧
      gone.ask.world.engine.isRunning? = some true ∧
      ¬∀ c, Reachable {} .acceptAll c → .returned ∈ c.shutdowns → c.Ended := by
  intro start gone
  have asked : Reachable {} .acceptAll start.ask := .next .start (.ask rfl)
  have twice : Reachable {} .acceptAll start.ask.ask := .next asked (.ask rfl)
  have left : Step start.ask gone := .abort (i := 0) rfl
  refine ⟨twice, rfl, rfl, .next (asked.next left) (.ask rfl), rfl, rfl, ?_⟩
  intro waited
  have stopped := (waited _ twice (List.mem_cons_of_mem _ List.mem_cons_self)).stopped
  have running : start.ask.ask.world.engine.isRunning? = some true := rfl
  rw [running] at stopped
  cases stopped

end Closing

end MinerGateway
