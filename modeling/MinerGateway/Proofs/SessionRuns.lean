import MinerGateway.Proofs.TimedRuns
import MinerGateway.Proofs.Turns

/-!
Sessions are runs.

Settling, the passing of time and each action of a session are chains of steps, so whatever holds
along every run holds along every session (`exists_run_after`). Among these steps no caller goes
away but the one that the action is about (`reaches_perform`), and unless the action is to sleep,
time stands still (`within_perform`). The chains are the same for every condition on steps that
actions and settling meet (`Instant`), and so a session is a run by this condition
(`exists_runBy_session`).

Correspondence (session ↔ run):
  one action at one instant                    ↔ `Within`
  an action that may let time pass             ↔ `Reaches`, `ReachesBy`
  a session with the callers that were aborted ↔ `exists_run_after`
  steps in turn, or punctual steps             ↔ an `Instant` condition

The converse does not hold, and is not wanted: a run may take turns in orders that no session takes,
so what is proved along all runs does not depend on the order of turns.
-/

namespace MinerGateway

/-- Nothing is reported, and no caller goes away but this one. -/
def Event.Under (leaver : Option Nat) : Event → Prop
  | .reported => False
  | .aborted call => leaver = some call
  | _ => True

def Action.leaver : Action → Option Nat
  | .abort call => some call
  | _ => none

namespace World

def after (w : World) : List (Bool × Action) → World
  | [] => w
  | (hold, action) :: rest => (w.step hold action).2.after rest

/-- Some run leads from one state to the other in which nothing is reported and no caller goes away
but this one. -/
def Reaches (leaver : Option Nat) (w w' : World) : Prop :=
  ∃ log, w.Run log w' ∧ ∀ e ∈ log, Event.Under leaver e

/-- Such a run leads from one state to the other each step of which satisfies a condition. -/
def ReachesBy (ok : World → World → Prop) (leaver : Option Nat) (w w' : World) : Prop :=
  ∃ log, w.RunBy ok log w' ∧ ∀ e ∈ log, Event.Under leaver e

/-- Such a run leads from one state to the other at one instant. -/
def Within (leaver : Option Nat) (w w' : World) : Prop := ReachesBy Still leaver w w'

variable {w w' : World} {leaver : Option Nat}

theorem after_append (w : World) (front back : List (Bool × Action)) :
    w.after (front ++ back) = (w.after front).after back := by
  induction front generalizing w with
  | nil => rfl
  | cons step rest ih => exact ih _

theorem step_snd (w : World) (action : Action) :
    (w.step false action).2 = (w.perform action).2.settle.markReported := by
  unfold step
  rfl

theorem step_held (w : World) (action : Action) :
    (w.step true action).2 = (w.perform action).2 := by
  unfold step
  rfl

theorem step_done (w : World) (action : Action) :
    (w.step false action).1.done = (w.perform action).2.settle.unreported := by
  unfold step
  rfl

theorem step_hashrate (w : World) (action : Action) :
    (w.step false action).1.hashrate = if (w.perform action).2.settle.attached
      then some (w.perform action).2.settle.engine.hashrate else none := by
  unfold step
  rfl

theorem perform_sleep (w : World) (duration : Nat) :
    (w.perform (.sleep duration)).2 = w.sleep duration := rfl

theorem after_concat (w : World) (actions : List (Bool × Action)) (action : Action) :
    w.after (actions ++ [(false, action)])
      = ((w.after actions).perform action).2.settle.markReported := by
  rw [after_append, ← step_snd]
  rfl

namespace ReachesBy

variable {ok : World → World → Prop}

theorem refl (w : World) : ReachesBy ok leaver w w := by
  refine ⟨[], .refl, ?_⟩
  intro e he
  exact absurd he List.not_mem_nil

theorem trans {a b c : World} (h : ReachesBy ok leaver a b) (h' : ReachesBy ok leaver b c) :
    ReachesBy ok leaver a c := by
  obtain ⟨log, h, under⟩ := h
  obtain ⟨more, h', under'⟩ := h'
  refine ⟨log ++ more, h.trans h', ?_⟩
  intro e he
  rcases List.mem_append.mp he with he | he
  · exact under e he
  · exact under' e he

theorem of_act {e : Event} (h : Act w e w') (under : e.Under leaver) (fine : ok w w') :
    ReachesBy ok leaver w w' := by
  refine ⟨[e], .single (.act h) fine, ?_⟩
  intro e' he
  rw [List.mem_singleton.mp he]
  exact under

theorem of_move {e : Event} (h : Move w e w') (fine : ok w w') : ReachesBy ok leaver w w' := by
  refine ⟨[e], .single (.move h) fine, ?_⟩
  intro e' he
  rw [List.mem_singleton.mp he]
  cases h with
  | @advance i call stage => cases stage <;> trivial
  | _ => trivial

/-- Where nobody goes away, nobody but this one does. -/
theorem anyhow (h : ReachesBy ok none w w') : ReachesBy ok leaver w w' := by
  obtain ⟨log, run, under⟩ := h
  refine ⟨log, run, ?_⟩
  intro e he
  cases e with
  | aborted call =>
    have nobody : none = some call := under _ he
    cases nobody
  | reported => exact under _ he
  | _ => trivial

theorem mono {ok' : World → World → Prop} (h : ReachesBy ok leaver w w')
    (weaker : ∀ w w', ok w w' → ok' w w') : ReachesBy ok' leaver w w' := by
  obtain ⟨log, run, under⟩ := h
  exact ⟨log, run.mono weaker, under⟩

theorem reaches (h : ReachesBy ok leaver w w') : Reaches leaver w w' := by
  obtain ⟨log, run, under⟩ := h
  exact ⟨log, run.run, under⟩

end ReachesBy

theorem Within.punctual (h : Within leaver w w') : ReachesBy Punctual leaver w w' := by
  obtain ⟨log, still, under⟩ := h
  exact ⟨log, still.punctual, under⟩

/-! ## Settling and time -/

section

variable {ok : World → World → Prop}

theorem reachesBy_run (moves : ∀ {w w'}, w.move = some w' → ok w w') (n : Nat) (w : World) :
    ReachesBy ok leaver w (w.run n) := by
  induction n generalizing w with
  | zero => exact .refl w
  | succ n ih =>
    unfold run
    split
    · next next h =>
      obtain ⟨e, step⟩ := move_move h
      exact .trans (.of_move step (moves h)) (ih next)
    · exact .refl w

theorem reachesBy_advance (moves : ∀ {w w'}, w.move = some w' → ok w w')
    (acts : ∀ {w e w'}, Act w e w' → ok w w') (fuel target : Nat) (w : World) :
    ReachesBy ok leaver w (w.advance fuel target) := by
  induction fuel generalizing w with
  | zero => exact .of_act .pass trivial (acts .pass)
  | succ fuel ih =>
    unfold advance
    split
    · exact .of_act .pass trivial (acts .pass)
    · next timer timers h =>
      have quiet : ReachesBy ok leaver _
          ({ w with now := timer.due, timers }.fire timer.owner).quiesce :=
        reachesBy_run moves _ _
      exact .trans (.of_act (.ring h) trivial (acts (.ring h))) (quiet.trans (ih _))

end

theorem within_run (n : Nat) (w : World) : Within leaver w (w.run n) := by
  apply reachesBy_run
  intro w w' h
  obtain ⟨e, step⟩ := move_move h
  exact still_move step

theorem within_begin (w : World) (i : Nat) : Within leaver w (w.begin i) := by
  rcases begin_move_or_eq w i with ⟨e, step⟩ | same
  · exact .of_move step (still_move step)
  · rw [same]
    exact .refl w

theorem within_foldl_begin (indices : List Nat) (w : World) :
    Within leaver w (indices.foldl begin w) := by
  induction indices generalizing w with
  | nil => exact .refl w
  | cons i rest ih => exact .trans (within_begin w i) (ih _)

theorem within_settle (w : World) : Within leaver w w.settle :=
  .trans (within_run _ w) (.trans (within_foldl_begin _ _) (within_run _ _))

theorem reaches_run (n : Nat) (w : World) : Reaches leaver w (w.run n) :=
  (within_run n w).reaches

theorem reaches_foldl_begin (indices : List Nat) (w : World) :
    Reaches leaver w (indices.foldl begin w) :=
  (within_foldl_begin indices w).reaches

theorem reaches_settle (w : World) : Reaches leaver w w.settle := (within_settle w).reaches

/-- Time passes somehow. -/
def Anytime (_ _ : World) : Prop := True

theorem reachesBy_sleep (w : World) (duration : Nat) :
    ReachesBy Anytime leaver w (w.sleep duration) := by
  have settled : Within leaver w w.settle := within_settle w
  have settled : ReachesBy Anytime leaver w w.settle := settled.mono fun _ _ _ => trivial
  exact settled.trans (reachesBy_advance (fun _ => trivial) (fun _ => trivial) _ _ _)

/-! ## Actions -/

/-- Whatever is done at one instant meets the condition, and so do the steps in which the gateway
settles. -/
structure Instant (ok : World → World → Prop) : Prop where
  act : ∀ {w e w'}, Act w e w' → Still w w' → ok w w'
  settle : ∀ w, ReachesBy ok none w w.settle

variable {ok : World → World → Prop}

theorem Instant.of_act (instant : Instant ok) {e : Event} (h : Act w e w') (under : e.Under leaver)
    (still : Still w w') : ReachesBy ok leaver w w' :=
  .of_act h under (instant.act h still)

theorem instant_still : Instant Still := ⟨fun _ still => still, within_settle⟩

theorem instant_anytime : Instant Anytime := by
  refine ⟨fun _ _ => trivial, ?_⟩
  intro w
  have settled : Within none w w.settle := within_settle w
  exact settled.mono fun _ _ _ => trivial

theorem reachesBy_signal (instant : Instant ok) (w : World) : ReachesBy ok leaver w w.signal :=
  instant.of_act .signal trivial rfl

theorem reachesBy_release (instant : Instant ok) (w : World) : ReachesBy ok leaver w w.release := by
  unfold release
  split
  · exact reachesBy_signal instant w
  · exact .refl w

theorem reachesBy_makeCall (instant : Instant ok) (w : World) {errand : Errand}
    (h : errand ≠ .letter) :
    ReachesBy ok leaver w (w.makeCall errand).2 :=
  instant.of_act (.make h) trivial rfl

theorem reachesBy_call (instant : Instant ok) (w : World) {errand : Errand} (h : errand ≠ .letter) :
    ReachesBy ok leaver w (w.call errand).2 := by
  unfold call
  split
  · exact reachesBy_makeCall instant w h
  · exact .refl w

theorem ofRpc_ne_letter (call : Option Rpc.Call) : Errand.ofRpc call ≠ .letter := by
  unfold Errand.ofRpc
  split
  · simp
  · split <;> simp

theorem reachesBy_send (instant : Instant ok) (w : World) (message : Message) :
    ReachesBy ok leaver w (w.send message).2 := by
  unfold send
  split
  · exact .refl w
  next intake hi =>
  split
  · exact .refl w
  next attended =>
  split
  · next room => exact instant.of_act (.post hi (by simpa using attended) room) trivial rfl
  · exact .refl w

theorem modify_congr {calls : List Call} {i : Nat} {call : Call} {f g : Call → Call}
    (found : calls[i]? = some call) (h : f call = g call) :
    calls.modify i f = calls.modify i g := by
  apply List.ext_getElem?
  intro j
  rw [List.getElem?_modify, List.getElem?_modify]
  by_cases hij : i = j
  · subst hij
    simp [found, h]
  · simp [hij]

theorem reachesBy_abort (instant : Instant ok) (w : World) (i : Nat) :
    ReachesBy ok (some i) w (w.abort i).2 := by
  unfold abort
  split
  · next errand stage found =>
    refine .trans ?_ (reachesBy_release instant _)
    -- A call that has its answer keeps it when its caller goes away.
    by_cases h : ({ errand, stage, reported := false } : Call).answer? = none
    · have same := modify_congr (f := Call.abort)
        (g := fun call => { call with stage := .finished .aborted }) found
        (by cases stage <;> first | rfl | cases h)
      rw [same]
      exact instant.of_act (.abort found h) rfl rfl
    · have same := modify_congr (f := Call.abort) (g := id) found
        (by cases stage <;> first | rfl | exact absurd rfl h)
      rw [same, List.modify_id]
      exact .refl w
  · exact .refl w

theorem reachesBy_close (instant : Instant ok) (w : World) : ReachesBy ok leaver w w.close.2 := by
  unfold close
  split
  · split
    · exact reachesBy_signal instant w
    · exact .refl w
  · split
    · exact reachesBy_signal instant w
    · exact .refl w

theorem reachesBy_beginShutdown (instant : Instant ok) (w : World) :
    ReachesBy ok leaver w w.beginShutdown.1 := by
  have signal : ReachesBy ok leaver w w.signal := reachesBy_signal instant w
  unfold beginShutdown
  split
  · next now sealer intake attached calls timers h =>
    rw [h] at signal ⊢
    exact .trans signal (instant.of_act (.join rfl) trivial rfl)
  · exact signal

theorem reachesBy_shutdown (instant : Instant ok) (w : World) :
    ReachesBy ok leaver w w.shutdown.2 := by
  have begun : ReachesBy ok leaver w w.beginShutdown.1 := reachesBy_beginShutdown instant w
  unfold shutdown
  split
  · split
    · next next h =>
      rw [h] at begun
      exact .trans begun (instant.settle next).anyhow
    · next next h =>
      rw [h] at begun
      exact begun
  · exact .refl w

theorem reachesBy_receiveResult (instant : Instant ok) (w : World) :
    ReachesBy ok leaver w w.receiveResult.2 := by
  unfold receiveResult
  split
  · next sealer engine =>
    split
    · exact .refl w
    next attended =>
    split
    · next work outbox h =>
      exact instant.of_act (.receive engine (by simpa using attended) h) trivial rfl
    · exact .refl w
  · exact .refl w

theorem reachesBy_dropResults (instant : Instant ok) (w : World) :
    ReachesBy ok leaver w w.dropResults := by
  unfold dropResults
  split
  · next sealer engine => exact instant.of_act (.abandon engine) trivial rfl
  · exact .refl w

theorem inbox?_eq_some {intake : Intake} {script : Script} (h : w.inbox? = some (intake, script)) :
    w.engine = .scripted script ∧ w.intake = some intake ∧ intake.attended = true := by
  unfold inbox? at h
  split at h
  · next engine hi =>
    split at h
    · next attended =>
      cases h
      exact ⟨engine, hi, attended⟩
    · cases h
  · cases h

theorem letGo_eq_some {held : Nat} {letter : Letter} (h : w.letGo held = some (letter, w')) :
    ∃ script, w.engine = .scripted script ∧ script.held[held]? = some (some letter) ∧
      w' = { w with engine := .scripted { script with held := script.held.set held none } } := by
  unfold letGo at h
  split at h
  · next script engine =>
    split at h
    · next found =>
      cases h
      exact ⟨script, engine, found, rfl⟩
    · cases h
  · cases h

theorem reachesBy_take (instant : Instant ok) (w : World) (kind : Kind) :
    ReachesBy ok leaver w (w.take kind).2 := by
  unfold take
  split
  · exact .refl w
  next intake script inbox =>
  obtain ⟨engine, hi, -⟩ := inbox?_eq_some inbox
  split
  · exact .refl w
  · next letter rest h => exact instant.of_act (.take engine hi h) trivial rfl

theorem reachesBy_deliver (instant : Instant ok) {held : Nat} {letter : Letter} {reply : Reply}
    (h : w.letGo held = some (letter, w'))
    (fit : reply = .lost ∨ ∃ ruling : Ruling, ruling.reply? letter.message = some reply) :
    ReachesBy ok leaver w (w'.deliver letter.sender reply) := by
  obtain ⟨script, engine, found, rfl⟩ := letGo_eq_some h
  exact instant.of_act (.resolve engine found fit) trivial rfl

theorem reachesBy_respond (instant : Instant ok) (w : World) (held : Nat) (ruling : Ruling) :
    ReachesBy ok leaver w (w.respond held ruling).2 := by
  unfold respond
  split
  · exact .refl w
  next letter next h =>
  split
  · next reply hr => exact reachesBy_deliver instant h (.inr ⟨ruling, hr⟩)
  · exact reachesBy_deliver instant h (.inl rfl)

theorem reachesBy_dropInbox (instant : Instant ok) (w : World) :
    ReachesBy ok leaver w w.dropInbox := by
  unfold dropInbox
  split
  · next intake script inbox =>
    obtain ⟨engine, hi, -⟩ := inbox?_eq_some inbox
    exact instant.of_act (.drop engine hi) trivial (lose_clock _ _).1
  · exact .refl w

theorem reachesBy_pushTask (instant : Instant ok) {task : Task} (h : w.pushTask task = .ok w') :
    ReachesBy ok leaver w w' :=
  instant.of_act (.push h) trivial (pushTask_clock h).1

theorem reachesBy_perform (instant : Instant ok) (w : World) (action : Action)
    (awake : ∀ duration, action ≠ .sleep duration) :
    ReachesBy ok action.leaver w (w.perform action).2 := by
  cases action with
  | request request => exact reachesBy_call instant w (by simp)
  | rpc call => exact reachesBy_call instant w (ofRpc_ne_letter call)
  | readHashrate =>
    simp only [perform]
    split
    · exact instant.of_act .read trivial rfl
    · exact .refl w
  | send message => exact reachesBy_send instant w message
  | watchExit =>
    simp only [perform]
    split
    · exact reachesBy_makeCall instant w (by simp)
    · exact .refl w
  | abort i => exact reachesBy_abort instant w i
  | push task =>
    simp only [perform]
    split
    · split
      · next h => exact reachesBy_pushTask instant h
      · exact .refl w
    · exact .refl w
  | startDevnet interval =>
    simp only [perform]
    split
    · exact reachesBy_call instant w (by simp)
    · exact .refl w
  | close => exact reachesBy_close instant w
  | shutdown => exact reachesBy_shutdown instant w
  | summarize =>
    simp only [perform]
    split <;> exact .refl w
  | dropEngine => exact .trans (instant.of_act .detach trivial rfl) (reachesBy_release instant _)
  | receiveResult => exact reachesBy_receiveResult instant w
  | dropResults => exact reachesBy_dropResults instant w
  | setHashrate rate =>
    simp only [perform]
    split
    · next engine _ => exact instant.of_act (.setHashrate engine) trivial rfl
    · exact .refl w
  | take kind => exact reachesBy_take instant w kind
  | respond held ruling => exact reachesBy_respond instant w held ruling
  | dropHeld held =>
    simp only [perform]
    split
    · next h => exact reachesBy_deliver instant h (.inl rfl)
    · exact .refl w
  | dropInbox => exact reachesBy_dropInbox instant w
  | readSignal =>
    simp only [perform]
    split <;> exact .refl w
  | sleep duration => exact absurd rfl (awake duration)

/-- An action takes no time, unless it is to sleep. -/
theorem within_perform (w : World) (action : Action)
    (awake : ∀ duration, action ≠ .sleep duration) :
    Within action.leaver w (w.perform action).2 :=
  reachesBy_perform instant_still w action awake

/-- Sleeping meets the condition as well. -/
def Sleeps (ok : World → World → Prop) : Prop :=
  ∀ w duration, ReachesBy ok none w (w.sleep duration)

theorem reachesBy_action (instant : Instant ok) (sleeps : Sleeps ok) (w : World) (action : Action) :
    ReachesBy ok action.leaver w (w.perform action).2 := by
  by_cases asleep : ∃ duration, action = .sleep duration
  · obtain ⟨duration, rfl⟩ := asleep
    rw [perform_sleep]
    exact (sleeps w duration).anyhow
  · exact reachesBy_perform instant w action (not_exists.mp asleep)

theorem reaches_perform (w : World) (action : Action) :
    Reaches action.leaver w (w.perform action).2 :=
  (reachesBy_action instant_anytime reachesBy_sleep w action).reaches

/-! ## Sessions -/

theorem exists_runBy_step (instant : Instant ok) (sleeps : Sleeps ok) (w : World) (hold : Bool)
    (action : Action) :
    ∃ log, w.RunBy ok log (w.step hold action).2 ∧
      ∀ e ∈ log, e = .reported ∨ e.Under action.leaver := by
  obtain ⟨log, run, under⟩ := reachesBy_action instant sleeps w action
  cases hold with
  | true =>
    refine ⟨log, run, ?_⟩
    intro e he
    exact .inr (under e he)
  | false =>
    have settled : ReachesBy ok action.leaver _ (w.perform action).2.settle :=
      (instant.settle _).anyhow
    obtain ⟨more, run', under'⟩ := settled
    have whole := (run.trans run').next (.act .report) (instant.act .report rfl)
    refine ⟨log ++ more ++ [.reported], whole, ?_⟩
    intro e he
    rcases List.mem_append.mp he with he | he
    · rcases List.mem_append.mp he with he | he
      · exact .inr (under e he)
      · exact .inr (under' e he)
    · exact .inl (List.mem_singleton.mp he)

/-- A session is a run by the condition, in which only those callers go away that were aborted. -/
theorem exists_runBy_after (instant : Instant ok) (sleeps : Sleeps ok) (w : World)
    (actions : List (Bool × Action)) :
    ∃ log, w.RunBy ok log (w.after actions) ∧
      ∀ i, .aborted i ∈ log → Action.abort i ∈ actions.map Prod.snd := by
  induction actions generalizing w with
  | nil =>
    refine ⟨[], .refl, ?_⟩
    intro i hi
    exact absurd hi List.not_mem_nil
  | cons step rest ih =>
    obtain ⟨hold, action⟩ := step
    obtain ⟨log, run, under⟩ := exists_runBy_step instant sleeps w hold action
    obtain ⟨more, run', aborted⟩ := ih (w.step hold action).2
    refine ⟨log ++ more, run.trans run', ?_⟩
    intro i hi
    rcases List.mem_append.mp hi with hi | hi
    · rcases under _ hi with h | h
      · cases h
      · -- No other action sends a caller away.
        have target : action.leaver = some i := h
        cases action with
        | abort j =>
          obtain rfl : j = i := Option.some.inj target
          exact List.mem_cons_self
        | _ => cases target
    · exact List.mem_cons_of_mem _ (aborted i hi)

theorem exists_runBy_session (instant : Instant ok) (sleeps : Sleeps ok) (w : World)
    (actions : List (Bool × Action)) :
    ∃ log, w.RunBy ok log (w.settle.after actions) ∧
      ∀ i, .aborted i ∈ log → Action.abort i ∈ actions.map Prod.snd := by
  obtain ⟨log, run, under⟩ := instant.settle w
  obtain ⟨more, run', aborted⟩ := exists_runBy_after instant sleeps w.settle actions
  refine ⟨log ++ more, run.trans run', ?_⟩
  intro i hi
  rcases List.mem_append.mp hi with hi | hi
  · have nobody : none = some i := under _ hi
    cases nobody
  · exact aborted i hi

theorem exists_run_step (w : World) (hold : Bool) (action : Action) :
    ∃ log, w.Run log (w.step hold action).2 ∧ ∀ e ∈ log, e = .reported ∨ e.Under action.leaver := by
  obtain ⟨log, run, under⟩ := exists_runBy_step instant_anytime reachesBy_sleep w hold action
  exact ⟨log, run.run, under⟩

/-- **A session is a run**, in which only those callers go away that were aborted. -/
theorem exists_run_after (w : World) (actions : List (Bool × Action)) :
    ∃ log, w.Run log (w.after actions) ∧
      ∀ i, .aborted i ∈ log → Action.abort i ∈ actions.map Prod.snd := by
  obtain ⟨log, run, aborted⟩ := exists_runBy_after instant_anytime reachesBy_sleep w actions
  exact ⟨log, run.run, aborted⟩

theorem exists_run_session (w : World) (actions : List (Bool × Action)) :
    ∃ log, w.Run log (w.settle.after actions) ∧
      ∀ i, .aborted i ∈ log → Action.abort i ∈ actions.map Prod.snd := by
  obtain ⟨log, run, aborted⟩ := exists_runBy_session instant_anytime reachesBy_sleep w actions
  exact ⟨log, run.run, aborted⟩

end World

end MinerGateway
