import MinerGateway.Proofs.OwnReply

/-!
The exit signal cuts exactly at the hand-over of a letter.

Once given, the signal is seen for ever (`signalled_run`), and from then on no call of a miner gets
its letter into a channel, whatever room there is (`entries_of_signalled`). So a call that has
handed over nothing by then is told that the engine has stopped, and a call that has handed over its
letter waits for the reply as if nothing had happened. Both hold in front of a sealer and in front
of a worker's part played by hand, in every state that they can come to.

What is proved (`cut_at_hand_over`), for every engine with a boundary (`Opening`) and every run:
  1. the signal changes no call and no letter (`OnlySignalled`), and everyone who looks sees it from
     then on (`Closed`);
  2. a call that is made later, or waits for room at that time, ends with being told that the engine
     has stopped, and its letter is in no channel and in nobody's hands (`Refused`);
  3. a call that has handed over its letter waits as long as nobody answers or throws away the
     letter, and has the answer that this makes (`Awaits`).

A call that waits looks for the signal before it looks for room; this is in `callMove`, and the
theorem rests on it. Letters may be on the channels when the signal comes: what becomes of them is
for the worker to say, and if the channels go away they are lost.
-/

namespace MinerGateway

/-- An engine with a boundary for miners. -/
inductive Opening where
  | sealer (settings : EngineSettings) (verifier : Verifier)
  | script (capacity : Nat)

def Opening.world : Opening → World
  | .sealer settings verifier => .started settings verifier
  | .script capacity => .scripted capacity

namespace Opening

theorem sound (opening : Opening) : opening.world.Sound := by
  cases opening with
  | sealer settings verifier => exact World.sound_started settings verifier
  | script capacity => exact World.sound_scripted capacity

theorem tracked (opening : Opening) : opening.world.Tracked [] := by
  cases opening with
  | sealer settings verifier => exact World.tracked_started settings verifier
  | script capacity => exact World.tracked_scripted capacity

end Opening

theorem Event.of_entered {e : Event} {i : Nat} {message : Message}
    (h : .entered message ∈ e.happenings i) :
    e = .entered ⟨i, message⟩ ∨ e = .posted ⟨i, message⟩ := by
  cases e with
  | entered letter =>
    simp only [happenings] at h
    split at h
    · next same =>
      obtain rfl : message = letter.message := by simpa using h
      exact .inl (congrArg Event.entered (by rw [← same]))
    · cases h
  | posted letter =>
    simp only [happenings] at h
    split at h
    · next same =>
      obtain rfl : message = letter.message := by simpa using h
      exact .inr (congrArg Event.posted (by rw [← same]))
    · cases h
  | made | taken | served | resolved | finished | aborted =>
    simp only [happenings] at h
    split at h <;> simp at h
  | ended lost | dropped lost =>
    obtain ⟨letter, -, other⟩ := List.mem_map.mp h
    cases other
  | _ => cases h

namespace World

variable {w w' : World} {e : Event} {log more : List Event}

/-! ## The signal stays -/

theorem signalled_signal (h : w.intake ≠ none) : w.signal.isSignalled = true := by
  obtain ⟨intake, hi⟩ := Option.ne_none_iff_exists'.mp h
  exact isSignalled_eq (intake_signal hi)

theorem isSignalled_lose (letters : List Letter) (w : World) :
    (w.lose letters).isSignalled = w.isSignalled := by
  rw [isSignalled, isSignalled, (lose_frame letters w).2.1]

theorem isSignalled_pushTask {task : Task} (h : w.pushTask task = .ok w') :
    w'.isSignalled = w.isSignalled := by
  obtain ⟨sealer, -, -, -, rfl⟩ := pushTask_eq_ok h
  rfl

theorem isSignalled_fire (w : World) (owner : Owner) :
    (w.fire owner).isSignalled = w.isSignalled := by
  unfold fire
  split
  · split <;> rfl
  · rfl
  · rfl

theorem connected_of_signalled (h : w.isSignalled = true) : w.intake ≠ none := by
  intro none
  rw [isSignalled, none] at h
  cases h

theorem signalled_move (step : Move w e w') (h : w.isSignalled = true) : w'.isSignalled = true := by
  cases step with
  | advance | handle | clean => exact h
  | enter _ _ hi quiet =>
    rw [isSignalled_eq hi, quiet] at h
    cases h
  | produce _ _ _ pushed => exact (isSignalled_pushTask pushed).trans h
  | quit working signalled => exact (isSignalled_lose _ _).trans signalled
  | serve working quiet =>
    rw [isSignalled_eq working.intake, quiet] at h
    cases h
  | release => exact signalled_signal (connected_of_signalled h)

theorem signalled_act (step : Act w e w') (h : w.isSignalled = true) : w'.isSignalled = true := by
  cases step with
  | make | abort | receive | abandon | join | setHashrate
      | resolve | read | detach | pass | report =>
    exact h
  | post hi =>
    rw [isSignalled_eq hi] at h
    exact (Intake.signalled_put ..).trans h
  | push pushed => exact (isSignalled_pushTask pushed).trans h
  | signal => exact signalled_signal (connected_of_signalled h)
  | take _ hi taken =>
    rw [isSignalled_eq hi] at h
    exact (Intake.take_frame taken).2.1.trans h
  | drop _ hi =>
    rw [isSignalled_eq hi] at h
    exact (isSignalled_lose _ _).trans h
  | ring => exact (isSignalled_fire _ _).trans h

/-- **The signal is given once and for all.** -/
theorem signalled_run (run : w.Run log w') (h : w.isSignalled = true) : w'.isSignalled = true := by
  apply run.preserves ?_ h
  intro w e w' step
  cases step with
  | move step => exact signalled_move step
  | act step => exact signalled_act step

/-- Whoever looks sees that the exit signal was given: the handle, the inbox as long as there is
one, and in a settled gateway nobody still waits for the signal. -/
structure Closed (w : World) : Prop where
  given : w.isSignalled = true
  reported : ∀ hold action, (w.step hold action).1.signalled = some true
  inbox : ∀ given, (w.perform .readSignal).1 = .ok (.signal given) → given = true
  watched : w.Settled → ∀ i, w.view i ≠ some (.watchExit, .watching)

theorem signalled_step (h : w.isSignalled = true) (hold : Bool) (action : Action) :
    (w.step hold action).1.signalled = some true := by
  obtain ⟨log, run, -⟩ := reaches_perform w action
  have performed : (w.perform action).2.isSignalled = true := signalled_run run h
  -- The report is made before or after settling, and the signal is there in either case.
  have seen : ∀ w : World, w.isSignalled = true → w.intake.map Intake.signalled = some true := by
    intro w h
    obtain ⟨intake, hi⟩ := Option.ne_none_iff_exists'.mp (connected_of_signalled h)
    rw [hi, Option.map_some, ← isSignalled_eq hi, h]
  cases hold with
  | true => exact seen _ performed
  | false =>
    have settle : Reaches none (w.perform action).2 (w.perform action).2.settle := reaches_settle _
    obtain ⟨more, settled, -⟩ := settle
    exact seen _ (signalled_run settled performed)

theorem closed_of_signalled (h : w.isSignalled = true) : w.Closed := by
  refine ⟨h, signalled_step h, ?_, ?_⟩
  · intro given read
    simp only [perform] at read
    split at read
    · next intake script inbox =>
      obtain ⟨-, hi, -⟩ := inbox?_eq_some inbox
      obtain rfl : intake.signalled = given := by simpa using read
      exact (isSignalled_eq hi).symm.trans h
    · cases read
  · intro settled i watching
    obtain ⟨call, found, -, stage⟩ := exists_call watching
    have step : Advances w call.errand call.stage (.finished .exited) := by
      rw [stage]
      exact .exited h
    exact settled _ _ (.advance found step)

/-! ## Before the hand-over -/

/-- Call `i` is not made so far, or it has not come further than to wait for room. -/
def Unsent (w : World) (i : Nat) : Prop :=
  ∀ errand stage, w.view i = some (errand, stage) →
    stage = .made ∨ ∃ message, stage = .waiting message

theorem Tracked.unsent {i : Nat} (tracked : w.Tracked log) (h : w.Unsent i) :
    entries (history i log) = [] := by
  obtain ⟨place, -, follows⟩ := tracked.calls i
  cases hv : w.view i with
  | none =>
    rw [hv] at follows
    rw [follows.1]
    rfl
  | some v =>
    obtain ⟨errand, stage⟩ := v
    have early := h errand stage hv
    rw [hv] at follows
    have life : Life errand (history i log) stage place := follows
    obtain rfl : place = .nowhere := by
      apply nowhere_of_life life
      · rcases early with rfl | ⟨message, rfl⟩ <;> simp
      · rcases early with rfl | ⟨message, rfl⟩ <;> simp
    exact (life.unsent early).1

/-- With the signal given, only a call that posts a letter hands one over. -/
theorem view_of_entered (signalled : w.isSignalled = true) (step : Step w e w') {i : Nat}
    {message : Message} (entered : .entered message ∈ e.happenings i) :
    w'.view i = some (.letter, .sent) := by
  rcases Event.of_entered entered with h | h
  · cases step with
    | move step =>
      cases step with
      | enter _ _ hi quiet =>
        rw [isSignalled_eq hi, quiet] at signalled
        cases signalled
      | @advance _ _ stage => cases stage <;> cases h
      | _ => cases h
    | act step => cases step <;> cases h
  · cases step with
    | move step =>
      cases step with
      | @advance _ _ stage => cases stage <;> cases h
      | _ => cases h
    | act step =>
      cases step with
      | post =>
        obtain rfl : w.calls.length = i := congrArg Letter.sender (Event.posted.inj h)
        have made := view_makeCall w .letter w.calls.length
        rw [if_pos rfl] at made
        rw [view_setStage, if_pos rfl]
        exact congrArg (Option.map fun v => (v.1, Stage.sent)) made
      | _ => cases h

/-- **After the signal no call of a miner hands over its letter.** -/
theorem entries_of_signalled (tracked : w.Tracked log) (signalled : w.isSignalled = true)
    (run : w.Run more w') {i : Nat} {request : Request} {form : Form} {stage : Stage}
    (hv : w'.view i = some (.miner request form, stage)) : entries (history i more) = [] := by
  apply List.eq_nil_iff_forall_not_mem.mpr
  intro message entry
  -- The step at which the letter went in, with the run before and after it.
  obtain ⟨happening, there, entered⟩ := List.mem_filterMap.mp entry
  obtain rfl : happening = .entered message := by
    cases happening <;> simp at entered
    rw [entered]
  obtain ⟨e, he, happened⟩ := List.mem_flatMap.mp there
  obtain ⟨front, back, rfl⟩ := List.append_of_mem he
  obtain ⟨b, b', before, step, after⟩ := run.at_event
  have posted := view_of_entered (signalled_run before signalled) step happened
  have next : b'.Tracked (log ++ (front ++ [e])) := (before.next step).tracked_from tracked
  obtain ⟨stage', later, -⟩ := next.view_run after posted
  rw [hv] at later
  cases later

/-- What becomes of a miner's call that had not handed over its letter when the signal was given. -/
structure Refused (w : World) (log : List Event) (i : Nat) (request : Request) (form : Form)
    (stage : Stage) : Prop where
  /-- Its message goes into no channel. -/
  unsent : entries (history i log) = []
  nowhere : ∀ message, ⟨i, message⟩ ∉ w.queued ++ w.held
  told : ∀ answer, stage = .finished answer →
    answer = form.tell request.stopped ∨ (answer = .aborted ∧ .aborted i ∈ log)
  ends : w.Settled → ∃ answer, stage = .finished answer

theorem Tracked.refused (tracked : w.Tracked log) (signalled : w.isSignalled = true) {i : Nat}
    {request : Request} {form : Form} {stage : Stage}
    (hv : w.view i = some (.miner request form, stage)) (unsent : entries (history i log) = []) :
    w.Refused log i request form stage := by
  obtain ⟨place, lies, life⟩ := tracked.life hv
  -- A letter on its way would have gone out.
  have nowhere : ∀ message, ⟨i, message⟩ ∉ w.queued ++ w.held := by
    intro message there
    have posted := life.posted_of
    generalize takings (history i log) = taken, replies (history i log) = replied at posted
    rw [unsent] at posted
    cases posted with
    | unsent =>
      rcases List.mem_append.mp there with there | there
      · exact (lies message).1 there
      · exact (lies message).2 there
  refine ⟨unsent, nowhere, ?_, ?_⟩
  · intro answer finished
    subst finished
    by_cases gone : answer = .aborted
    · subst gone
      exact .inr ⟨rfl, mem_of_aborted_mem_history life.aborted_mem⟩
    · rcases (life.answer_of_finished gone).2 with ⟨-, -, told⟩ | ⟨message, reply, sent, -⟩
      · exact .inl (request.failure_stopped ▸ told)
      · rw [unsent] at sent
        cases sent
  · intro settled
    rcases stage_of_settled settled tracked hv with finished | ⟨_, intake, -, hi, quiet, -⟩ |
      ⟨-, message, there⟩
    · exact finished
    · rw [isSignalled_eq hi, quiet] at signalled
      cases signalled
    · exact absurd there (nowhere message)

/-! ## After the hand-over -/

/-- What becomes of a miner's call that waits for the reply to its letter, by what has happened
since then. -/
structure Awaits (w : World) (since : List Event) (i : Nat) (request : Request) (form : Form)
    (stage : Stage) : Prop where
  /-- As long as nobody answers or throws away its letter, the letter is on its way. -/
  waits : replies (history i since) = [] → .aborted i ∉ since →
    stage = .sent ∧ ∃ message, ⟨i, message⟩ ∈ w.queued ++ w.held
  told : ∀ answer, stage = .finished answer →
    (∃ reply, replies (history i since) = [reply] ∧ answer = form.tell (request.outcome reply)) ∨
      (answer = .aborted ∧ .aborted i ∈ since)

theorem Tracked.awaits (tracked : w.Tracked log) (run : w.Run more w') {i : Nat} {request : Request}
    {form : Form} {stage : Stage} (before : w.view i = some (.miner request form, .sent))
    (hv : w'.view i = some (.miner request form, stage)) : w'.Awaits more i request form stage := by
  obtain ⟨place, lies, life⟩ := tracked.life before
  obtain ⟨message, letter⟩ := life.message?_of_sent
  obtain ⟨-, sent, -, unanswered⟩ := life.posted_of.of_message? letter
  have tracked' : w'.Tracked (log ++ more) := run.tracked_from tracked
  obtain ⟨place', lies', life'⟩ := tracked'.life hv
  have sent' : entries (history i (log ++ more)) ≠ [] := by
    rw [history_append, entries_append, sent]
    exact List.cons_ne_nil _ _
  have since : replies (history i (log ++ more)) = replies (history i more) := by
    rw [history_append, replies_append, unanswered, List.nil_append]
  -- The call had not been sent away before, so if it was, that was since then.
  have gone : stage = .finished .aborted → .aborted i ∈ more := by
    intro h
    subst h
    have there := life'.aborted_mem
    rw [history_append] at there
    refine mem_of_aborted_mem_history ((List.mem_append.mp there).resolve_left ?_)
    intro early
    have answered : .aborted ∈ answers (history i log) :=
      List.mem_filterMap.mpr ⟨.aborted, early, rfl⟩
    rw [life.answers_eq] at answered
    cases answered
  constructor
  · intro silent stays
    have posted := life'.posted_of
    rw [since, silent] at posted
    generalize hsent : entries (history i (log ++ more)) = sent,
      takings (history i (log ++ more)) = taken at posted
    cases posted with
    | unsent => exact absurd hsent sent'
    | queued s =>
      refine ⟨s.resolve_right fun h => stays (gone h), _, List.mem_append_left _ lies'⟩
    | held s =>
      refine ⟨s.resolve_right fun h => stays (gone h), _, List.mem_append_right _ lies'⟩
  · intro answer finished
    subst finished
    by_cases aborted : answer = .aborted
    · subst aborted
      exact .inr ⟨rfl, gone rfl⟩
    · rcases (life'.answer_of_finished aborted).2 with ⟨none, -⟩ | ⟨_, reply, -, -, one, -, told⟩
      · exact absurd none sent'
      · exact .inl ⟨reply, since ▸ one, told⟩

/-! ## The cut -/

/-- What the exit signal leaves as it was: every call, and every letter on its way. -/
structure OnlySignalled (w w' : World) : Prop where
  given : w'.isSignalled = true
  calls : ∀ i, w'.view i = w.view i
  queued : w'.queued = w.queued
  held : w'.held = w.held

theorem onlySignalled (connected : w.intake ≠ none) (step : Step w .signalled w') :
    OnlySignalled w w' := by
  have signal : OnlySignalled w w.signal :=
    ⟨signalled_signal connected, fun _ => rfl, queued_signal w, rfl⟩
  cases step with
  | move step =>
    generalize he : Event.signalled = e at step
    cases step with
    | release => exact signal
    | @advance _ _ stage => cases stage <;> cases he
    | _ => cases he
  | act step =>
    cases step with
    | signal => exact signal

/-- **The exit signal cuts at the hand-over.** Every session on an engine with a boundary is a run,
and from every state of a run the gateway can settle. The signal itself changes no call and no
letter. Once it was given, everyone sees it for ever; a call that is made later, or that waits for
room at that time, ends with being told that the engine has stopped, and its letter goes nowhere;
and a call that has handed over its letter ends only with the reply to that letter. -/
theorem cut_at_hand_over (opening : Opening) :
    (∀ actions, ∃ log, opening.world.Run log (opening.world.settle.after actions)) ∧
      ∀ log w, opening.world.Run log w →
        (Reaches none w w.settle ∧ w.settle.Settled) ∧
          (∀ w', Step w .signalled w' → OnlySignalled w w') ∧
          ∀ more w', w.Run more w' →
            (w.isSignalled = true → w'.Closed) ∧
              ∀ i request form stage, w'.view i = some (.miner request form, stage) →
                (w.isSignalled = true → w.Unsent i →
                  w'.Refused (log ++ more) i request form stage) ∧
                (w.view i = some (.miner request form, .sent) →
                  w'.Awaits more i request form stage) := by
  constructor
  · intro actions
    obtain ⟨log, run, -⟩ := exists_run_session opening.world actions
    exact ⟨log, run⟩
  intro log w run
  have sound : w.Sound := sound_run run opening.sound
  have tracked : w.Tracked log := run.tracked opening.tracked
  refine ⟨⟨reaches_settle w, settled_settle sound tracked⟩, ?_, ?_⟩
  · intro w' step
    exact onlySignalled tracked.connected step
  intro more w' run'
  constructor
  · intro signalled
    exact closed_of_signalled (signalled_run run' signalled)
  intro i request form stage hv
  constructor
  · intro signalled unsent
    apply (run'.tracked_from tracked).refused (signalled_run run' signalled) hv
    rw [history_append, entries_append, tracked.unsent unsent,
      entries_of_signalled tracked signalled run' hv, List.nil_append]
  · intro sent
    exact tracked.awaits run' sent hv

/-- The channel is full, a second caller waits for room, and at one instant there is room and the
signal is given: the second caller is refused, the first one still waits for its reply. -/
theorem cut_at_hand_over_full :
    let w := (Opening.script 1).world.settle.after
      [(false, .request .getWork), (false, .request .getWork), (true, .take .fetch), (true, .close)]
    w.isSignalled = true ∧ w.view 1 = some (.miner .getWork .direct, .waiting .fetch) ∧
      ∃ log more, w.Run more w.settle ∧
        w.settle.Refused (log ++ more) 1 .getWork .direct
          (.finished (.outcome (.work (.error .stopped)))) ∧
        w.settle.Awaits more 0 .getWork .direct .sent := by
  intro w
  obtain ⟨sessions, runs⟩ := cut_at_hand_over (.script 1)
  obtain ⟨log, run⟩ := sessions
    [(false, .request .getWork), (false, .request .getWork), (true, .take .fetch), (true, .close)]
  obtain ⟨⟨⟨more, settling, -⟩, -⟩, -, later⟩ := runs log w run
  obtain ⟨-, calls⟩ := later more w.settle settling
  have waiting : w.view 1 = some (.miner .getWork .direct, .waiting .fetch) := by rfl
  have signalled : w.isSignalled = true := by rfl
  have refused : w.settle.view 1 =
      some (.miner .getWork .direct, .finished (.outcome (.work (.error .stopped)))) := by rfl
  have holding : w.settle.view 0 = some (.miner .getWork .direct, .sent) := by rfl
  have sent : w.view 0 = some (.miner .getWork .direct, .sent) := by rfl
  refine ⟨signalled, waiting, log, more, settling, ?_, ?_⟩
  · refine (calls 1 .getWork .direct _ refused).1 signalled ?_
    intro errand stage h
    rw [waiting] at h
    cases h
    exact .inr ⟨.fetch, rfl⟩
  · exact (calls 0 .getWork .direct _ holding).2 sent

end World

end MinerGateway
