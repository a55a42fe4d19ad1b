import MinerGateway.Proofs.Reports
import MinerGateway.Proofs.Worker

/-!
In front of a sealer no call of a miner is stranded.

A call waits at two places, for room and for the reply, and only at the first does it look for the
exit signal. So it is the worker that has to answer or lose every letter, whichever way its loop
ends; that it does is in `finished_of_settled`. Here it is put together for sessions.

What is proved (`no_call_stranded`):
  1. the moves that follow a session come to an end, in whatever order they are made
     (`Moves.length_le`);
  2. where they end, every call of a miner has an answer in the form in which it came in, or was
     aborted (`answered_of_moves`);
  3. once the gateway may settle, every call that an action made for a miner has been told exactly
     one answer, in the form in which it came in, or was aborted by an action.

What is assumed: nothing of the session or the settings, so the loop may have broken down at its
start, the signal may come at any point, and the consumer may be gone. The verifier is a function,
so it always answers. That the worker's part is a sealer's is needed: one that is played by hand may
keep a letter for ever.
-/

namespace MinerGateway

/-- Every call of a miner has an answer in the form in which it came in, or was aborted. -/
def World.Answered (w : World) (aborted : Nat → Prop) : Prop :=
  ∀ i request form stage, w.view i = some (.miner request form, stage) →
    ∃ answer, stage = .finished answer ∧
      ((∃ outcome, answer = form.tell outcome) ∨ (answer = .aborted ∧ aborted i))

theorem mem_of_aborted_mem_history {i : Nat} {log : List Event} (h : .aborted ∈ history i log) :
    .aborted i ∈ log := by
  obtain ⟨e, he, h⟩ := List.mem_flatMap.mp h
  cases e with
  | aborted call =>
    simp only [Event.happenings] at h
    split at h
    · next same =>
      rw [← same]
      exact he
    · cases h
  | made | posted | entered | taken | served | resolved | finished =>
    simp only [Event.happenings] at h
    split at h <;> simp at h
  | ended lost | dropped lost =>
    obtain ⟨letter, -, h⟩ := List.mem_map.mp h
    cases h
  | _ => cases h

namespace World

variable {w : World} {log : List Event}

theorem Tracked.view_of_aborted {i : Nat} (tracked : w.Tracked log) (gone : .aborted i ∈ log) :
    ∃ errand, w.view i = some (errand, .finished .aborted) := by
  have happened : .aborted ∈ history i log :=
    List.mem_flatMap.mpr ⟨_, gone, by simp [Event.happenings]⟩
  obtain ⟨place, -, follows⟩ := tracked.calls i
  cases hv : w.view i with
  | none =>
    rw [hv] at follows
    rw [follows.1] at happened
    cases happened
  | some v =>
    obtain ⟨errand, stage⟩ := v
    rw [hv] at follows
    have life : Life errand (history i log) stage place := follows
    have answered : .aborted ∈ answers (history i log) :=
      List.mem_filterMap.mpr ⟨_, happened, rfl⟩
    rw [life.answers_eq] at answered
    cases stage with
    | finished answer => exact ⟨errand, by rw [List.mem_singleton.mp answered]⟩
    | _ => cases answered

theorem Tracked.not_mem_aborted {i : Nat} (tracked : w.Tracked log)
    (unfinished : ∀ errand answer, w.view i ≠ some (errand, .finished answer)) :
    .aborted i ∉ log := by
  intro gone
  obtain ⟨errand, hv⟩ := tracked.view_of_aborted gone
  exact unfinished errand .aborted hv

theorem Tracked.answer {i : Nat} {request : Request} {form : Form} {answer : Answer}
    (tracked : w.Tracked log) (h : w.view i = some (.miner request form, .finished answer)) :
    (∃ outcome, answer = form.tell outcome) ∨ (answer = .aborted ∧ .aborted i ∈ log) := by
  obtain ⟨place, -, life⟩ := tracked.life h
  by_cases aborted : answer = .aborted
  · subst aborted
    exact .inr ⟨rfl, mem_of_aborted_mem_history life.aborted_mem⟩
  · rcases (life.answer_of_finished aborted).2 with ⟨-, -, told⟩ | ⟨_, reply, -, -, -, -, told⟩
    · exact .inl ⟨_, told⟩
    · exact .inl ⟨_, told⟩

/-- A settled gateway in front of a sealer has answered every call. -/
theorem answered_of_settled {sealer : Sealer} {aborted : Nat → Prop} (settled : w.Settled)
    (sound : w.Sound) (tracked : w.Tracked log) (engine : w.engine = .sealer sealer)
    (h : ∀ i, .aborted i ∈ log → aborted i) : w.Answered aborted := by
  intro i request form stage hv
  obtain ⟨answer, rfl⟩ := finished_of_settled settled sound tracked engine hv
  refine ⟨answer, rfl, ?_⟩
  rcases tracked.answer hv with told | ⟨rfl, gone⟩
  · exact .inl told
  · exact .inr ⟨rfl, h i gone⟩

theorem Moves.run {n : Nat} {w' : World} (h : Moves n w w') :
    ∃ log, w.Run log w' ∧ ∀ i, .aborted i ∉ log := by
  induction h with
  | zero =>
    refine ⟨[], .refl, ?_⟩
    intro i
    exact List.not_mem_nil
  | @succ n w w' w'' e step _ ih =>
    obtain ⟨log, run, stay⟩ := ih
    refine ⟨[e] ++ log, (Run.single (.move step)).trans run, ?_⟩
    intro i hi
    rcases List.mem_append.mp hi with hi | hi
    · obtain rfl := List.mem_singleton.mp hi
      generalize he : Event.aborted i = e at step
      cases step with
      | @advance j call stage => cases stage <;> cases he
      | _ => cases he
    · exact stay i hi

/-- What is left of a session when no move is left, by the run that led there. -/
theorem answered_of_moves {settings : EngineSettings} {verifier : Verifier} {w' : World} {n : Nat}
    {aborted : Nat → Prop} (run : (started settings verifier).Run log w) (moves : Moves n w w')
    (settled : w'.Settled) (h : ∀ i, .aborted i ∈ log → aborted i) : w'.Answered aborted := by
  obtain ⟨more, run', stay⟩ := moves.run
  obtain ⟨sealer, engine, -⟩ := (run.trans run').passes_start
  have sound : w'.Sound := sound_run (run.trans run') (sound_started ..)
  have tracked : w'.Tracked (log ++ more) := (run.trans run').tracked (tracked_started ..)
  apply answered_of_settled settled sound tracked engine
  intro i hi
  exact h i ((List.mem_append.mp hi).resolve_right (stay i))

end World

/-! ## Calls by the actions that make them -/

/-- What the call is about that an action makes for a miner. -/
def Action.miner? : Action → Option (Request × Form)
  | .request r => some (r, .direct)
  | .rpc call =>
    match Errand.ofRpc call with
    | .miner r form => some (r, form)
    | _ => none
  | _ => none

def World.Makes (w : World) (action : Action) (i : Nat) (request : Request) (form : Form) : Prop :=
  (w.perform action).1 = .ok (.call i) ∧ action.miner? = some (request, form)

namespace World

variable {w : World}

theorem view_of_call {errand : Errand} {i : Nat} (h : (w.call errand).1 = .ok (.call i)) :
    (w.call errand).2.view i = some (errand, .made) := by
  unfold call at h ⊢
  split at h
  · next attached =>
    rw [if_pos attached]
    obtain rfl : w.calls.length = i := by simpa [makeCall] using h
    exact (view_makeCall w errand _).trans (if_pos rfl)
  · cases h

theorem Makes.view {action : Action} {i : Nat} {request : Request} {form : Form}
    (h : w.Makes action i request form) :
    (w.perform action).2.view i = some (.miner request form, .made) := by
  obtain ⟨made, about⟩ := h
  cases action with
  | request request' =>
    obtain ⟨rfl, rfl⟩ : request' = request ∧ .direct = form := by simpa [Action.miner?] using about
    exact view_of_call made
  | rpc call =>
    have errand : Errand.ofRpc call = .miner request form := by
      simp only [Action.miner?] at about
      split at about
      · next same =>
        rw [same]
        cases about
        rfl
      · cases about
    rw [← errand]
    exact view_of_call made
  | _ => cases about

theorem Makes.view_after {settings : EngineSettings} {verifier : Verifier}
    {front : List (Bool × Action)} {action : Action} {i : Nat} {request : Request} {form : Form}
    (h : ((started settings verifier).settle.after front).Makes action i request form) (hold : Bool)
    (back : List (Bool × Action)) :
    ∃ stage, ((started settings verifier).settle.after (front ++ (hold, action) :: back)).view i
      = some (.miner request form, stage) := by
  obtain ⟨log, run, -⟩ := exists_run_session (started settings verifier) front
  obtain ⟨more, run', -⟩ := reaches_perform ((started settings verifier).settle.after front) action
  have rest : ∃ log', (((started settings verifier).settle.after front).perform action).2.Run log'
      ((started settings verifier).settle.after (front ++ (hold, action) :: back)) := by
    rw [after_append]
    obtain ⟨later, last, -⟩ := exists_run_after
      (((started settings verifier).settle.after front).step hold action).2 back
    cases hold with
    | true => exact ⟨later, last⟩
    | false =>
      have settle : Reaches none _
          (((started settings verifier).settle.after front).perform action).2.settle :=
        reaches_settle _
      obtain ⟨settling, settled, -⟩ := settle
      exact ⟨_, (settled.next (.act .report)).trans last⟩
  obtain ⟨log', run''⟩ := rest
  have tracked := (run.trans run').tracked (tracked_started settings verifier)
  obtain ⟨stage, after, -⟩ := tracked.view_run run'' h.view
  exact ⟨stage, after⟩

/-- **No call is stranded.** After any session on a started sealer, whatever has become of its
worker, the moves come to an end in whatever order they are made, and wherever they end every call
of a miner has its answer. Once the gateway may settle, each call that was made has been told
exactly one. -/
theorem no_call_stranded (settings : EngineSettings) (verifier : Verifier)
    (actions : List (Bool × Action)) :
    let start := (started settings verifier).settle
    let w := start.after actions
    (∀ n w', Moves n w w' → n + w'.potential ≤ w.potential) ∧
      ((∃ n, Moves n w w.settle) ∧ w.settle.Settled) ∧
      (∀ n w', Moves n w w' → w'.Settled → w'.Answered (.abort · ∈ actions.map Prod.snd)) ∧
      ∀ last front hold action back i request form,
        actions ++ [(false, last)] = front ++ (hold, action) :: back →
        (start.after front).Makes action i request form →
        ∃ answer, answersTo i (start.play (actions ++ [(false, last)])) = [answer] ∧
          ((∃ outcome, answer = form.tell outcome) ∨
            (answer = .aborted ∧ .abort i ∈ (actions ++ [(false, last)]).map Prod.snd)) := by
  intro start w
  obtain ⟨log, run, aborted⟩ := exists_run_session (started settings verifier) actions
  have sound : w.Sound := sound_run run (sound_started ..)
  have tracked : w.Tracked log := run.tracked (tracked_started ..)
  refine ⟨fun n w' moves => moves.length_le sound, ⟨moves_settle w, settled_settle sound tracked⟩,
    fun n w' moves settled => answered_of_moves run moves settled aborted, ?_⟩
  intro last front hold action back i request form split made
  -- The state that the last step settles to, before its answers are marked.
  obtain ⟨more, run', gone⟩ := reaches_perform w last
  have performed := run.trans run'
  have settled : (w.perform last).2.settle.Settled :=
    settled_settle (sound_run performed (sound_started ..)) (performed.tracked (tracked_started ..))
  obtain ⟨n, moves⟩ := moves_settle (w.perform last).2
  have all : (w.perform last).2.settle.Answered
      (.abort · ∈ (actions ++ [(false, last)]).map Prod.snd) := by
    apply answered_of_moves performed moves settled
    intro j hj
    rw [List.map_append]
    rcases List.mem_append.mp hj with hj | hj
    · exact List.mem_append_left _ (aborted j hj)
    · -- The last action may itself send a caller away.
      have target : last.leaver = some j := gone _ hj
      cases last with
      | abort k =>
        obtain rfl : k = j := Option.some.inj target
        exact List.mem_append_right _ List.mem_cons_self
      | _ => cases target
  obtain ⟨stage, there⟩ := made.view_after hold back
  rw [← split, after_concat, view_markReported] at there
  obtain ⟨answer, rfl, told⟩ := all i request form stage there
  refine ⟨answer, ?_, told⟩
  have reported := answersTo_session_concat (sound_started settings verifier)
    (tracked_started settings verifier) rfl actions last i
  refine reported.trans ?_
  change (w.perform last).2.settle.answersAt i = _
  rw [answersAt, there]
  rfl

/-- Three callers ask for work at one instant, where the channels have room for one. -/
def overfull : List (Bool × Action) :=
  [(true, .request .getWork), (true, .request .getWork), (true, .request .getWork)]

theorem no_call_stranded_overfull :
    let start := (started { intakeCapacity := 1 } .acceptAll).settle
    (start.after (overfull.take 2)).Makes (.request .getWork) 2 .getWork .direct ∧
      ∃ outcome, answersTo 2 (start.play (overfull ++ [(false, .shutdown)]))
        = [.outcome outcome] := by
  intro start
  obtain ⟨-, -, -, told⟩ := no_call_stranded { intakeCapacity := 1 } .acceptAll overfull
  have made : (start.after (overfull.take 2)).Makes (.request .getWork) 2 .getWork .direct :=
    ⟨rfl, rfl⟩
  refine ⟨made, ?_⟩
  obtain ⟨answer, reported, ⟨outcome, rfl⟩ | ⟨-, gone⟩⟩ :=
    told .shutdown (overfull.take 2) true (.request .getWork)
    [(false, .shutdown)] 2 .getWork .direct
      rfl made
  · exact ⟨outcome, reported⟩
  · simp [overfull] at gone

end World

end MinerGateway
