import MinerGateway.Proofs.NoneStranded

/-!
Each caller gets the outcome of its own message.

`World.Fate` says of one call what its history decides: how often its message was taken, what it was
told, and that it is not finished as long as its letter is on its way. It holds in every tracked
state (`Tracked.fate`), so with a sealer as well as with a worker played by hand, where letters may
be held, answered and dropped in any order.

What is proved (`own_reply_only`), along every run with a worker played by hand:
  1. the message of a call is taken at most once, replied to at most once, and the call has at most
     one answer;
  2. the answer is what the miner deserves for the replies to its own message (`Request.Deserves`):
     the package or the error for a fetch, yes or no for a submission or a report;
  3. the letter held under a number is the one that was taken at that number, so answering it
     answers the caller who wrote it.

What is assumed: that a letter is answered with a reply that fits its message, which the types of
the reply slots see to. In what order letters are answered or dropped is left open.
-/

namespace MinerGateway

/-- What a miner is told by right when its own message had these replies; none means that the
message was refused. -/
def Request.Deserves : Request → List Reply → Outcome → Prop
  | .getWork, replies, .work result =>
    replies = [.work result] ∨
      ((replies = [] ∨ replies = [.lost]) ∧ result = .error .stopped)
  | .submitWork .., replies, .accepted yes => yes = true ↔ replies = [.verdict (.ok ())]
  | .submitHashrate .., replies, .accepted yes => yes = true ↔ replies = [.recorded]
  | _, _, _ => False

/-- What a miner is told once the engine has stopped, when no answer came to its message. -/
def Request.stopped : Request → Outcome
  | .getWork => .work (.error .stopped)
  | .submitWork .. => .accepted false
  | .submitHashrate .. => .accepted false

theorem Request.failure_stopped (request : Request) :
    request.failure .stopped = request.stopped := by
  cases request <;> rfl

theorem Request.deserves_nil (request : Request) :
    request.Deserves [] (request.failure .stopped) := by
  cases request with
  | getWork => exact .inr ⟨.inl rfl, rfl⟩
  | submitWork | submitHashrate => simp [Deserves, failure]

theorem Request.deserves_outcome {request : Request} {message : Message} {reply : Reply}
    (own : request.message? = some message) (fit : message.Fits reply) :
    request.Deserves [reply] (request.outcome reply) := by
  cases request with
  | getWork =>
    obtain rfl : .fetch = message := Option.some.inj own
    cases reply with
    | work result => exact .inl rfl
    | lost => exact .inr ⟨.inr rfl, rfl⟩
    | verdict | recorded => cases fit
  | submitWork nonce hash digest extraNonce =>
    simp only [message?] at own
    split at own
    · obtain rfl := Option.some.inj own
      cases reply with
      | verdict result => cases result <;> simp [Deserves, outcome, failure]
      | lost => simp [Deserves, outcome, failure]
      | work | recorded => cases fit
    · cases own
  | submitHashrate rate id =>
    obtain rfl := Option.some.inj own
    cases reply with
    | recorded => simp [Deserves, outcome]
    | lost => simp [Deserves, outcome, failure]
    | work | verdict => cases fit

namespace World

/-- What the history of a miner's call decides about it. -/
structure Fate (w : World) (log : List Event) (i : Nat) (request : Request) (form : Form)
    (stage : Stage) : Prop where
  /-- It hands over no message but its own, and that once at most. -/
  own : ∀ message ∈ entries (history i log), request.message? = some message
  entries_le : (entries (history i log)).length ≤ 1
  takings_le : takings (history i log) ≤ 1
  replies_le : (replies (history i log)).length ≤ 1
  /-- It finishes once at most, with the answer that it has at the end. -/
  answers_eq : answers (history i log) = stage.answers
  answers_le : (answers (history i log)).length ≤ 1
  told : ∀ answer, stage = .finished answer →
    (answer = .aborted ∧ .aborted i ∈ log) ∨
      ∃ outcome, answer = form.tell outcome ∧ request.Deserves (replies (history i log)) outcome
  /-- It is not finished while its letter is on its way. -/
  onTheWay : ∀ message, ⟨i, message⟩ ∈ w.queued ++ w.held →
    request.message? = some message ∧
      (stage = .sent ∨ (stage = .finished .aborted ∧ .aborted i ∈ log))
  settled : w.Settled → (∃ answer, stage = .finished answer) ∨
    (∃ message, ⟨i, message⟩ ∈ w.queued ++ w.held) ∨
    ∃ message intake, stage = .waiting message ∧ w.intake = some intake ∧
      intake.signalled = false ∧ intake.attended = true ∧ intake.hasRoom message.kind 0 = false

variable {w w' : World} {e : Event} {log : List Event}

/-- **The fate of a call is decided by its own history.** -/
theorem Tracked.fate (h : w.Tracked log) {i : Nat} {request : Request} {form : Form} {stage : Stage}
    (hv : w.view i = some (.miner request form, stage)) : w.Fate log i request form stage := by
  obtain ⟨place, lies, life⟩ := h.life hv
  obtain ⟨entries_le, takings_le, replies_le⟩ := life.posted_of.bounds
  refine ⟨life.writes.2, entries_le, takings_le, replies_le, life.answers_eq, ?_, ?_, ?_, ?_⟩
  · rw [life.answers_eq]
    cases stage with
    | finished => exact Nat.le_refl 1
    | _ => exact Nat.zero_le 1
  · intro answer finished
    subst finished
    by_cases gone : answer = .aborted
    · subst gone
      exact .inl ⟨rfl, mem_of_aborted_mem_history life.aborted_mem⟩
    · refine .inr ?_
      rcases (life.answer_of_finished gone).2 with ⟨-, none, told⟩ |
        ⟨message, reply, -, own, one, fit, told⟩
      · refine ⟨_, told, ?_⟩
        rw [none]
        exact request.deserves_nil
      · refine ⟨_, told, ?_⟩
        rw [one]
        exact Request.deserves_outcome own fit
  · intro message there
    obtain ⟨here, letter⟩ : ∃ here : Place, here.message? = some message ∧
        Lies w.queued w.held i here := by
      rcases List.mem_append.mp there with there | there
      · exact ⟨.queued message, rfl, there⟩
      · exact ⟨.held message, rfl, there⟩
    -- The letter is in one place only, so this is where the life of the call has it.
    obtain rfl := lies.unique h.senders letter.2
    obtain ⟨sent | gone, one, -, -⟩ := life.posted_of.of_message? letter.1
    · exact ⟨life.writes.2 message (one ▸ List.mem_cons_self), .inl sent⟩
    · subst gone
      exact ⟨life.writes.2 message (one ▸ List.mem_cons_self),
        .inr ⟨rfl, mem_of_aborted_mem_history life.aborted_mem⟩⟩
  · intro settled
    rcases stage_of_settled settled h hv with finished | waiting | ⟨-, there⟩
    · exact .inl finished
    · exact .inr (.inr waiting)
    · exact .inr (.inl there)

/-! ## A worker's part played by hand -/

def taken (log : List Event) : List Letter :=
  log.filterMap fun | .taken letter => some letter | _ => none

@[simp] theorem taken_append (log more : List Event) :
    taken (log ++ more) = taken log ++ taken more :=
  List.filterMap_append ..

/-- Each letter that is held lies where it was put when it was taken. -/
def Kept (w : World) (log : List Event) : Prop :=
  ∃ script : Script, w.engine = .scripted script ∧ script.held.length = (taken log).length ∧
    ∀ (k : Nat) (letter : Letter),
      script.held[k]? = some (some letter) → (taken log)[k]? = some letter

theorem Kept.frame (h : w.Kept log) (engine : w'.engine = w.engine) (silent : taken [e] = []) :
    w'.Kept (log ++ [e]) := by
  rw [Kept, taken_append, silent, List.append_nil, engine]
  exact h

theorem kept_step (step : Step w e w') (h : w.Kept log) : w'.Kept (log ++ [e]) := by
  obtain ⟨script, engine, length, places⟩ := id h
  cases step with
  | move step =>
    cases step with
    | @advance i call stage => exact h.frame rfl (by cases stage <;> rfl)
    | enter | release => exact h.frame rfl rfl
    | produce _ _ _ pushed =>
      obtain ⟨_, other, -⟩ := pushTask_eq_ok pushed
      rw [engine] at other
      cases other
    | quit working | handle working | serve working | clean working =>
      have other := engine.symm.trans working.engine
      cases other
  | act step =>
    cases step with
    | make | post | abort | signal | read | detach | pass | report => exact h.frame rfl rfl
    | push pushed =>
      obtain ⟨_, other, -⟩ := pushTask_eq_ok pushed
      rw [engine] at other
      cases other
    | receive other | abandon other | join other =>
      rw [engine] at other
      cases other
    | setHashrate same =>
      obtain rfl := Engine.scripted.inj (engine.symm.trans same)
      refine ⟨_, rfl, ?_⟩
      rw [taken_append]
      exact ⟨length.trans (congrArg _ (List.append_nil _).symm), by simpa [taken] using places⟩
    | @take intake rest _ kind letter same =>
      obtain rfl := Engine.scripted.inj (engine.symm.trans same)
      have more : taken (log ++ [.taken letter]) = taken log ++ [letter] := taken_append _ _
      -- The letter gets the next place, on both sides.
      rw [Kept, more]
      refine ⟨_, rfl, by simp [length], ?_⟩
      intro k other hk
      rw [List.getElem?_append] at hk ⊢
      rw [length] at hk
      split at hk
      · next earlier =>
        rw [if_pos earlier]
        exact places k other hk
      · next beyond =>
        rw [if_neg beyond]
        simp only [List.getElem?_singleton] at hk ⊢
        split at hk
        · next first =>
          rw [if_pos first, Option.some.inj hk]
        · cases hk
    | @resolve _ held letter reply same =>
      obtain rfl := Engine.scripted.inj (engine.symm.trans same)
      rw [Kept, taken_append]
      refine ⟨_, rfl, ?_, ?_⟩
      · simpa [taken] using length
      · intro k other hk
        have before : script.held[k]? = some (some other) := by
          simp only [List.getElem?_set] at hk
          split at hk
          · split at hk <;> cases hk
          · exact hk
        exact (congrArg (·[k]?) (List.append_nil (taken log))).trans (places k other before)
    | drop => exact h.frame (lose_frame _ _).1 rfl
    | ring =>
      refine h.frame ?_ rfl
      unfold fire
      split
      · next other =>
        rw [engine] at other
        cases other
      · rfl
      · rfl

theorem kept_scripted {capacity : Nat} (run : (scripted capacity).Run log w) : w.Kept log := by
  induction run with
  | refl => exact ⟨{}, rfl, rfl, by simp⟩
  | next _ step ih => exact kept_step step ih

/-- **Each caller gets the outcome of its own message.** With a worker's part played by hand, every
session is a run, and along every run the fate of each call is decided by its own history; the
letter held under a number is the one that was taken at that number. -/
theorem own_reply_only (capacity : Nat) :
    (∀ actions, ∃ log, (scripted capacity).Run log ((scripted capacity).settle.after actions) ∧
        ∀ i, .aborted i ∈ log → Action.abort i ∈ actions.map Prod.snd) ∧
      (∀ actions i, (answersTo i ((scripted capacity).session actions)).length ≤ 1) ∧
      ∀ log w, (scripted capacity).Run log w →
        (∀ k letter w', w.letGo k = some (letter, w') → (taken log)[k]? = some letter) ∧
          ∀ i request form stage, w.view i = some (.miner request form, stage) →
            w.Fate log i request form stage := by
  have sound := sound_scripted capacity
  have tracked := tracked_scripted capacity
  refine ⟨exists_run_session _, length_answersTo_le sound tracked rfl, ?_⟩
  intro log w run
  constructor
  · intro k letter w' h
    obtain ⟨script, engine, -, places⟩ := kept_scripted run
    obtain ⟨script', engine', found, -⟩ := letGo_eq_some h
    obtain rfl := Engine.scripted.inj (engine.symm.trans engine')
    exact places k letter found
  · intro i request form stage hv
    exact (run.tracked tracked).fate hv

/-- Two callers whose letters are held are answered in the other order. -/
theorem own_reply_only_swapped :
    let actions := [(true, .request .getWork), (false, .request .getWork), (false, .take .fetch),
      (false, .take .fetch), (false, .respond 1 (.refuse .noWork)), (false, .dropHeld 0)]
    let w := (scripted 2).settle.after actions
    ∃ log, (scripted 2).Run log w ∧
      w.Fate log 0 .getWork .direct (.finished (.outcome (.work (.error .stopped)))) ∧
      w.Fate log 1 .getWork .direct (.finished (.outcome (.work (.error .noWork)))) := by
  intro actions w
  obtain ⟨sessions, -, runs⟩ := own_reply_only 2
  obtain ⟨log, run, -⟩ := sessions actions
  exact ⟨log, run, (runs log w run).2 0 _ _ _ rfl, (runs log w run).2 1 _ _ _ rfl⟩

end World

end MinerGateway
