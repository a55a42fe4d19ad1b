import MinerGateway.Proofs.Freshness

/-!
Facade and sealer are one sequential object to their callers.

The order of `exists_order` is put together with the answers of the calls (`entry_of_answer`), with
the task that a fetch is answered with (`package_of_fetch`) and with the reports that a reading of
the hash rate counts (`counts_report`).

What is proved (`one_sequential_order`), along every run on a started sealer:
  1. the operations that took effect before the loop ended have an order that is legal for the
     sequential object and keeps every precedence in time;
  2. every miner was told what its operation gave in this order, or that the engine has stopped, and
     then its call has no operation;
  3. tasks are handled in the order of the pushes;
  4. a fetch is not answered with a package older than the last push before its call was made;
  5. a reading of the hash rate counts every report whose call had returned, unless it was replaced
     or found too old.

Correspondence (what callers see ↔ definition):
  an operation, with the interval in which it took effect ↔ `Entry`
  one operation was over before another began             ↔ `Precedes`
  the object that does one operation after the other      ↔ `Sequential`, `Legal`

What is assumed: nothing. Where the worker's loop has broken down at its start, the operations that
took effect are those that need no worker.
-/

namespace MinerGateway

section

variable {settings : EngineSettings} {verifier : Verifier} {w : World} {log front back : List Event}

/-- What is known when the worker answers a letter: the loop has not ended, no task is queued, and
the call was made. -/
theorem at_served {now : Nat} {letter : Letter} {before after : Sealer} {reply : Reply}
    (run : (World.started settings verifier).Run
      (front ++ .served now letter before after reply :: back)
      w) :
    ∃ s, (Sealer.start settings verifier).Passes front s ∧ s.loop = .running ∧ s.tasks = [] ∧
      reply = (s.serve now letter.message).2 ∧
      (front ++ .served now letter before after reply :: back).findIdx (·.makes letter.sender)
        < front.length := by
  obtain ⟨w₀, w₁, earlier, step, -⟩ := run.at_event
  have tracked := earlier.tracked (World.tracked_started settings verifier)
  obtain ⟨s, engine, passes⟩ := earlier.passes_start
  obtain ⟨s', -, takes⟩ := World.takes_step step tracked engine
  have made := (tracked.unreturned (World.queued_of_served step)).1
  cases takes with
  | served running queue => exact ⟨before, passes, running, queue, rfl, findIdx_lt _ made⟩
  | apart h => cases h

theorem serve_ne_lost (s : Sealer) (now : Nat) (message : Message) :
    (s.serve now message).2 ≠ .lost := by
  cases message with
  | submission sub =>
    simp only [Sealer.serve]
    split <;> simp
  | fetch | report => simp [Sealer.serve]

theorem served_of_mem_replies (run : (World.started settings verifier).Run log w) {i : Nat}
    {reply : Reply} (h : reply ∈ replies (history i log)) (answered : reply ≠ .lost) :
    ∃ front now message before after back,
      log = front ++ .served now ⟨i, message⟩ before after reply :: back := by
  obtain ⟨e, he, here⟩ : ∃ e ∈ log, reply ∈ replies (e.happenings i) := by
    obtain ⟨happening, hh, told⟩ := List.mem_filterMap.mp h
    obtain ⟨e, he, here⟩ := List.mem_flatMap.mp hh
    exact ⟨e, he, List.mem_filterMap.mpr ⟨happening, here, told⟩⟩
  obtain ⟨front, back, rfl⟩ := List.append_of_mem he
  obtain ⟨w₀, w₁, earlier, step, -⟩ := run.at_event
  obtain ⟨s, engine, -⟩ := earlier.passes_start
  obtain ⟨s', -, takes⟩ :=
    World.takes_step step (earlier.tracked (World.tracked_started settings verifier)) engine
  cases takes with
  | @served now letter =>
    simp only [Event.happenings] at here
    split at here
    · next own =>
      obtain rfl : reply = _ := List.mem_singleton.mp here
      subst own
      exact ⟨front, now, letter.message, _, _, back, rfl⟩
    · cases here
  | ended =>
    obtain ⟨happening, hh, told⟩ := List.mem_filterMap.mp here
    obtain ⟨letter, -, rfl⟩ := List.mem_map.mp hh
    exact absurd (Option.some.inj told).symm answered
  | told =>
    simp only [Event.happenings] at here
    split at here <;> cases here
  | apart apart =>
    rw [Event.replies_of_apart apart] at here
    cases here
  | _ => cases here

theorem mem_operations_of_served {now : Nat} {letter : Letter}
    {before after : Sealer} {reply : Reply} (run : (World.started settings verifier).Run log w)
    (split : log = front ++ .served now letter before after reply :: back) :
    ⟨.serve now letter.message, .reply reply, some letter.sender,
      log.findIdx (·.makes letter.sender), log.findIdx (·.returns letter.sender)⟩
        ∈ operations log := by
  obtain ⟨s, passes, running, -⟩ := at_served (split ▸ run)
  have going := passes.going running
  have inPast : past log = front ++ .served now letter before after reply :: past back := by
    have running : ∀ e ∈ front, (!e.ends) = true := by
      intro e he
      simp [going e he]
    rw [split, past, List.takeWhile_append_of_pos running]
    rfl
  refine List.mem_append_left _ (List.mem_filter.mpr ⟨?_, rfl⟩)
  refine List.mem_filterMap.mpr ⟨(.served now letter before after reply, front.length), ?_, rfl⟩
  refine List.mem_zipIdx_iff_getElem?.mpr ?_
  rw [inPast]
  simp

/-- An operation of a call is what the worker answered to its letter, or its reading of the hash
rate. -/
theorem event_of_caller {a : Entry} {i : Nat} (h : a ∈ operations log)
    (caller : a.caller = some i) :
    (∃ now message before after reply, .served now ⟨i, message⟩ before after reply ∈ log) ∨
      ∃ id answer, .finished i (.readHashrate id) answer ∈ log := by
  have all : a ∈ entriesOf log (past log) := by
    rcases List.mem_append.mp h with h | h
    · exact List.mem_of_mem_filter h
    · exact List.mem_of_mem_filter (List.mem_of_mem_take h)
  obtain ⟨⟨e, p⟩, he, entry⟩ := List.mem_filterMap.mp all
  have he : e ∈ log := by
    have inPast : e ∈ past log := List.mem_of_getElem? (List.mem_zipIdx_iff_getElem?.mp he)
    exact List.takeWhile_subset _ inPast
  simp only [Event.operation?] at entry
  split at entry <;> cases entry <;> cases caller
  · exact .inl ⟨_, _, _, _, _, he⟩
  · exact .inr ⟨_, _, he⟩

/-! ## Calls and their answers -/

theorem view_of_finished_mem (run : (World.started settings verifier).Run log w) {i : Nat}
    {errand : Errand} {answer : Answer} (h : .finished i errand answer ∈ log) :
    w.view i = some (errand, .finished answer) := by
  obtain ⟨front, back, rfl⟩ := List.append_of_mem h
  obtain ⟨w₀, w₁, earlier, step, later⟩ := run.at_event
  have tracked := (earlier.next step).tracked (World.tracked_started settings verifier)
  obtain ⟨stage, after, final⟩ := tracked.view_run later (World.view_of_finished step).2
  rw [after, final answer rfl]

theorem own_of_served (run : (World.started settings verifier).Run log w) {i now : Nat}
    {message : Message} {before after : Sealer} {reply : Reply}
    (h : .served now ⟨i, message⟩ before after reply ∈ log) {request : Request} {form : Form}
    {stage : Stage} (hv : w.view i = some (.miner request form, stage)) :
    request.message? = some message ∧ reply ∈ replies (history i log) := by
  have here : .replied message reply ∈ history i log :=
    List.mem_flatMap.mpr ⟨_, h, by simp [Event.happenings]⟩
  obtain ⟨place, -, life⟩ := (run.tracked (World.tracked_started settings verifier)).life hv
  exact ⟨life.writes.2 _ (life.mem_entries_of_replied here),
    List.mem_filterMap.mpr ⟨_, here, rfl⟩⟩

/-- Each answer to a miner is what an operation gave, or says that the engine has stopped and then
the call has no operation. -/
theorem entry_of_answer (run : (World.started settings verifier).Run log w) {i : Nat}
    {request : Request} {form : Form} {answer : Answer}
    (hv : w.view i = some (.miner request form, .finished answer)) (stayed : answer ≠ .aborted) :
    (answer = form.tell request.stopped ∧ ∀ a ∈ operations log, a.caller ≠ some i) ∨
      ∃ a ∈ operations log, a.caller = some i ∧ ∃ now message reply,
        a.operation = .serve now message ∧ request.message? = some message ∧
          a.result = .reply reply ∧ answer = form.tell (request.outcome reply) := by
  obtain ⟨place, -, life⟩ := (run.tracked (World.tracked_started settings verifier)).life hv
  -- Without an answer from the worker there is no operation.
  have nothing : (∀ reply ∈ replies (history i log), reply = .lost) →
      ∀ a ∈ operations log, a.caller ≠ some i := by
    intro lost a ha caller
    rcases event_of_caller ha caller with ⟨now, message, before, after, reply, h⟩ | ⟨id, told, h⟩
    · obtain ⟨front, back, split⟩ := List.append_of_mem h
      obtain ⟨s, -, -, -, given, -⟩ := at_served (split ▸ run)
      have answered := lost reply (own_of_served run h hv).2
      rw [given] at answered
      exact serve_ne_lost s _ _ answered
    · have other := view_of_finished_mem run h
      rw [hv] at other
      cases other
  rcases (life.answer_of_finished stayed).2 with ⟨-, none, told⟩ |
    ⟨message, reply, -, own, one, -, told⟩
  · refine .inl ⟨request.failure_stopped ▸ told, nothing ?_⟩
    intro reply hr
    rw [none] at hr
    cases hr
  · by_cases answered : reply = .lost
    · subst answered
      rw [request.outcome_lost, request.failure_stopped] at told
      refine .inl ⟨told, nothing ?_⟩
      intro reply hr
      rw [one] at hr
      exact List.mem_singleton.mp hr
    · refine .inr ?_
      have there : reply ∈ replies (history i log) := by
        rw [one]
        exact List.mem_cons_self
      obtain ⟨front, now, message', before, after, back, split⟩ :=
        served_of_mem_replies run there answered
      have h : Event.served now ⟨i, message'⟩ before after reply ∈ log := by
        rw [split]
        exact List.mem_append_right _ List.mem_cons_self
      exact ⟨_, mem_operations_of_served run split, rfl, now, message', reply, rfl,
        (own_of_served run h hv).1, rfl, told⟩

/-! ## Fetches -/

theorem reply_of_fetch {i now : Nat} {before after : Sealer} {reply : Reply}
    (run : (World.started settings verifier).Run
      (front ++ .served now ⟨i, .fetch⟩ before after reply :: back) w) :
    reply = .work (match (pushedTasks front).getLast? with
      | some task => .ok task.package
      | none => .error .noWork) := by
  obtain ⟨s, passes, running, queue, given, -⟩ := at_served run
  have fifo := passes.handledTasks_append_tasks rfl (passes.going running)
  rw [queue, List.append_nil] at fifo
  rw [given, ← fifo, ← passes.current_eq rfl]
  rfl

theorem split_of_getLast? {task : Task} (h : (pushedTasks front).getLast? = some task) :
    ∃ early late, front = early ++ .pushed task :: late ∧ pushedTasks late = [] := by
  obtain ⟨tasks, all⟩ := List.getLast?_eq_some_iff.mp h
  obtain ⟨early, rest, rfl, -, last⟩ := List.filterMap_eq_append_iff.mp all
  obtain ⟨before, e, late, rfl, -, he, nothing⟩ := List.filterMap_eq_cons_iff.mp last
  have pushed : e = .pushed task := by
    cases e with
    | pushed => rw [Option.some.inj he]
    | _ => cases he
  exact ⟨early ++ before, late, by rw [pushed, List.append_assoc], nothing⟩

/-- **No fetch is answered with a package older than the last push before the call was made**, and
there is no work only if nothing had been pushed before. -/
theorem package_of_fetch (run : (World.started settings verifier).Run log w) {i : Nat} {form : Form}
    {result : Except SealingError WorkPackage}
    (hv : w.view i = some (.miner .getWork form, .finished (form.tell (.work result)))) :
    (∀ package, result = .ok package → ∃ k task, log[k]? = some (.pushed task) ∧
        package = task.package ∧
          ∀ (j : Nat) task', log[j]? = some (.pushed task') → j < log.findIdx (·.makes i) → j ≤ k) ∧
      (result = .error .noWork →
        ∀ (j : Nat) task, log[j]? = some (.pushed task) → log.findIdx (·.makes i) ≤ j) := by
  have tracked := run.tracked (World.tracked_started settings verifier)
  rcases (tracked.fate hv).told _ rfl with ⟨gone, -⟩ | ⟨outcome, same, deserved⟩
  · exact absurd gone (form.tell_ne_aborted _)
  rw [← Form.tell_injective same] at deserved
  rcases deserved with one | ⟨-, stopped⟩
  case inr =>
    rw [stopped]
    simp
  have answered : .work result ∈ replies (history i log) := by
    rw [one]
    exact List.mem_cons_self
  obtain ⟨front, now, message, before, after, back, split⟩ :=
    served_of_mem_replies run answered (by simp)
  have h : Event.served now ⟨i, message⟩ before after (.work result) ∈ log := by
    rw [split]
    exact List.mem_append_right _ List.mem_cons_self
  obtain rfl : .fetch = message := Option.some.inj (own_of_served run h hv).1
  subst split
  have latest := Reply.work.inj (reply_of_fetch run)
  obtain ⟨-, -, -, -, -, made⟩ := at_served run
  -- A push before the call was made lies before the answer.
  have within : ∀ (j : Nat) task, (front ++ .served now ⟨i, .fetch⟩ before after (.work result) ::
      back)[j]? = some (.pushed task) → j < (front ++ .served now ⟨i, .fetch⟩ before after
        (.work result) :: back).findIdx (·.makes i) → front[j]? = some (.pushed task) := by
    intro j task hj less
    rw [List.getElem?_append_left (Nat.lt_trans less made)] at hj
    exact hj
  cases last : (pushedTasks front).getLast? with
  | none =>
    rw [last] at latest
    have nothing := List.getLast?_eq_none_iff.mp last
    constructor
    · intro package hp
      rw [hp] at latest
      cases latest
    · intro _ j task hj
      apply Nat.le_of_not_lt
      intro less
      have pushed : task ∈ pushedTasks front :=
        List.mem_filterMap.mpr ⟨_, List.mem_of_getElem? (within j task hj less), rfl⟩
      rw [nothing] at pushed
      cases pushed
  | some task =>
    rw [last] at latest
    obtain ⟨early, late, rfl, nothing⟩ := split_of_getLast? last
    refine ⟨fun package hp => ⟨early.length, task, by simp, ?_, ?_⟩, ?_⟩
    · rw [hp] at latest
      exact Except.ok.inj latest
    · -- Behind the last push before the answer there is no other push before the answer.
      intro j task' hj less
      apply Nat.le_of_not_lt
      intro later
      have there := within j task' hj less
      rw [List.getElem?_append_right (Nat.le_of_lt later)] at there
      obtain ⟨n, hn⟩ : ∃ n, j - early.length = n + 1 := ⟨j - early.length - 1, by omega⟩
      rw [hn, List.getElem?_cons_succ] at there
      have pushed : task' ∈ pushedTasks late :=
        List.mem_filterMap.mpr ⟨_, List.mem_of_getElem? there, rfl⟩
      rw [nothing] at pushed
      cases pushed
    · intro none
      rw [none] at latest
      cases latest

/-! ## Readings of the hash rate -/

theorem reads?_of_apart {e : Event} (h : e.Apart) : e.reads? = none := by
  cases e with
  | finished call errand answer =>
    cases errand with
    | readHashrate id => exact absurd rfl (h id)
    | _ => rfl
  | read => cases h
  | _ => rfl

/-- **A reading of the hash rate is the sum of the latest reports**, among them every report whose
call had returned before, unless it was replaced or found too old since. -/
theorem counts_report {e : Event} {rate : UInt64}
    (run : (World.started settings verifier).Run (front ++ e :: back) w)
    (h : e.reads? = some rate) :
    rate = Ledger.total (ratesAfter settings.hashrateExpiry front) ∧
      ∀ i reported id form,
        .finished i (.miner (.submitHashrate reported id) form)
          (form.tell (.accepted true)) ∈ front →
        ∃ early now before after late,
          front = early ++ .served now ⟨i, .report ⟨reported, id⟩⟩ before after .recorded :: late ∧
            ((∀ x ∈ late, x.Keeps settings.hashrateExpiry now id) →
              ⟨id, reported, now⟩ ∈ ratesAfter settings.hashrateExpiry front) := by
  obtain ⟨w₀, w₁, earlier, step, -⟩ := run.at_event
  have tracked := earlier.tracked (World.tracked_started settings verifier)
  obtain ⟨s, engine, passes⟩ := earlier.passes_start
  constructor
  · obtain ⟨s', -, takes⟩ := World.takes_step step tracked engine
    have published : rate = s.ledger.published := by
      cases takes with
      | read | told => exact (Option.some.inj h).symm
      | apart apart =>
        rw [reads?_of_apart apart] at h
        cases h
      | _ => cases h
    obtain ⟨rates, sum⟩ := passes.rates_eq rfl rfl
    rw [published, sum, rates]
    rfl
  · intro i reported id form returned
    have hv := view_of_finished_mem earlier returned
    rcases (tracked.fate hv).told _ rfl with ⟨gone, -⟩ | ⟨outcome, same, deserved⟩
    · exact absurd gone (form.tell_ne_aborted _)
    rw [← Form.tell_injective same] at deserved
    have one : replies (history i front) = [.recorded] := deserved.mp rfl
    have answered : .recorded ∈ replies (history i front) := by
      rw [one]
      exact List.mem_cons_self
    obtain ⟨early, now, message, before, after, late, split⟩ :=
      served_of_mem_replies earlier answered (by simp)
    have served : Event.served now ⟨i, message⟩ before after .recorded ∈ front := by
      rw [split]
      exact List.mem_append_right _ List.mem_cons_self
    obtain rfl : .report ⟨reported, id⟩ = message :=
      Option.some.inj (own_of_served earlier served hv).1
    refine ⟨early, now, before, after, late, split, ?_⟩
    intro keeps
    rw [split]
    exact mem_ratesAfter early late keeps

/-- **Facade and sealer are one sequential object.** Along every run on a started sealer there is
one order of all operations that took effect before the loop ended; it keeps every precedence in
time, the sequential object gives each of them its result, and the callers were told these results.
Tasks are handled in the order of the pushes, no fetch is answered with old work, and a reading of
the hash rate counts what was reported before. -/
theorem one_sequential_order (settings : EngineSettings) (verifier : Verifier) :
    (∀ actions, ∃ log, (World.started settings verifier).Run log
        ((World.started settings verifier).settle.after actions) ∧
          ∀ i, .aborted i ∈ log → Action.abort i ∈ actions.map Prod.snd) ∧
      ∀ log w, (World.started settings verifier).Run log w →
        (∃ order, order.Perm (operations log) ∧ (Sequential.start settings verifier).Legal order ∧
          (order.Pairwise fun a b => ¬b.Precedes a) ∧
          ∀ i request form answer, w.view i = some (.miner request form, .finished answer) →
            answer ≠ .aborted →
            (answer = form.tell request.stopped ∧ ∀ a ∈ order, a.caller ≠ some i) ∨
              ∃ a ∈ order, a.caller = some i ∧ ∃ now message reply,
                a.operation = .serve now message ∧ request.message? = some message ∧
                  a.result = .reply reply ∧ answer = form.tell (request.outcome reply)) ∧
        handledTasks (past log)
          = (pushedTasks (past log)).take (handledTasks (past log)).length ∧
        (∀ i form result,
          w.view i = some (.miner .getWork form, .finished (form.tell (.work result))) →
          (∀ package, result = .ok package → ∃ k task, log[k]? = some (.pushed task) ∧
              package = task.package ∧ ∀ (j : Nat) task', log[j]? = some (.pushed task') →
                j < log.findIdx (·.makes i) → j ≤ k) ∧
            (result = .error .noWork →
              ∀ (j : Nat) task, log[j]? = some (.pushed task) → log.findIdx (·.makes i) ≤ j)) ∧
        ∀ front e back rate, log = front ++ e :: back → e.reads? = some rate →
          rate = Ledger.total (ratesAfter settings.hashrateExpiry front) ∧
            ∀ i reported id form,
              .finished i (.miner (.submitHashrate reported id) form) (form.tell (.accepted true))
                ∈ front →
              ∃ early now before after late,
                front = early ++
                  .served now ⟨i, .report ⟨reported, id⟩⟩ before after .recorded :: late ∧
                ((∀ x ∈ late, x.Keeps settings.hashrateExpiry now id) →
                  ⟨id, reported, now⟩ ∈ ratesAfter settings.hashrateExpiry front) := by
  refine ⟨World.exists_run_session _, ?_⟩
  intro log w run
  refine ⟨?_, ?_, ?_, ?_⟩
  · obtain ⟨order, same, legal, precedence⟩ := exists_order run
    refine ⟨order, same, legal, precedence, ?_⟩
    intro i request form answer hv stayed
    rcases entry_of_answer run hv stayed with ⟨told, nothing⟩ | ⟨a, ha, entry⟩
    · refine .inl ⟨told, ?_⟩
      intro a ha
      exact nothing a (same.mem_iff.mp ha)
    · exact .inr ⟨a, same.mem_iff.mpr ha, entry⟩
  · obtain ⟨rest, cutLog, going⟩ := past_append log
    obtain ⟨w', earlier, -⟩ := run.split cutLog
    obtain ⟨s, -, passes⟩ := earlier.passes_start
    have fifo := passes.handledTasks_append_tasks rfl going
    rw [← fifo, List.take_left]
  · intro i form result hv
    exact package_of_fetch run hv
  · intro front e back rate split h
    subst split
    exact counts_report run h

/-- Two tasks are pushed, and a miner asks for work before the first of them is handled. -/
def pushedTwice : List (Bool × Action) :=
  [(true, .push ⟨.filled 32 1, 5, .empty⟩),
    (true, .push ⟨.filled 32 2, 6, { WorkPackage.empty with number := "0x6" }⟩),
    (false, .request .getWork)]

theorem one_sequential_order_pushedTwice :
    ∃ log order, (World.started {} .acceptAll).Run log
        ((World.started {} .acceptAll).settle.after pushedTwice) ∧
      (Sequential.start {} .acceptAll).Legal order ∧ ∃ a ∈ order, a.caller = some 0 ∧
        a.result = .reply (.work (.ok { WorkPackage.empty with number := "0x6" })) := by
  obtain ⟨sessions, runs⟩ := one_sequential_order {} .acceptAll
  obtain ⟨log, run, -⟩ := sessions pushedTwice
  obtain ⟨⟨order, -, legal, -, told⟩, -⟩ := runs log _ run
  have answered : ((World.started {} .acceptAll).settle.after pushedTwice).view 0 = some
      (.miner .getWork .direct, .finished
        (.outcome (.work (.ok { WorkPackage.empty with number := "0x6" })))) := rfl
  refine ⟨log, order, run, legal, ?_⟩
  rcases told 0 _ _ _ answered (by simp)
    with ⟨stopped, -⟩ | ⟨a, ha, caller, _, _, reply, -, -, result, same⟩
  · cases stopped
  · refine ⟨a, ha, caller, result.trans (congrArg Operation.Result.reply ?_)⟩
    cases reply with
    | work given => simpa [Form.tell, Request.outcome, eq_comm] using same
    | verdict | recorded | lost => simp [Form.tell, Request.outcome, Request.failure] at same

end

end MinerGateway
