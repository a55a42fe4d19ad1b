import Mathlib.Data.List.Induction
import MinerGateway.Proofs.Pending

/-!
What the worker holds, told from its history.

A history is what was done to the worker since it was empty, in order. The current task is the one
that was pushed last (`current_after`). A task is pending as long as it stands
(`mem_pending_after`): it was pushed, nothing was pushed under its hash since, and no cleanup since
found it outdated. The channel of accepted solutions is open as long as the consumer did not go away
(`balanced_after`), and then holds as many values as were accepted and not received so far
(`length_queue_after`).

Each of these is an induction on the history from its end, with one lemma that says what the last
operation does: `standing_concat` for the tasks, `Balanced.turn` for the channel. The history may
hold operations in any order and with any times in them, also such as no session has.
-/

namespace MinerGateway

def Operation.task? : Operation → Option Task
  | .push task => some task
  | _ => none

def Operation.Result.isAcceptance : Operation.Result → Bool
  | .reply (.verdict (.ok ())) => true
  | _ => false

def Operation.Result.isReceipt : Operation.Result → Bool
  | .received (some _) => true
  | _ => false

namespace Outbox

variable {outbox : Outbox} {work : SealedWork}

theorem offer_closed (gone : outbox.attended = false) :
    outbox.offer work = .error (.internal "results channel closed") := by
  simp [offer, gone]

theorem offer_full (there : outbox.attended = true) (full : outbox.capacity ≤ outbox.queue.length) :
    outbox.offer work = .error (.internal "results channel full") := by
  simp [offer, there, full]

theorem offer_room (there : outbox.attended = true) (room : outbox.queue.length < outbox.capacity) :
    outbox.offer work = .ok { outbox with queue := outbox.queue ++ [work] } := by
  simp [offer, there, room]

end Outbox

namespace Sequential

/-- The tasks that were pushed, the oldest first. -/
def pushes (history : List Operation) : List Task := history.filterMap Operation.task?

/-- The task that was pushed last under a hash. -/
def lastUnder (hash : Hash) (history : List Operation) : Option Task :=
  ((pushes history).filter (·.sealHash = hash)).getLast?

/-- The task was pushed, nothing was pushed under its hash since, and no cleanup since found that it
lies `threshold` blocks or more behind the task that was pushed last. -/
inductive Standing (threshold : UInt64) (task : Task) : List Operation → Prop where
  | pushed (history : List Operation) : Standing threshold task (history ++ [.push task])
  | kept {history : List Operation} {operation : Operation}
      (before : Standing threshold task history)
    (apart : ∀ other, operation = .push other → other.sealHash ≠ task.sealHash)
    (recent : ∀ now, operation = .cleanup now → ∀ last, (pushes history).getLast? = some last →
      last.number < Word.addSat task.number threshold) :
    Standing threshold task (history ++ [operation])

def results (q : Sequential) : List Operation → List Operation.Result
  | [] => []
  | operation :: rest => (q.apply operation).1 :: (q.apply operation).2.results rest

def acceptedCount (q : Sequential) (history : List Operation) : Nat :=
  (q.results history).countP Operation.Result.isAcceptance

def receivedCount (q : Sequential) (history : List Operation) : Nat :=
  (q.results history).countP Operation.Result.isReceipt

def unreceived (q : Sequential) (history : List Operation) : Nat :=
  q.acceptedCount history - q.receivedCount history

variable {settings : EngineSettings} {verifier : Verifier}
  {history : List Operation} {operation : Operation} {threshold : UInt64} {task : Task}

theorem after_concat (q : Sequential) (history : List Operation) (operation : Operation) :
    q.after (history ++ [operation]) = ((q.after history).apply operation).2 := by
  rw [after_append]
  rfl

theorem results_append (q : Sequential) (front back : List Operation) :
    q.results (front ++ back) = q.results front ++ (q.after front).results back := by
  induction front generalizing q with
  | nil => rfl
  | cons operation rest ih => exact congrArg (_ :: ·) (ih _)

theorem pushes_append (front back : List Operation) :
    pushes (front ++ back) = pushes front ++ pushes back :=
  List.filterMap_append ..

theorem pushes_concat_of_ne (h : ∀ other, operation ≠ .push other) :
    pushes (history ++ [operation]) = pushes history := by
  have none : pushes [operation] = [] := by
    cases operation with
    | push task => exact absurd rfl (h task)
    | _ => rfl
  rw [pushes_append, none, List.append_nil]

/-- Where one of the tasks was pushed. -/
theorem split_of_pushes {front back : List Task} (pushed : pushes history = front ++ task :: back) :
    ∃ early late, history = early ++ .push task :: late ∧
    pushes early = front ∧ pushes late = back := by
  obtain ⟨early, rest, rfl, before, behind⟩ := List.filterMap_eq_append_iff.mp pushed
  obtain ⟨others, operation, late, rfl, silent, push, after⟩ := List.filterMap_eq_cons_iff.mp behind
  have same : operation = .push task := by
    cases operation with
    | push other => exact congrArg Operation.push (Option.some.inj push)
    | _ => cases push
  have nothing : pushes others = [] := List.filterMap_eq_nil_iff.mpr silent
  refine ⟨early ++ others, late, by rw [same, List.append_assoc], ?_, after⟩
  rw [pushes_append, nothing, List.append_nil]
  exact before

/-! ## Tasks -/

theorem apply_current (q : Sequential) (h : ∀ other, operation ≠ .push other) :
    (q.apply operation).2.ledger.current = q.ledger.current := by
  rcases q.apply_tasks operation with ⟨task, push, -⟩ | ⟨now, -, ledger⟩ | ⟨current, -⟩
  · exact absurd push (h task)
  · rw [ledger, Ledger.current_cleanup]
  · exact current

theorem apply_pending (q : Sequential) (push : ∀ other, operation ≠ .push other)
    (cleanup : ∀ now, operation ≠ .cleanup now) :
    (q.apply operation).2.ledger.pending = q.ledger.pending := by
  rcases q.apply_tasks operation with ⟨task, pushed, -⟩ | ⟨now, cleaned, -⟩ | ⟨-, pending⟩
  · exact absurd pushed (push task)
  · exact absurd cleaned (cleanup now)
  · exact pending

/-- **The current task is the one that was pushed last.** -/
theorem current_after (settings : EngineSettings) (verifier : Verifier) (history : List Operation) :
    ((start settings verifier).after history).ledger.current = (pushes history).getLast? := by
  induction history using List.reverseRecOn with
  | nil => rfl
  | append_singleton history operation ih =>
    rw [after_concat]
    by_cases push : ∃ task, operation = .push task
    · obtain ⟨task, rfl⟩ := push
      rw [pushes_append]
      exact (List.getLast?_concat ..).symm
    · rw [apply_current _ (not_exists.mp push), ih, pushes_concat_of_ne (not_exists.mp push)]

theorem not_standing_nil : ¬Standing threshold task [] := by
  generalize none : ([] : List Operation) = history
  intro standing
  cases standing <;> simp at none

/-- What one more operation does to a task. -/
theorem standing_concat :
    Standing threshold task (history ++ [operation]) ↔
      operation = .push task ∨
        (Standing threshold task history ∧
          (∀ other, operation = .push other → other.sealHash ≠ task.sealHash) ∧
          ∀ now, operation = .cleanup now → ∀ last, (pushes history).getLast? = some last →
            last.number < Word.addSat task.number threshold) := by
  constructor
  · generalize all : history ++ [operation] = longer
    intro standing
    cases standing with
    | pushed earlier =>
      obtain ⟨-, same⟩ := List.append_inj' all rfl
      exact .inl (List.singleton_inj.mp same)
    | kept before apart recent =>
      obtain ⟨rfl, same⟩ := List.append_inj' all rfl
      obtain rfl := List.singleton_inj.mp same
      exact .inr ⟨before, apart, recent⟩
  · rintro (rfl | ⟨before, apart, recent⟩)
    · exact .pushed history
    · exact .kept before apart recent

/-- **A task is pending as long as it stands.** -/
theorem mem_pending_after (settings : EngineSettings) (verifier : Verifier)
    (history : List Operation) (task : Task) :
    task ∈ ((start settings verifier).after history).ledger.pending ↔
      Standing settings.staleThreshold task history := by
  induction history using List.reverseRecOn with
  | nil => exact iff_of_false List.not_mem_nil not_standing_nil
  | append_singleton history operation ih =>
    have last := current_after settings verifier history
    have constant := (after_constant (start settings verifier) history).1
    rw [after_concat, standing_concat, ← ih]
    generalize (start settings verifier).after history = q at last constant
    have threshold : q.settings.staleThreshold = settings.staleThreshold :=
      congrArg EngineSettings.staleThreshold constant
    cases operation with
    | push other => simp [apply, Ledger.mem_pending_push, eq_comm]
    | cleanup now => simp [apply, Ledger.mem_pending_cleanup, Ledger.Outdated, threshold, last]
    | _ => simp [apply_pending]

theorem nodup_hashes_after (settings : EngineSettings)
    (verifier : Verifier) (history : List Operation) :
    (((start settings verifier).after history).ledger.pending.map Task.sealHash).Nodup := by
  induction history using List.reverseRecOn with
  | nil => exact List.nodup_nil
  | append_singleton history operation ih =>
    rw [after_concat]
    generalize (start settings verifier).after history = q at ih
    cases operation with
    | push task =>
      have fresh : task.sealHash
          ∉ (q.ledger.pending.filter (·.sealHash != task.sealHash)).map Task.sealHash := by
        simp
      exact List.nodup_cons.mpr ⟨fresh, ih.sublist (List.filter_sublist.map _)⟩
    | cleanup now =>
      have kept : (q.ledger.cleanup q.settings now).pending.Sublist q.ledger.pending := by
        unfold Ledger.cleanup Ledger.purge
        split
        · exact List.Sublist.refl _
        · exact List.filter_sublist
      exact ih.sublist (kept.map _)
    | _ => simpa [apply_pending] using ih

theorem find?_after (settings : EngineSettings) (verifier : Verifier)
    (history : List Operation) (hash : Hash) (task : Task) :
    ((start settings verifier).after history).ledger.find? hash = some task ↔
      Standing settings.staleThreshold task history ∧ task.sealHash = hash := by
  have nodup := nodup_hashes_after settings verifier history
  rw [← mem_pending_after settings verifier]
  constructor
  · exact Ledger.mem_of_find?
  · rintro ⟨pending, rfl⟩
    apply Ledger.find?_eq_some _ pending
    intro other there same
    exact List.inj_on_of_nodup_map nodup there pending same

theorem find?_after_eq_none (settings : EngineSettings)
    (verifier : Verifier) (history : List Operation) (hash : Hash) :
    ((start settings verifier).after history).ledger.find? hash = none ↔
      ∀ task, Standing settings.staleThreshold task history → task.sealHash ≠ hash := by
  constructor
  · intro none task standing same
    have found := (find?_after settings verifier history hash task).mpr ⟨standing, same⟩
    cases none.symm.trans found
  · intro none
    apply Ledger.find?_eq_none
    intro task pending
    exact none task ((mem_pending_after settings verifier history task).mp pending)

/-- A task that stands is the one that was pushed last under its hash. -/
theorem Standing.lastUnder (h : Standing threshold task history) :
    lastUnder task.sealHash history = some task := by
  unfold Sequential.lastUnder
  induction h with
  | pushed history =>
    rw [pushes_append, List.filter_append]
    simp [pushes, Operation.task?]
  | @kept history operation _ apart _ ih =>
    by_cases push : ∃ other, operation = .push other
    · obtain ⟨other, rfl⟩ := push
      have elsewhere : (pushes [.push other]).filter (·.sealHash = task.sealHash) = [] := by
        simpa [pushes, Operation.task?] using apart other rfl
      rw [pushes_append, List.filter_append, elsewhere, List.append_nil, ih]
    · rw [pushes_concat_of_ne (not_exists.mp push), ih]

/-- A task stands if since its push nothing was pushed under its hash, and nothing that it could be
outdated by. -/
theorem standing_of_recent {early late : List Operation}
    (apart : ∀ other ∈ pushes late, other.sealHash ≠ task.sealHash)
    (recent : ∀ other ∈ task :: pushes late, other.number < Word.addSat task.number threshold) :
    Standing threshold task (early ++ .push task :: late) := by
  induction late using List.reverseRecOn with
  | nil => exact .pushed early
  | append_singleton late operation ih =>
    have within : ∀ other, other ∈ pushes late → other ∈ pushes (late ++ [operation]) := by
      intro other there
      rw [pushes_append]
      exact List.mem_append_left _ there
    have all : early ++ .push task :: (late ++ [operation])
        = (early ++ .push task :: late) ++ [operation] := by
      rw [List.append_assoc, List.cons_append]
    rw [all]
    refine .kept (ih ?_ ?_) ?_ ?_
    · exact fun other there => apart other (within other there)
    · intro other there
      refine recent other ?_
      rcases List.mem_cons.mp there with rfl | there
      · exact List.mem_cons_self
      · exact List.mem_cons_of_mem _ (within other there)
    · rintro other rfl
      refine apart other ?_
      rw [pushes_append]
      exact List.mem_append_right _ List.mem_cons_self
    · rintro now rfl last lastPushed
      -- The last push is the task's own or a later one.
      have there : last ∈ task :: pushes late := by
        rw [pushes_append] at lastPushed
        have split : pushes (.push task :: late) = task :: pushes late := rfl
        rw [split, List.getLast?_append_cons] at lastPushed
        exact List.mem_of_getLast? lastPushed
      rcases List.mem_cons.mp there with rfl | there
      · exact recent _ List.mem_cons_self
      · exact recent last (List.mem_cons_of_mem _ (within last there))

/-! ## The channel of accepted solutions -/

/-- How an operation changes the channel, by what it gave: a value is put there with an acceptance
and taken with a receipt, the consumer goes away, or nothing happens. -/
inductive Turns (outbox : Outbox) : Operation → Operation.Result → Outbox → Prop where
  | put {operation : Operation} {result : Operation.Result} (work : SealedWork)
    (accepted : result.isAcceptance = true) (other : result.isReceipt = false)
    (stays : operation ≠ .abandon) (attended : outbox.attended = true)
    (room : outbox.queue.length < outbox.capacity) :
    Turns outbox operation result { outbox with queue := outbox.queue ++ [work] }
  | taken {operation : Operation} {result : Operation.Result}
      {work : SealedWork} {rest : List SealedWork}
    (received : result.isReceipt = true) (other : result.isAcceptance = false)
    (stays : operation ≠ .abandon) (queue : outbox.queue = work :: rest) :
    Turns outbox operation result { outbox with queue := rest }
  | left : Turns outbox .abandon .done outbox.abandon
  | kept {operation : Operation} {result : Operation.Result} (other : result.isAcceptance = false)
    (other' : result.isReceipt = false) (stays : operation ≠ .abandon) :
    Turns outbox operation result outbox

theorem turns_apply (q : Sequential) (operation : Operation) :
    Turns q.outbox operation (q.apply operation).1 (q.apply operation).2.outbox := by
  cases operation with
  | serve now message =>
    cases message with
    | submission s =>
      cases submitted : q.ledger.submit q.settings.staleThreshold q.verifier q.outbox s with
      | error error =>
        rw [apply_refused submitted]
        exact .kept rfl rfl (by simp)
      | ok outbox =>
        rw [apply_accepted submitted]
        cases judged : q.ledger.judge q.settings.staleThreshold q.verifier s with
        | error error => cases submitted.symm.trans (Ledger.submit_of_judge_error judged)
        | ok task =>
          have offered := (Ledger.submit_of_judge_ok judged).symm.trans submitted
          obtain ⟨attended, rfl⟩ := Outbox.offer_eq_ok offered
          have room : q.outbox.queue.length < q.outbox.capacity := by
            by_contra full
            cases offered.symm.trans (Outbox.offer_full attended (Nat.le_of_not_lt full))
          exact .put _ rfl rfl (by simp) attended room
    | _ => exact .kept rfl rfl (by simp)
  | receive =>
    simp only [apply, Outbox.receive]
    cases queue : q.outbox.queue with
    | nil => exact .kept rfl rfl (by simp)
    | cons work rest => exact .taken rfl rfl (by simp) queue
  | abandon => exact .left
  | _ => exact .kept rfl rfl (by simp)

/-- What is known of the channel after a history: its capacity, whether there is a consumer, that it
does not overflow, and that it holds what was accepted and not received. -/
structure Balanced (settings : EngineSettings) (verifier : Verifier) (history : List Operation)
    (outbox : Outbox) : Prop where
  capacity : outbox.capacity = max settings.resultsCapacity 1
  attended : outbox.attended = true ↔ .abandon ∉ history
  bounded : outbox.queue.length ≤ max settings.resultsCapacity 1
  balance : outbox.attended = true → outbox.queue.length
    + (start settings verifier).receivedCount history
      = (start settings verifier).acceptedCount history

theorem countP_results_concat (q : Sequential) (p : Operation.Result → Bool)
    (history : List Operation)
    (operation : Operation) : (q.results (history ++ [operation])).countP p
      = (q.results history).countP p
        + if p ((q.after history).apply operation).1 then 1 else 0 := by
  rw [results_append, List.countP_append]
  exact congrArg (_ + ·) List.countP_singleton

theorem Balanced.turn {outbox outbox' : Outbox} {result : Operation.Result}
    (h : Balanced settings verifier history outbox) (turns : Turns outbox operation result outbox')
    (accepted : (start settings verifier).acceptedCount (history ++ [operation])
      = (start settings verifier).acceptedCount history + if result.isAcceptance then 1 else 0)
    (received : (start settings verifier).receivedCount (history ++ [operation])
      = (start settings verifier).receivedCount history + if result.isReceipt then 1 else 0) :
    Balanced settings verifier (history ++ [operation]) outbox' := by
  obtain ⟨capacity, attended, bounded, balance⟩ := h
  have still : operation ≠ .abandon → (.abandon ∉ history ++ [operation] ↔ .abandon ∉ history) := by
    intro stays
    simp [Ne.symm stays]
  cases turns with
  | put work one other stays open' room =>
    rw [one] at accepted
    rw [other] at received
    refine ⟨capacity, attended.trans (still stays).symm, ?_, fun _ => ?_⟩
    · rw [List.length_append, List.length_singleton]
      omega
    · have balance := balance open'
      rw [List.length_append, List.length_singleton, accepted, received]
      simp only [if_true, Bool.false_eq_true, if_false]
      omega
  | taken one other stays queue =>
    rw [other] at accepted
    rw [one] at received
    rw [queue, List.length_cons] at bounded balance
    refine ⟨capacity, attended.trans (still stays).symm, Nat.le_of_succ_le bounded, fun open' => ?_⟩
    have balance := balance open'
    rw [accepted, received]
    simp only [if_true, Bool.false_eq_true, if_false]
    omega
  | left => exact ⟨capacity, by simp [Outbox.abandon], Nat.zero_le _, fun open' => by cases open'⟩
  | kept other other' stays =>
    rw [other] at accepted
    rw [other'] at received
    refine ⟨capacity, attended.trans (still stays).symm, bounded, fun open' => ?_⟩
    rw [accepted, received]
    exact balance open'

/-- **The channel holds what was accepted and not received**, and never more than fits. -/
theorem balanced_after (settings : EngineSettings) (verifier : Verifier)
    (history : List Operation) :
    Balanced settings verifier history ((start settings verifier).after history).outbox := by
  induction history using List.reverseRecOn with
  | nil => exact ⟨rfl, by simp [after, start, Outbox.start], Nat.zero_le _, fun _ => rfl⟩
  | append_singleton history operation ih =>
    rw [after_concat]
    exact ih.turn (turns_apply _ operation) (countP_results_concat _ _ history operation)
      (countP_results_concat _ _ history operation)

theorem length_queue_after
    (open' : ((start settings verifier).after history).outbox.attended = true) :
    ((start settings verifier).after history).outbox.queue.length
      = (start settings verifier).unreceived history := by
  have balance := (balanced_after settings verifier history).balance open'
  unfold unreceived
  omega

end Sequential

end MinerGateway
