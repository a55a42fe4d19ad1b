import MinerGateway.Proofs.Histories
import MinerGateway.Proofs.SequentialOrder

/-!
What the worker answers to a submission, told from its history.

There are six answers in a fixed order of precedence (`Decides`): no task stands under the hash, the
verifier has something against the solution, the task lies too far behind, the consumer is gone, the
channel is full, or the solution is accepted. After every history one of them applies
(`exists_decides`), and it is the answer (`Decides.answers`). No answer but acceptance leaves a
trace, and that only in the channel (`verdict_by_history`). In front of a gateway, the history is
what the worker was asked to do so far (`decides_of_served`).

Correspondence (history ↔ definition):
  the task that is pending under a hash      ↔ `Named`, `Standing`
  passed by the verifier and recent enough   ↔ `Acceptable`
  the answer that applies                    ↔ `Decides`
  what fills and empties the channel         ↔ `Balanced`

What is assumed: nothing. The verifier may answer with any error, so one that reads like an error of
the worker's own is told from it by the history and not by its text.
-/

namespace MinerGateway

namespace Sequential

/-- The task that stands under a hash, which is the one that was pushed last under it. -/
structure Named (threshold : UInt64) (history : List Operation) (hash : Hash) (task : Task) :
    Prop where
  standing : Standing threshold task history
  latest : lastUnder hash history = some task

/-- The verifier passes the solution, and the task lies less than `threshold` blocks behind the one
that was pushed last. -/
structure Acceptable (threshold : UInt64) (verifier : Verifier)
    (history : List Operation) (s : Submission) (task : Task) : Prop where
  named : Named threshold history s.hash task
  passes : verifier task s.nonce s.mixDigest = .ok ()
  recent : ∀ last, (pushes history).getLast? = some last →
      last.number < Word.addSat task.number threshold

/-- The answer to a submission after a history. -/
inductive Decides (settings : EngineSettings) (verifier : Verifier) (history : List Operation)
    (s : Submission) : Except SealingError Unit → Prop where
  | unknown (none : ∀ task, Standing settings.staleThreshold task history →
      task.sealHash ≠ s.hash) :
    Decides settings verifier history s (.error (.unknownWork s.hash.text))
  | rejected {task : Task} {error : SealingError}
      (named : Named settings.staleThreshold history s.hash task)
    (rejects : verifier task s.nonce s.mixDigest = .error error) :
    Decides settings verifier history s (.error error)
  | stale {task last : Task} (named : Named settings.staleThreshold history s.hash task)
    (passes : verifier task s.nonce s.mixDigest = .ok ())
    (pushed : (pushes history).getLast? = some last)
    (behind : Word.addSat task.number settings.staleThreshold ≤ last.number) :
    Decides settings verifier history s (.error (.staleWork task.number last.number))
  | closed {task : Task} (acceptable : Acceptable settings.staleThreshold verifier history s task)
    (gone : .abandon ∈ history) :
    Decides settings verifier history s (.error (.internal "results channel closed"))
  | full {task : Task} (acceptable : Acceptable settings.staleThreshold verifier history s task)
    (there : .abandon ∉ history)
    (full : (start settings verifier).unreceived history = max settings.resultsCapacity 1) :
    Decides settings verifier history s (.error (.internal "results channel full"))
  | accepted {task : Task} (acceptable : Acceptable settings.staleThreshold verifier history s task)
    (there : .abandon ∉ history)
    (room : (start settings verifier).unreceived history < max settings.resultsCapacity 1) :
    Decides settings verifier history s (.ok ())

variable {settings : EngineSettings} {verifier : Verifier}
  {history : List Operation} {s : Submission} {threshold : UInt64} {task : Task} {hash : Hash}

/-! ## One of the six answers applies -/

theorem Named.same (h : Named threshold history hash task) : task.sealHash = hash := by
  have there := List.mem_of_getLast? h.latest
  simpa using (List.mem_filter.mp there).2

theorem named_iff : Named threshold history hash task ↔
    Standing threshold task history ∧ task.sealHash = hash := by
  constructor
  · exact fun h => ⟨h.standing, h.same⟩
  · rintro ⟨standing, rfl⟩
    exact ⟨standing, standing.lastUnder⟩

theorem pushes_ne_nil (h : Standing threshold task history) :
    ∃ last, (pushes history).getLast? = some last := by
  have some : task ∈ (pushes history).filter (·.sealHash = task.sealHash) :=
    List.mem_of_getLast? h.lastUnder
  have nonempty : pushes history ≠ [] := List.ne_nil_of_mem (List.mem_of_mem_filter some)
  exact ⟨_, List.getLast?_eq_some_getLast nonempty⟩

theorem exists_decides (settings : EngineSettings) (verifier : Verifier) (history : List Operation)
    (s : Submission) : ∃ verdict, Decides settings verifier history s verdict := by
  by_cases stands : ∃ task, Standing settings.staleThreshold task history ∧ task.sealHash = s.hash
  case neg =>
    refine ⟨_, .unknown fun task standing same => stands ⟨task, standing, same⟩⟩
  obtain ⟨task, standing, same⟩ := stands
  have named := named_iff.mpr ⟨standing, same⟩
  cases verified : verifier task s.nonce s.mixDigest with
  | error error => exact ⟨_, .rejected named verified⟩
  | ok =>
    obtain ⟨last, pushed⟩ := pushes_ne_nil standing
    by_cases behind : Word.addSat task.number settings.staleThreshold ≤ last.number
    · exact ⟨_, .stale named verified pushed behind⟩
    have acceptable : Acceptable settings.staleThreshold verifier history s task := by
      refine ⟨named, verified, fun last' pushed' => ?_⟩
      obtain rfl := Option.some.inj (pushed.symm.trans pushed')
      exact UInt64.not_le.mp behind
    by_cases gone : .abandon ∈ history
    · exact ⟨_, .closed acceptable gone⟩
    have balanced := balanced_after settings verifier history
    have bounded := balanced.bounded
    rw [length_queue_after (balanced.attended.mpr gone)] at bounded
    rcases Nat.lt_or_eq_of_le bounded with room | full
    · exact ⟨_, .accepted acceptable gone room⟩
    · exact ⟨_, .full acceptable gone full⟩

/-! ## It is the answer -/

/-- A task that is named is judged by the verifier and by its age. -/
theorem judge_after (verifier' : Verifier)
    (named : Named settings.staleThreshold history s.hash task)
    {last : Task} (pushed : (pushes history).getLast? = some last) :
    ((start settings verifier).after history).ledger.judge settings.staleThreshold verifier' s
      = (verifier' task s.nonce s.mixDigest).bind fun _ =>
        if Word.addSat task.number settings.staleThreshold ≤ last.number then
          .error (.staleWork task.number last.number) else .ok task := by
  have current := (current_after settings verifier history).trans pushed
  have found := (find?_after settings verifier history s.hash task).mpr ⟨named.standing, named.same⟩
  simp only [Ledger.judge, current, found]
  rfl

theorem Acceptable.judge (h : Acceptable settings.staleThreshold verifier history s task) :
    ((start settings verifier).after history).ledger.judge settings.staleThreshold verifier s
      = .ok task := by
  obtain ⟨last, pushed⟩ := pushes_ne_nil h.named.standing
  rw [judge_after verifier h.named pushed, h.passes]
  exact if_neg (UInt64.not_le.mpr (h.recent last pushed))

theorem Acceptable.submit (h : Acceptable settings.staleThreshold verifier history s task)
    (outbox : Outbox) :
    ((start settings verifier).after history).ledger.submit
        settings.staleThreshold verifier outbox s
      = outbox.offer (task.sealedBy s) :=
  Ledger.submit_of_judge_ok h.judge

theorem submit_after (settings : EngineSettings) (verifier : Verifier) (history : List Operation)
    (s : Submission) :
    let q := (start settings verifier).after history
    q.ledger.submit q.settings.staleThreshold q.verifier q.outbox s
      = q.ledger.submit settings.staleThreshold verifier q.outbox s := by
  obtain ⟨same, same'⟩ := after_constant (start settings verifier) history
  intro q
  rw [show q.settings = settings from same, show q.verifier = verifier from same']

/-- **An answer that is no acceptance is given, and leaves no trace.** -/
theorem Decides.refuses {error : SealingError}
    (h : Decides settings verifier history s (.error error)) (now : Nat) :
    let q := (start settings verifier).after history
    q.apply (.serve now (.submission s)) = (.reply (.verdict (.error error)), q) := by
  intro q
  have balanced : Balanced settings verifier history q.outbox :=
    balanced_after settings verifier history
  refine apply_refused ((submit_after settings verifier history s).trans ?_)
  cases h with
  | unknown none =>
    exact Ledger.submit_of_judge_error (Ledger.judge_unknown ((find?_after_eq_none ..).mpr none))
  | rejected named rejects =>
    obtain ⟨last, pushed⟩ := pushes_ne_nil named.standing
    apply Ledger.submit_of_judge_error
    rw [judge_after verifier named pushed, rejects]
    rfl
  | stale named passes pushed behind =>
    apply Ledger.submit_of_judge_error
    rw [judge_after verifier named pushed, passes]
    exact if_pos behind
  | closed acceptable gone =>
    have left : q.outbox.attended = false := by
      simpa [gone] using balanced.attended
    exact (acceptable.submit _).trans (Outbox.offer_closed left)
  | full acceptable there full =>
    have attended : q.outbox.attended = true := balanced.attended.mpr there
    have length : q.outbox.queue.length = _ := length_queue_after attended
    have capacity : q.outbox.capacity = max settings.resultsCapacity 1 := balanced.capacity
    have filled : q.outbox.capacity ≤ q.outbox.queue.length := by omega
    exact (acceptable.submit _).trans (Outbox.offer_full attended filled)

/-- **An acceptance is given, and puts one value on the channel.** -/
theorem Decides.accepts (h : Decides settings verifier history s (.ok ())) (now : Nat) :
    let q := (start settings verifier).after history
    ∃ task, Named settings.staleThreshold history s.hash task ∧
      q.apply (.serve now (.submission s)) = (.reply (.verdict (.ok ())),
        { q with outbox := { q.outbox with queue := q.outbox.queue ++ [task.sealedBy s] } }) := by
  intro q
  have balanced : Balanced settings verifier history q.outbox :=
    balanced_after settings verifier history
  cases h with
  | @accepted task acceptable there room =>
    have attended : q.outbox.attended = true := balanced.attended.mpr there
    have length : q.outbox.queue.length = _ := length_queue_after attended
    have capacity : q.outbox.capacity = max settings.resultsCapacity 1 := balanced.capacity
    refine ⟨task, acceptable.named,
      apply_accepted ((submit_after settings verifier history s).trans ?_)⟩
    have fits : q.outbox.queue.length < q.outbox.capacity := by omega
    exact (acceptable.submit _).trans (Outbox.offer_room attended fits)

/-- **The answer is the one that applies.** -/
theorem Decides.answers {verdict : Except SealingError Unit}
    (h : Decides settings verifier history s verdict) (now : Nat) :
    (((start settings verifier).after history).apply (.serve now (.submission s))).1
      = .reply (.verdict verdict) := by
  cases verdict with
  | error error => exact congrArg Prod.fst (h.refuses now)
  | ok =>
    obtain ⟨task, -, applied⟩ := h.accepts now
    exact congrArg Prod.fst applied

/-- **A submission is decided by the whole history and fails without a trace.** After every sequence
of pushes, submissions, fetches, reports, readings, cleanups and receipts, whether the consumer went
away or not, exactly one of six answers applies to a submission, and it is given. A task is pending
if it stands by the history, and at most one does under each hash, the one pushed last. So a
submission is answered as unknown exactly if no task is pending under its hash, or the verifier says
so of the one that is. Anything but an acceptance leaves the worker and the channel as they are; an
acceptance appends one value to the channel and changes nothing else. The channel holds what was
accepted and not received, and never more than fits. -/
theorem verdict_by_history (settings : EngineSettings)
    (verifier : Verifier) (history : List Operation) :
    let q := (start settings verifier).after history
    (∀ task, task ∈ q.ledger.pending ↔ Standing settings.staleThreshold task history) ∧
    (q.ledger.pending.map Task.sealHash).Nodup ∧
    q.ledger.current = (pushes history).getLast? ∧
    (q.outbox.attended = true → q.outbox.queue.length
      = (start settings verifier).unreceived history) ∧
    q.outbox.queue.length ≤ max settings.resultsCapacity 1 ∧
    ∀ (now : Nat) (s : Submission), ∃ verdict,
      (q.apply (.serve now (.submission s))).1 = .reply (.verdict verdict) ∧
      (∀ other, Decides settings verifier history s other ↔ other = verdict) ∧
      (verdict = .error (.unknownWork s.hash.text) ↔
        (∀ task ∈ q.ledger.pending, task.sealHash ≠ s.hash) ∨
          ∃ task ∈ q.ledger.pending, task.sealHash = s.hash ∧
            verifier task s.nonce s.mixDigest = .error (.unknownWork s.hash.text)) ∧
      (∀ error, verdict = .error error → (q.apply (.serve now (.submission s))).2 = q) ∧
      (verdict = .ok () → ∃ task ∈ q.ledger.pending, task.sealHash = s.hash ∧
        (q.apply (.serve now (.submission s))).2
          = { q with outbox := { q.outbox with queue := q.outbox.queue
            ++ [task.sealedBy s] } }) := by
  intro q
  have pending := mem_pending_after settings verifier history
  refine ⟨pending, nodup_hashes_after settings verifier history,
    current_after settings verifier history,
    length_queue_after, (balanced_after settings verifier history).bounded, ?_⟩
  intro now s
  obtain ⟨verdict, decided⟩ := exists_decides settings verifier history s
  have unique : ∀ other, Decides settings verifier history s other ↔ other = verdict := by
    intro other
    constructor
    · intro decided'
      have same := (decided'.answers now).symm.trans (decided.answers now)
      exact Reply.verdict.inj (Operation.Result.reply.inj same)
    · rintro rfl
      exact decided
  refine ⟨verdict, decided.answers now, unique, ?_, ?_, ?_⟩
  · constructor
    · rintro rfl
      cases decided with
      | unknown none => exact .inl fun task there => none task ((pending task).mp there)
      | @rejected task _ named rejects =>
        exact .inr ⟨task, (pending task).mpr named.standing, named.same, rejects⟩
    · rintro (none | ⟨task, there, same, rejects⟩)
      · exact ((unique _).mp (.unknown fun task standing =>
          none task ((pending task).mpr standing))).symm
      · have named := named_iff.mpr ⟨(pending task).mp there, same⟩
        exact ((unique _).mp (.rejected named rejects)).symm
  · rintro error rfl
    exact congrArg Prod.snd (decided.refuses now)
  · rintro rfl
    obtain ⟨task, named, applied⟩ := decided.accepts now
    exact ⟨task, (pending task).mpr named.standing, named.same, congrArg Prod.snd applied⟩

/-- A channel for one value refuses the second solution, though the task still stands. -/
theorem verdict_by_history_second :
    let task : Task := ⟨.filled 32 1, 5, .empty⟩
    let s : Submission := ⟨.filled 8 1, task.sealHash, .filled 32 1, none⟩
    let q := (start { resultsCapacity := 0 } .acceptAll).after [.push task,
      .serve 0 (.submission s)]
    task ∈ q.ledger.pending ∧ q.apply (.serve 0 (.submission s))
      = (.reply (.verdict (.error (.internal "results channel full"))), q) := by
  intro task s q
  obtain ⟨pending, -, -, -, -, decides⟩ := verdict_by_history { resultsCapacity := 0 } .acceptAll
    [.push task, .serve 0 (.submission s)]
  obtain ⟨verdict, answered, only, -, refused, -⟩ := decides 0 s
  have standing : Standing 7 task [.push task, .serve 0 (.submission s)] :=
    .kept (.pushed []) nofun nofun
  have acceptable : Acceptable 7 .acceptAll [.push task, .serve 0 (.submission s)] s task := by
    refine ⟨⟨standing, rfl⟩, rfl, fun last pushed => ?_⟩
    obtain rfl : task = last := Option.some.inj pushed
    decide
  obtain rfl := (only (.error (.internal "results channel full"))).mp
      (.full acceptable (by simp) rfl)
  exact ⟨(pending task).mpr standing, Prod.ext answered (refused _ rfl)⟩

end Sequential

/-! ## In front of a gateway -/

/-- What the worker of a sealer was asked to do along a log, in order. -/
def operationsOf (log : List Event) : List Operation := (entriesOf log log).map Entry.operation

theorem pushes_entriesOf (log front : List Event) :
    Sequential.pushes ((entriesOf log front).map Entry.operation) = pushedTasks front := by
  induction front using List.reverseRecOn with
  | nil => rfl
  | append_singleton front e ih =>
    have last : Sequential.pushes ((e.operation? log front.length).toList.map Entry.operation)
        = pushedTasks [e] := by
      unfold Event.operation?
      split <;> simp_all [Sequential.pushes, Operation.task?, pushedTasks]
    rw [entriesOf_concat, List.map_append, Sequential.pushes_append, ih, last, pushedTasks_append]

/-- As long as the loop runs, a sealer with its queued tasks is what its history makes of the empty
state. -/
theorem Sealer.Passes.sequential_eq {settings : EngineSettings}
    {verifier : Verifier} {log : List Event}
    {s : Sealer} (passes : (Sealer.start settings verifier).Passes log s)
    (running : s.loop = .running) :
    s.sequential = (Sequential.start settings verifier).after (operationsOf log) := by
  obtain ⟨-, same⟩ := passes.simulates (passes.going running) log
  rw [← same, Sealer.sequential_start, Sequential.replay,
    Sequential.after, operationsOf, List.foldl_map]

/-- **In front of a gateway, too, a submission is decided by the whole history**: by what the worker
was asked to do until it takes the submission up. -/
theorem decides_of_served {settings : EngineSettings} {verifier : Verifier} {w : World}
    {front back : List Event} {sender now : Nat} {s : Submission}
    {before after : Sealer} {reply : Reply} (run : (World.started settings verifier).Run
      (front ++ .served now ⟨sender, .submission s⟩ before after reply :: back) w) :
    ∃ verdict, reply = .verdict verdict ∧
      Sequential.Decides settings verifier (operationsOf front) s verdict := by
  obtain ⟨sealer, passes, running, queue, given, -⟩ := at_served run
  obtain ⟨verdict, decided⟩ := Sequential.exists_decides settings verifier (operationsOf front) s
  have answered := decided.answers now
  rw [← passes.sequential_eq running, sealer.apply_serve queue] at answered
  exact ⟨verdict, given.trans (Operation.Result.reply.inj answered), decided⟩

end MinerGateway
