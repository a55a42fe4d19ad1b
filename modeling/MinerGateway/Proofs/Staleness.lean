import MinerGateway.Proofs.Verdict

/-!
Staleness in numbers.

A task is to be stale as soon as its number and the threshold come to the number that was pushed
last at most (`Behind`). The worker adds the two with a sum that stops at the largest word. Up to
that word the two conditions are the same. Once the largest number of all was pushed last, they are
not: every sum that does not fit counts as reached, and every pending task is stale (`Saturated`),
the current one included. Submissions and cleanups agree with each other in either case
(`staleness_by_numbers`).

What is proved, after every history of the worker:
  1. a solution for a pending task that the verifier passes is answered as stale exactly if the task
     is `Behind` or `Saturated`;
  2. a cleanup takes away exactly these tasks;
  3. with a threshold of at least one, the task that was pushed last is pending and not stale, but
     for the largest number, with which it is stale.

`current_task_stale_at_the_largest` is a case beyond: the current task itself, with the largest
number, is refused as stale and cleaned up.
-/

namespace MinerGateway

/-- The sum that stops at the largest word reaches every number that the exact sum reaches, and the
largest word always. -/
theorem Word.addSat_le_iff (a b c : UInt64) :
    addSat a b ≤ c ↔ a.toNat + b.toNat ≤ c.toNat ∨ (c = largest ∧ c.toNat < a.toNat + b.toNat) := by
  have top : largest.toNat = UInt64.size - 1 := rfl
  have small : c.toNat < UInt64.size := c.toNat_lt
  have same : c = largest ↔ c.toNat = UInt64.size - 1 := by
    rw [← UInt64.toNat_inj, top]
  rw [UInt64.le_iff_toNat_le, toNat_addSat, same]
  omega

namespace Sequential

/-- The task lies `threshold` blocks or more behind the other, in unbounded numbers. -/
def Behind (threshold : UInt64) (task last : Task) : Prop :=
  task.number.toNat + threshold.toNat ≤ last.number.toNat

/-- The other task has the largest number that there is, and the task does not lie `threshold`
blocks behind it. -/
def Saturated (threshold : UInt64) (task last : Task) : Prop :=
  last.number = Word.largest ∧ last.number.toNat < task.number.toNat + threshold.toNat

instance (threshold : UInt64) (task last : Task) : Decidable (Behind threshold task last) :=
  inferInstanceAs (Decidable (_ ≤ _))

variable {settings : EngineSettings} {verifier : Verifier}
  {history : List Operation} {threshold : UInt64} {task last : Task}

theorem addSat_le_number_iff :
    Word.addSat task.number threshold ≤ last.number ↔
    Behind threshold task last ∨ Saturated threshold task last :=
  Word.addSat_le_iff ..

/-- The task that was pushed last stands, unless it is outdated by itself. -/
theorem standing_last (pushed : (pushes history).getLast? = some last)
    (recent : last.number < Word.addSat last.number threshold) :
    Standing threshold last history := by
  obtain ⟨tasks, all⟩ := List.getLast?_eq_some_iff.mp pushed
  obtain ⟨early, late, rfl, -, nothing⟩ := split_of_pushes all
  apply standing_of_recent
  · simp [nothing]
  · simpa [nothing] using recent

/-- **A solution that the verifier passes is stale by the sum that saturates.** -/
theorem answers_stale_iff (pushed : (pushes history).getLast? = some last) {s : Submission}
    (named : Named settings.staleThreshold history s.hash task)
    (passes : verifier task s.nonce s.mixDigest = .ok ()) (now : Nat) :
    (∃ number current,
      (((start settings verifier).after history).apply (.serve now (.submission s))).1
        = .reply (.verdict (.error (.staleWork number current)))) ↔
      Word.addSat task.number settings.staleThreshold ≤ last.number := by
  constructor
  · rintro ⟨number, current, answer⟩
    obtain ⟨verdict, decided⟩ := exists_decides settings verifier history s
    have told := Operation.Result.reply.inj ((decided.answers now).symm.trans answer)
    obtain rfl : verdict = .error (.staleWork number current) := Reply.verdict.inj told
    cases decided with
    | rejected named' rejects =>
      obtain rfl := Option.some.inj (named.latest.symm.trans named'.latest)
      cases passes.symm.trans rejects
    | stale named' _ pushed' behind =>
      obtain rfl := Option.some.inj (named.latest.symm.trans named'.latest)
      obtain rfl := Option.some.inj (pushed.symm.trans pushed')
      exact behind
  · intro behind
    exact ⟨_, _, (Decides.stale named passes pushed behind).answers now⟩

/-- **A cleanup keeps the tasks that are not stale**, by the same sum. -/
theorem mem_pending_cleanup_after (pushed : (pushes history).getLast? = some last) (now : Nat) :
    task ∈ (((start settings verifier).after history).apply (.cleanup now)).2.ledger.pending ↔
      task ∈ ((start settings verifier).after history).ledger.pending ∧
        ¬Word.addSat task.number settings.staleThreshold ≤ last.number := by
  have current := (current_after settings verifier history).trans pushed
  have same := (after_constant (start settings verifier) history).1
  simp only [apply, Ledger.mem_pending_cleanup, Ledger.Outdated, current, same, Option.some.injEq,
    exists_eq_left']
  rfl

/-- **Staleness is exact short of the largest number.** After every history, with `last` the task
that was pushed last: a solution for a pending task that the verifier passes is answered as stale,
and a cleanup takes the task away, if its number and the threshold come to the number of `last` at
most, in unbounded numbers; and otherwise only if `last` has the largest number there is. With a
threshold of at least one, the current task is pending and not stale, unless it has the largest
number: then it is stale itself, though it lies behind nothing. -/
theorem staleness_by_numbers (settings : EngineSettings) (verifier : Verifier)
    (pushed : (pushes history).getLast? = some last) :
    let q := (start settings verifier).after history
    let Stale := fun task => Behind settings.staleThreshold task last ∨
      Saturated settings.staleThreshold task last
    (∀ task ∈ q.ledger.pending,
      (∀ now (s : Submission), s.hash = task.sealHash → verifier task s.nonce s.mixDigest = .ok () →
        ((∃ number current, (q.apply (.serve now (.submission s))).1
            = .reply (.verdict (.error (.staleWork number current)))) ↔ Stale task)) ∧
      ∀ now, task ∉ (q.apply (.cleanup now)).2.ledger.pending ↔ Stale task) ∧
    (∀ now, ∀ task ∈ (q.apply (.cleanup now)).2.ledger.pending, task ∈ q.ledger.pending) ∧
    (1 ≤ settings.staleThreshold →
      (last.number ≠ Word.largest → last ∈ q.ledger.pending ∧ ¬Stale last) ∧
      (last.number = Word.largest → Stale last ∧ ¬Behind settings.staleThreshold last last)) := by
  intro q Stale
  have stale : ∀ task, Word.addSat task.number settings.staleThreshold ≤ last.number ↔ Stale task :=
    fun task => addSat_le_number_iff
  have cleaned : ∀ now task, task ∈ (q.apply (.cleanup now)).2.ledger.pending ↔
      task ∈ q.ledger.pending ∧ ¬Stale task := by
    intro now task
    rw [← stale]
    exact mem_pending_cleanup_after pushed now
  refine ⟨fun task there => ⟨?_, ?_⟩, ?_, ?_⟩
  · intro now s hash passes
    have standing := (mem_pending_after settings verifier history task).mp there
    rw [← stale]
    exact answers_stale_iff pushed (named_iff.mpr ⟨standing, hash.symm⟩) passes now
  · intro now
    simp [cleaned, there]
  · intro now task there
    exact ((cleaned now task).mp there).1
  · intro threshold
    have positive : 1 ≤ settings.staleThreshold.toNat := UInt64.le_iff_toNat_le.mp threshold
    have level : ¬Behind settings.staleThreshold last last := by
      unfold Behind
      omega
    constructor
    · intro less
      have recent : ¬Stale last := by
        rintro (behind | saturated)
        · exact level behind
        · exact less saturated.1
      refine ⟨(mem_pending_after settings verifier history last).mpr (standing_last pushed ?_),
        recent⟩
      exact UInt64.not_le.mp (mt (stale last).mp recent)
    · intro largest
      exact ⟨.inr ⟨largest, by omega⟩, level⟩

/-- With the number 12 pushed last, a task numbered 5 is stale and a task numbered 6 is not. -/
theorem staleness_by_numbers_at_twelve :
    let five : Task := ⟨.filled 32 5, 5, .empty⟩
    let six : Task := ⟨.filled 32 6, 6, .empty⟩
    let twelve : Task := ⟨.filled 32 12, 12, .empty⟩
    let q := (start {} .acceptAll).after [.push five, .push six, .push twelve]
    five ∉ (q.apply (.cleanup 0)).2.ledger.pending ∧ six ∈ (q.apply (.cleanup 0)).2.ledger.pending ∧
      twelve ∈ q.ledger.pending := by
  intro five six twelve q
  have pushed : (pushes [.push five, .push six, .push twelve]).getLast? = some twelve := rfl
  obtain ⟨tasks, -, current⟩ := staleness_by_numbers {} .acceptAll pushed
  have purged := (tasks five (by decide)).2 0
  have kept := (tasks six (by decide)).2 0
  refine ⟨purged.mpr (.inl (by decide)), ?_, ((current (by decide)).1 (by decide)).1⟩
  by_contra gone
  rcases kept.mp gone with behind | saturated
  · exact absurd behind (by decide)
  · exact absurd saturated.1 (by decide)

/-- The last task that can be numbered is stale as soon as it is pushed: a solution for it is
refused, and a cleanup takes it away, though it is the current one and lies behind nothing. -/
theorem current_task_stale_at_the_largest :
    let task : Task := ⟨.filled 32 0xff, 0xffffffffffffffff, .empty⟩
    let q := (start {} .acceptAll).after [.push task]
    let s : Submission := ⟨.filled 8 1, task.sealHash, .filled 32 1, none⟩
    q.ledger.current = some task ∧ task ∈ q.ledger.pending ∧ ¬Behind 7 task task ∧
      (q.apply (.serve 0 (.submission s))).1
        = .reply (.verdict (.error (.staleWork 0xffffffffffffffff 0xffffffffffffffff))) ∧
      (q.apply (.cleanup 0)).2.ledger.pending = [] := by
  exact ⟨rfl, by decide, by decide, rfl, by decide⟩

end Sequential

end MinerGateway
