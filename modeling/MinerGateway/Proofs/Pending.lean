import MinerGateway.Proofs.AcceptedWork
import MinerGateway.Proofs.Sequential

/-!
The pending tasks, and how a submission is judged against them.

Of all that can be done to the worker, only a push and a cleanup touch its tasks
(`Sequential.apply_tasks`): a push puts a task in the place of any other under its hash
(`mem_pending_push`), a cleanup takes those away that are outdated (`mem_pending_cleanup`). Cleanup
and judgement ask the same question of a task, `Ledger.Outdated`: the one forgets what the other
would refuse.
-/

namespace MinerGateway

namespace Ledger

variable {ledger ledger' : Ledger} {threshold : UInt64} {verifier : Verifier} {task other : Task}
  {s : Submission}

/-- The task lies `threshold` blocks or more behind the current one. -/
def Outdated (ledger : Ledger) (threshold : UInt64) (task : Task) : Prop :=
  ∃ current, ledger.current = some current ∧ Word.addSat task.number threshold ≤ current.number

/-- No two pending tasks have the same seal hash. -/
def OnePerHash (ledger : Ledger) : Prop :=
  ∀ task ∈ ledger.pending, ∀ other ∈ ledger.pending, task.sealHash = other.sealHash → task = other

/-! ## What operations do to the tasks -/

theorem mem_pending_push :
    task ∈ (ledger.push other).pending ↔
      task = other ∨ (task ∈ ledger.pending ∧ task.sealHash ≠ other.sealHash) := by
  simp [push]

theorem mem_pending_cleanup {settings : EngineSettings} {now : Nat} :
    task ∈ (ledger.cleanup settings now).pending ↔
      task ∈ ledger.pending ∧ ¬ledger.Outdated settings.staleThreshold task := by
  unfold cleanup purge Outdated
  cases h : ledger.current with
  | none => simp [expire, publish, h]
  | some current => simp [expire, publish, h]

theorem current_cleanup {settings : EngineSettings} {now : Nat} :
    (ledger.cleanup settings now).current = ledger.current := by
  unfold cleanup purge
  split <;> rfl

theorem OnePerHash.push (h : ledger.OnePerHash) (other : Task) :
    (ledger.push other).OnePerHash := by
  intro a ha b hb same
  rcases mem_pending_push.mp ha with rfl | ⟨ha, apart⟩
  · rcases mem_pending_push.mp hb with rfl | ⟨-, apart'⟩
    · rfl
    · exact absurd same.symm apart'
  · rcases mem_pending_push.mp hb with rfl | ⟨hb, -⟩
    · exact absurd same apart
    · exact h a ha b hb same

/-! ## Looking a task up -/

theorem mem_of_find? {hash : Hash} (h : ledger.find? hash = some task) :
    task ∈ ledger.pending ∧ task.sealHash = hash :=
  ⟨List.mem_of_find?_eq_some h, by simpa using List.find?_some h⟩

theorem find?_eq_none {hash : Hash} (h : ∀ task ∈ ledger.pending, task.sealHash ≠ hash) :
    ledger.find? hash = none := by
  apply List.find?_eq_none.mpr
  intro task ht
  simpa using h task ht

theorem find?_eq_some
    (alone : ∀ other ∈ ledger.pending, other.sealHash = task.sealHash → other = task)
    (h : task ∈ ledger.pending) : ledger.find? task.sealHash = some task := by
  cases found : ledger.find? task.sealHash with
  | none =>
    have none := List.find?_eq_none.mp found task h
    simp at none
  | some other =>
    obtain ⟨there, same⟩ := mem_of_find? found
    rw [alone other there same]

/-! ## Judging a submission -/

/-- Only the current task and the one found under the hash matter. -/
theorem judge_congr (current : ledger.current = ledger'.current)
    (found : ledger.find? s.hash = ledger'.find? s.hash) :
    ledger.judge threshold verifier s = ledger'.judge threshold verifier s := by
  unfold judge
  rw [current, found]

theorem judge_unknown (h : ledger.find? s.hash = none) :
    ledger.judge threshold verifier s = .error (.unknownWork s.hash.text) := by
  unfold judge
  split
  · next found =>
    rw [h] at found
    cases found
  · rfl

theorem judge_outdated (h : ledger.find? s.hash = some task)
    (old : ledger.Outdated threshold task) :
    ∃ error, ledger.judge threshold verifier s = .error error ∧
      (verifier task s.nonce s.mixDigest = .error error ∨
        ∃ number current, error = .staleWork number current) := by
  obtain ⟨current, now, behind⟩ := old
  simp only [judge, now, h]
  cases hv : verifier task s.nonce s.mixDigest with
  | error error => exact ⟨error, rfl, .inl rfl⟩
  | ok =>
    refine ⟨.staleWork task.number current.number, ?_, .inr ⟨_, _, rfl⟩⟩
    simp only [bind, Except.bind, if_pos behind]

theorem judge_recent {current : Task} (now : ledger.current = some current)
    (h : ledger.find? s.hash = some task) (recent : ¬ledger.Outdated threshold task)
    (passes : verifier task s.nonce s.mixDigest = .ok ()) :
    ledger.judge threshold verifier s = .ok task := by
  have ahead : ¬Word.addSat task.number threshold ≤ current.number := by
    intro behind
    exact recent ⟨current, now, behind⟩
  simp only [judge, now, h, passes, bind, Except.bind, if_neg ahead]

end Ledger

/-- The channel of accepted solutions refuses for a reason of its own. -/
theorem Outbox.offer_eq_error {outbox : Outbox} {work : SealedWork} {error : SealingError}
    (h : outbox.offer work = .error error) : ∃ reason, error = .internal reason := by
  unfold offer at h
  split at h
  · exact ⟨_, (Except.error.inj h).symm⟩
  · split at h
    · exact ⟨_, (Except.error.inj h).symm⟩
    · cases h

namespace Sequential

variable {q : Sequential}

def after (q : Sequential) (operations : List Operation) : Sequential :=
  operations.foldl (fun q operation => (q.apply operation).2) q

theorem after_append (q : Sequential) (front back : List Operation) :
    q.after (front ++ back) = (q.after front).after back :=
  List.foldl_append

theorem after_cons (q : Sequential) (operation : Operation) (rest : List Operation) :
    q.after (operation :: rest) = (q.apply operation).2.after rest := rfl

theorem apply_tasks (q : Sequential) (operation : Operation) :
    (∃ task, operation = .push task ∧ (q.apply operation).2.ledger = q.ledger.push task) ∨
      (∃ now, operation = .cleanup now ∧
        (q.apply operation).2.ledger = q.ledger.cleanup q.settings now) ∨
      ((q.apply operation).2.ledger.current = q.ledger.current ∧
        (q.apply operation).2.ledger.pending = q.ledger.pending) := by
  cases operation with
  | push task => exact .inl ⟨task, rfl, rfl⟩
  | cleanup now => exact .inr (.inl ⟨now, rfl, rfl⟩)
  | serve now message =>
    cases message with
    | submission s =>
      simp only [apply]
      split <;> exact .inr (.inr ⟨rfl, rfl⟩)
    | _ => exact .inr (.inr ⟨rfl, rfl⟩)
  | receive =>
    simp only [apply]
    split <;> exact .inr (.inr ⟨rfl, rfl⟩)
  | readHashrate | abandon => exact .inr (.inr ⟨rfl, rfl⟩)

theorem apply_constant (q : Sequential) (operation : Operation) :
    (q.apply operation).2.settings = q.settings ∧ (q.apply operation).2.verifier = q.verifier := by
  cases operation with
  | serve now message =>
    cases message with
    | submission s =>
      simp only [apply]
      split <;> exact ⟨rfl, rfl⟩
    | _ => exact ⟨rfl, rfl⟩
  | receive =>
    simp only [apply]
    split <;> exact ⟨rfl, rfl⟩
  | _ => exact ⟨rfl, rfl⟩

theorem after_constant (q : Sequential) (operations : List Operation) :
    (q.after operations).settings = q.settings ∧ (q.after operations).verifier = q.verifier := by
  induction operations generalizing q with
  | nil => exact ⟨rfl, rfl⟩
  | cons operation rest ih =>
    obtain ⟨settings, verifier⟩ := ih (q.apply operation).2
    obtain ⟨settings', verifier'⟩ := q.apply_constant operation
    exact ⟨settings.trans settings', verifier.trans verifier'⟩

/-- A submission that is refused, by judgement or by the channel, changes nothing. -/
theorem apply_refused {now : Nat} {s : Submission} {error : SealingError}
    (h : q.ledger.submit q.settings.staleThreshold q.verifier q.outbox s = .error error) :
    q.apply (.serve now (.submission s)) = (.reply (.verdict (.error error)), q) := by
  simp only [apply, h]

theorem apply_accepted {now : Nat} {s : Submission} {outbox : Outbox}
    (h : q.ledger.submit q.settings.staleThreshold q.verifier q.outbox s = .ok outbox) :
    q.apply (.serve now (.submission s)) = (.reply (.verdict (.ok ())), { q with outbox }) := by
  simp only [apply, h]

end Sequential

theorem Ledger.submit_of_judge_error {ledger : Ledger} {threshold : UInt64} {verifier : Verifier}
    {outbox : Outbox} {s : Submission} {error : SealingError}
    (h : ledger.judge threshold verifier s = .error error) :
    ledger.submit threshold verifier outbox s = .error error := by
  simp only [submit, h, bind, Except.bind]

theorem Ledger.submit_of_judge_ok {ledger : Ledger} {threshold : UInt64} {verifier : Verifier}
    {outbox : Outbox} {s : Submission} {task : Task}
    (h : ledger.judge threshold verifier s = .ok task) :
    ledger.submit threshold verifier outbox s = outbox.offer (task.sealedBy s) := by
  simp only [submit, h, bind, Except.bind]

end MinerGateway
