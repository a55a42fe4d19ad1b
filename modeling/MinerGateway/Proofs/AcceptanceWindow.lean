import MinerGateway.Proofs.Pending

/-!
The acceptance window of a task.

A task is acceptable as long as every task pushed after it has a number less than `staleThreshold`
above its own. Two questions decide about it, one at each cleanup and one at each submission, and
the current task may change between them in either direction. What carries the promise over a whole
history is `InWindow`: the task is pending and the current task lies within its window. That nothing
is accepted for it once the window has closed rests on `Alone`: nobody else has its hash.

What is proved (`acceptance_window`), after every history in which the task was pushed and nothing
was pushed under its hash later:
  1. while every later number lies less than `staleThreshold` above its own, the task is pending,
     and a solution that the verifier passes is refused at most by the channel of results;
  2. whenever the current number lies so far above it, every solution for it is refused and the
     worker stays as it was, whatever was pushed in between.

What is assumed: the threshold is at least one, and the number of the task and the threshold have a
sum within 64 bits. What happens without the second is the subject of `staleness_by_numbers`.
-/

namespace MinerGateway

namespace Sequential

variable {q : Sequential} {task : Task}

/-- Under the seal hash of the task nothing is pending but the task itself, if that is. -/
def Alone (q : Sequential) (task : Task) : Prop :=
  ∀ other ∈ q.ledger.pending, other.sealHash = task.sealHash → other = task

/-- The task is pending, and the current task lies within its window. -/
structure InWindow (q : Sequential) (task : Task) : Prop where
  pending : task ∈ q.ledger.pending
  recent : ∃ current, q.ledger.current = some current ∧
    current.number.toNat < task.number.toNat + q.settings.staleThreshold.toNat

theorem outdated_iff {ledger : Ledger} {threshold : UInt64}
    (fits : task.number.toNat + threshold.toNat < UInt64.size) :
    ledger.Outdated threshold task ↔
      ∃ current, ledger.current = some current ∧
        task.number.toNat + threshold.toNat ≤ current.number.toNat := by
  have sum : (Word.addSat task.number threshold).toNat = task.number.toNat + threshold.toNat := by
    rw [Word.toNat_addSat]
    omega
  simp only [Ledger.Outdated, UInt64.le_iff_toNat_le, sum]

theorem InWindow.not_outdated (h : q.InWindow task)
    (fits : task.number.toNat + q.settings.staleThreshold.toNat < UInt64.size) :
    ¬q.ledger.Outdated q.settings.staleThreshold task := by
  intro old
  obtain ⟨current, now, behind⟩ := (outdated_iff fits).mp old
  obtain ⟨current', now', within⟩ := h.recent
  obtain rfl := Option.some.inj (now.symm.trans now')
  omega

/-! ## One operation -/

theorem Alone.apply (h : q.Alone task) {operation : Operation}
    (elsewhere : ∀ other, operation = .push other → other.sealHash ≠ task.sealHash) :
    (q.apply operation).2.Alone task := by
  intro other pending same
  rcases q.apply_tasks operation with ⟨pushed, rfl, ledger⟩ | ⟨now, rfl, ledger⟩ | ⟨-, kept⟩
  · rw [ledger, Ledger.mem_pending_push] at pending
    rcases pending with rfl | ⟨pending, -⟩
    · exact absurd same (elsewhere other rfl)
    · exact h other pending same
  · rw [ledger, Ledger.mem_pending_cleanup] at pending
    exact h other pending.1 same
  · rw [kept] at pending
    exact h other pending same

theorem InWindow.apply (h : q.InWindow task)
    (fits : task.number.toNat + q.settings.staleThreshold.toNat < UInt64.size)
    {operation : Operation}
    (elsewhere : ∀ other, operation = .push other → other.sealHash ≠ task.sealHash)
    (within : ∀ other, operation = .push other →
      other.number.toNat < task.number.toNat + q.settings.staleThreshold.toNat) :
    (q.apply operation).2.InWindow task := by
  obtain ⟨current, now, recent⟩ := h.recent
  rcases q.apply_tasks operation with ⟨pushed, rfl, ledger⟩ | ⟨time, rfl, ledger⟩ | ⟨same, kept⟩
  · constructor
    · rw [ledger, Ledger.mem_pending_push]
      exact .inr ⟨h.pending, (elsewhere pushed rfl).symm⟩
    · exact ⟨pushed, rfl, within pushed rfl⟩
  · -- A cleanup would take an outdated task away, but this one is within its window.
    constructor
    · rw [ledger, Ledger.mem_pending_cleanup]
      exact ⟨h.pending, h.not_outdated fits⟩
    · rw [ledger, Ledger.current_cleanup]
      exact ⟨current, now, recent⟩
  · constructor
    · rw [kept]
      exact h.pending
    · rw [same, (q.apply_constant operation).1]
      exact ⟨current, now, recent⟩

/-! ## A whole history -/

theorem Alone.after (h : q.Alone task) {late : List Operation}
    (elsewhere : ∀ other, .push other ∈ late → other.sealHash ≠ task.sealHash) :
    (q.after late).Alone task := by
  induction late generalizing q with
  | nil => exact h
  | cons operation rest ih =>
    apply ih
    · apply h.apply
      rintro other rfl
      exact elsewhere other List.mem_cons_self
    · intro other later
      exact elsewhere other (List.mem_cons_of_mem _ later)

theorem InWindow.after (h : q.InWindow task)
    (fits : task.number.toNat + q.settings.staleThreshold.toNat < UInt64.size)
    {late : List Operation}
    (elsewhere : ∀ other, .push other ∈ late → other.sealHash ≠ task.sealHash)
    (within : ∀ other, .push other ∈ late →
      other.number.toNat < task.number.toNat + q.settings.staleThreshold.toNat) :
    (q.after late).InWindow task := by
  induction late generalizing q with
  | nil => exact h
  | cons operation rest ih =>
    have settings := (q.apply_constant operation).1
    apply ih
    · apply h.apply fits
      · rintro other rfl
        exact elsewhere other List.mem_cons_self
      · rintro other rfl
        exact within other List.mem_cons_self
    · rw [settings]
      exact fits
    · intro other later
      exact elsewhere other (List.mem_cons_of_mem _ later)
    · intro other later
      rw [settings]
      exact within other (List.mem_cons_of_mem _ later)

theorem alone_push (q : Sequential) (task : Task) : (q.apply (.push task)).2.Alone task := by
  intro other pending same
  rcases Ledger.mem_pending_push.mp pending with rfl | ⟨-, apart⟩
  · rfl
  · exact absurd same apart

theorem inWindow_push (q : Sequential) (task : Task) (threshold : 1 ≤ q.settings.staleThreshold) :
    (q.apply (.push task)).2.InWindow task := by
  have pos : 1 ≤ q.settings.staleThreshold.toNat := UInt64.le_iff_toNat_le.mp threshold
  refine ⟨Ledger.mem_pending_push.mpr (.inl rfl), task, rfl, ?_⟩
  show task.number.toNat < task.number.toNat + q.settings.staleThreshold.toNat
  omega

/-! ## Submissions -/

/-- Within its window, a solution that the verifier passes fails only at the channel. -/
theorem InWindow.verdict (h : q.InWindow task) (alone : q.Alone task)
    (fits : task.number.toNat + q.settings.staleThreshold.toNat < UInt64.size) (now : Nat)
    {s : Submission} (hash : s.hash = task.sealHash)
    (passes : q.verifier task s.nonce s.mixDigest = .ok ()) :
    ∃ verdict, (q.apply (.serve now (.submission s))).1 = .reply (.verdict verdict) ∧
      ∀ error, verdict = .error error → ∃ reason, error = .internal reason := by
  obtain ⟨current, there, -⟩ := h.recent
  have found : q.ledger.find? s.hash = some task := by
    rw [hash]
    exact Ledger.find?_eq_some alone h.pending
  have submitted : q.ledger.submit q.settings.staleThreshold q.verifier q.outbox s
      = q.outbox.offer (task.sealedBy s) :=
    Ledger.submit_of_judge_ok (Ledger.judge_recent there found (h.not_outdated fits) passes)
  cases offered : q.outbox.offer (task.sealedBy s) with
  | ok outbox =>
    rw [offered] at submitted
    exact ⟨.ok (), congrArg Prod.fst (apply_accepted submitted), by simp⟩
  | error error =>
    rw [offered] at submitted
    refine ⟨.error error, congrArg Prod.fst (apply_refused submitted), ?_⟩
    rintro _ ⟨⟩
    exact Outbox.offer_eq_error offered

/-- Once a task is outdated, every solution for it is refused and leaves no trace. -/
theorem Alone.refused (alone : q.Alone task)
    (old : q.ledger.Outdated q.settings.staleThreshold task) (now : Nat) {s : Submission}
    (hash : s.hash = task.sealHash) :
    ∃ error, q.apply (.serve now (.submission s)) = (.reply (.verdict (.error error)), q) := by
  have judged : ∃ error,
      q.ledger.judge q.settings.staleThreshold q.verifier s = .error error := by
    -- A cleanup may have taken the task away already; then it is unknown.
    by_cases pending : task ∈ q.ledger.pending
    · have found : q.ledger.find? s.hash = some task := by
        rw [hash]
        exact Ledger.find?_eq_some alone pending
      obtain ⟨error, judged, -⟩ := Ledger.judge_outdated found old
      exact ⟨error, judged⟩
    · refine ⟨_, Ledger.judge_unknown (Ledger.find?_eq_none ?_)⟩
      intro other there same
      rw [hash] at same
      exact pending (alone other there same ▸ there)
  obtain ⟨error, judged⟩ := judged
  exact ⟨error, apply_refused (Ledger.submit_of_judge_error judged)⟩

/-- **The acceptance window is kept over every history.** A task is pushed somewhere in a history of
the worker, and later nothing else under its hash. As long as no later task lies `staleThreshold` or
more above it, it is pending, and a solution that the verifier passes is refused neither as unknown
nor as stale; whenever the current task does lie so far above it, every solution for it is refused
and leaves the worker as it is. -/
theorem acceptance_window (settings : EngineSettings) (verifier : Verifier)
    (early late : List Operation) (task : Task) (threshold : 1 ≤ settings.staleThreshold)
    (fits : task.number.toNat + settings.staleThreshold.toNat < UInt64.size)
    (elsewhere : ∀ other, .push other ∈ late → other.sealHash ≠ task.sealHash) :
    let q := (start settings verifier).after (early ++ .push task :: late)
    ((∀ other, .push other ∈ late →
        other.number.toNat < task.number.toNat + settings.staleThreshold.toNat) →
      q.ledger.find? task.sealHash = some task ∧
        ∀ now (s : Submission), s.hash = task.sealHash →
          verifier task s.nonce s.mixDigest = .ok () →
          ∃ verdict, (q.apply (.serve now (.submission s))).1 = .reply (.verdict verdict) ∧
            (∀ hash, verdict ≠ .error (.unknownWork hash)) ∧
            ∀ number current, verdict ≠ .error (.staleWork number current)) ∧
      ∀ current, q.ledger.current = some current →
        task.number.toNat + settings.staleThreshold.toNat ≤ current.number.toNat →
        ∀ now (s : Submission), s.hash = task.sealHash →
          ∃ error, q.apply (.serve now (.submission s))
            = (.reply (.verdict (.error error)), q) := by
  intro q
  have split : q = (((start settings verifier).after early).apply (.push task)).2.after late := by
    rw [← after_cons, ← after_append]
  obtain ⟨hsettings, hverifier⟩ := (start settings verifier).after_constant early
  have same : q.settings = settings := (after_constant _ _).1
  have alone : q.Alone task := by
    rw [split]
    exact (alone_push _ task).after elsewhere
  constructor
  · intro within
    have window : q.InWindow task := by
      rw [split]
      apply (inWindow_push _ task (hsettings ▸ threshold)).after
      · exact hsettings ▸ fits
      · exact elsewhere
      · exact hsettings ▸ within
    refine ⟨Ledger.find?_eq_some alone window.pending, ?_⟩
    intro now s hash passes
    have passes' : q.verifier task s.nonce s.mixDigest = .ok () := by
      rw [show q.verifier = verifier from (after_constant _ _).2]
      exact passes
    obtain ⟨verdict, told, only⟩ := window.verdict alone (same.symm ▸ fits) now hash passes'
    refine ⟨verdict, told, ?_, ?_⟩
    · intro hash refused
      obtain ⟨reason, internal⟩ := only _ refused
      cases internal
    · intro number current refused
      obtain ⟨reason, internal⟩ := only _ refused
      cases internal
  · intro current now behind time s hash
    have old : q.ledger.Outdated q.settings.staleThreshold task := by
      rw [same]
      exact (outdated_iff fits).mpr ⟨current, now, behind⟩
    exact alone.refused old time hash

/-- A task numbered 5 outlives two cleanups while the current number is at most 11; with 12 its
window has closed. -/
theorem acceptance_window_closes :
    let task : Task := ⟨.filled 32 1, 5, .empty⟩
    let late : List Operation := [.cleanup 5000, .push ⟨.filled 32 2, 11, .empty⟩, .cleanup 10000]
    let q := (start {} .acceptAll).after (.push task :: late)
    let q' := (start {} .acceptAll).after (.push task :: late ++ [.push ⟨.filled 32 3, 12, .empty⟩])
    let s : Submission := ⟨.filled 8 1, task.sealHash, .filled 32 1, none⟩
    q.ledger.find? task.sealHash = some task ∧
      ∃ error, q'.apply (.serve 10000 (.submission s))
        = (.reply (.verdict (.error error)), q') := by
  intro task late q q' s
  have open' := acceptance_window {} .acceptAll [] late task (by decide) (by decide) (by
    intro other pushed
    obtain rfl : other = ⟨.filled 32 2, 11, .empty⟩ := by simpa [late] using pushed
    decide)
  have closed := acceptance_window {} .acceptAll []
      (late ++ [.push ⟨.filled 32 3, 12, .empty⟩]) task
    (by decide) (by decide) (by
      intro other pushed
      rcases (by simpa [late] using pushed :
        other = ⟨.filled 32 2, 11, .empty⟩ ∨ other = ⟨.filled 32 3, 12, .empty⟩) with rfl | rfl
      · decide
      · decide)
  constructor
  · refine (open'.1 ?_).1
    intro other pushed
    obtain rfl : other = ⟨.filled 32 2, 11, .empty⟩ := by simpa [late] using pushed
    decide
  · exact closed.2 ⟨.filled 32 3, 12, .empty⟩ rfl (by decide) 10000 s rfl

end Sequential

end MinerGateway
