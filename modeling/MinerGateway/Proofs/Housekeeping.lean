import MinerGateway.Proofs.Pending

/-!
Housekeeping does not show in what is accepted.

Two runs of the worker see the same pushes, submissions and receipts, and are cleaned up at
different points. Both are compared with one run that is never cleaned up: `Thins` says that a state
is that run's with some outdated tasks taken away. Each operation keeps it, because numbers that
never fall leave an outdated task outdated, and a submission is then answered alike, or its task was
forgotten and would have been refused (`Thins.deal`). So two runs give the same answers except that
a refused solution may be for an unknown task in one of them (`housekeeping_invisible`).

A verifier may refuse with any error, also with one that reads like the channel's own. Whether such
an error is told does depend on housekeeping (`internal_error_forgotten`).

Correspondence (two runs ↔ definition):
  what both runs are asked, in the same order  ↔ `Dealing`, `dealings`
  the same answer, or one of two refusals      ↔ `Agrees`
  what comes out on the channel of results     ↔ `emitted`

What is assumed: the numbers that are pushed never fall, and the two runs have the same settings and
the same verifier. When and how often either is cleaned up, asked for work or told rates is free.
-/

namespace MinerGateway

/-- What the source of tasks, the miners who submit, and the consumer do to a sealer. -/
inductive Dealing where
  | push (task : Task)
  | submit (s : Submission)
  | receive
  | abandon

/-- The dealing as an operation; when it happens makes no difference. -/
def Dealing.operation : Dealing → Operation
  | .push task => .push task
  | .submit s => .serve 0 (.submission s)
  | .receive => .receive
  | .abandon => .abandon

def Dealing.task? : Dealing → Option Task
  | .push task => some task
  | _ => none

/-- The dealing that an operation is; housekeeping, fetches and reports are none. -/
def Operation.dealing? : Operation → Option Dealing
  | .push task => some (.push task)
  | .serve _ (.submission s) => some (.submit s)
  | .receive => some .receive
  | .abandon => some .abandon
  | _ => none

@[simp] theorem Dealing.dealing?_operation (d : Dealing) : d.operation.dealing? = some d := by
  cases d <;> rfl

namespace Sequential

/-- The dealings of a run, with what each of them gave. -/
def dealings (q : Sequential) : List Operation → List (Dealing × Operation.Result)
  | [] => []
  | operation :: rest =>
    (operation.dealing?.map fun d => (d, (q.apply operation).1)).toList
      ++ (q.apply operation).2.dealings rest

def emitted (q : Sequential) : List Operation → List SealedWork
  | [] => []
  | operation :: rest =>
    (q.apply operation).2.outbox.queue.drop q.outbox.queue.length
      ++ (q.apply operation).2.emitted rest

/-- The first answer to a solution is that its task is unknown, the second that it is stale, or what
the verifier has against it for a task that was pushed under its hash. -/
def Forgets (verifier : Verifier) (pushed : List Task) (s : Submission)
    (result result' : Operation.Result) : Prop :=
  result = .reply (.verdict (.error (.unknownWork s.hash.text))) ∧
    ∃ error, result' = .reply (.verdict (.error error)) ∧
      ((∃ number current, error = .staleWork number current) ∨
        ∃ task ∈ pushed, task.sealHash = s.hash ∧ verifier task s.nonce s.mixDigest = .error error)

/-! ## A run without housekeeping -/

/-- The one state is the other with some outdated tasks taken away. The tasks of both are among
those that were pushed. -/
structure Thins (pushed : List Task) (thin full : Sequential) : Prop where
  settings : thin.settings = full.settings
  verifier : thin.verifier = full.verifier
  current : thin.ledger.current = full.ledger.current
  outbox : thin.outbox = full.outbox
  onePerHash : full.ledger.OnePerHash
  pushed : ∀ task ∈ full.ledger.pending, task ∈ pushed
  subset : ∀ task ∈ thin.ledger.pending, task ∈ full.ledger.pending
  recent : ∀ task ∈ full.ledger.pending,
    ¬full.ledger.Outdated full.settings.staleThreshold task → task ∈ thin.ledger.pending

namespace Thins

variable {pushed : List Task} {thin full : Sequential}

theorem refl (settings : EngineSettings) (verifier : Verifier) :
    Thins pushed (start settings verifier) (start settings verifier) := by
  refine ⟨rfl, rfl, rfl, rfl, ?_, ?_, fun _ h => h, fun _ h _ => h⟩ <;>
    intro task h <;> cases h

/-- Both find the same task under a hash, or the one that was forgotten is outdated. -/
theorem find? (h : Thins pushed thin full) (hash : Hash) :
    thin.ledger.find? hash = full.ledger.find? hash ∨
      (thin.ledger.find? hash = none ∧ ∃ task, full.ledger.find? hash = some task ∧
        full.ledger.Outdated full.settings.staleThreshold task) := by
  cases found : full.ledger.find? hash with
  | none =>
    refine .inl (Ledger.find?_eq_none ?_)
    intro task there same
    have absent := List.find?_eq_none.mp found task (h.subset task there)
    simp [same] at absent
  | some task =>
    obtain ⟨there, rfl⟩ := Ledger.mem_of_find? found
    have alone : ∀ other ∈ thin.ledger.pending, other.sealHash = task.sealHash → other = task := by
      intro other ho same
      exact h.onePerHash other (h.subset other ho) task there same
    by_cases kept : task ∈ thin.ledger.pending
    · exact .inl (Ledger.find?_eq_some alone kept)
    · refine .inr ⟨Ledger.find?_eq_none ?_, task, rfl, ?_⟩
      · intro other ho same
        exact kept (alone other ho same ▸ ho)
      · by_contra recent
        exact kept (h.recent task there recent)

/-- What is no dealing, housekeeping above all, leaves a state thinner at most. -/
theorem apply (h : Thins pushed thin full) {operation : Operation}
    (aside : operation.dealing? = none) :
    Thins pushed (thin.apply operation).2 full ∧ (thin.apply operation).2.outbox = thin.outbox := by
  have outbox : (thin.apply operation).2.outbox = thin.outbox := by
    cases operation with
    | serve now message =>
      cases message with
      | submission s => cases aside
      | _ => rfl
    | push | receive | abandon => cases aside
    | readHashrate | cleanup => rfl
  obtain ⟨settings, verifier⟩ := thin.apply_constant operation
  refine ⟨?_, outbox⟩
  rcases thin.apply_tasks operation with ⟨task, rfl, -⟩ | ⟨now, rfl, ledger⟩ | ⟨current, pending⟩
  · cases aside
  · refine ⟨settings.trans h.settings, verifier.trans h.verifier, ?_, outbox.trans h.outbox,
      h.onePerHash, h.pushed, ?_, ?_⟩
    · rw [ledger, Ledger.current_cleanup]
      exact h.current
    · intro task there
      rw [ledger, Ledger.mem_pending_cleanup] at there
      exact h.subset task there.1
    · intro task there recent
      rw [ledger, Ledger.mem_pending_cleanup]
      refine ⟨h.recent task there recent, ?_⟩
      rintro ⟨current, now, behind⟩
      exact recent ⟨current, h.current ▸ now, h.settings ▸ behind⟩
  · exact ⟨settings.trans h.settings, verifier.trans h.verifier, current.trans h.current,
      outbox.trans h.outbox, h.onePerHash, h.pushed, pending ▸ h.subset, pending ▸ h.recent⟩

theorem push (h : Thins pushed thin full) {task : Task} (known : task ∈ pushed)
    (rises : ∀ current, full.ledger.current = some current → current.number ≤ task.number) :
    Thins pushed (thin.apply (.push task)).2 (full.apply (.push task)).2 := by
  refine ⟨h.settings, h.verifier, rfl, h.outbox, h.onePerHash.push task, ?_, ?_, ?_⟩
  · intro other there
    rcases Ledger.mem_pending_push.mp there with rfl | ⟨there, -⟩
    · exact known
    · exact h.pushed other there
  · intro other there
    rcases Ledger.mem_pending_push.mp there with rfl | ⟨there, apart⟩
    · exact Ledger.mem_pending_push.mpr (.inl rfl)
    · exact Ledger.mem_pending_push.mpr (.inr ⟨h.subset other there, apart⟩)
  · intro other there recent
    rcases Ledger.mem_pending_push.mp there with rfl | ⟨there, apart⟩
    · exact Ledger.mem_pending_push.mpr (.inl rfl)
    · refine Ledger.mem_pending_push.mpr (.inr ⟨h.recent other there ?_, apart⟩)
      -- What was outdated is so all the more for the higher number.
      rintro ⟨current, now, behind⟩
      exact recent ⟨task, rfl, UInt64.le_trans behind (rises current now)⟩

theorem withOutbox (h : Thins pushed thin full) (outbox : Outbox) :
    Thins pushed { thin with outbox } { full with outbox } :=
  ⟨h.settings, h.verifier, h.current, rfl, h.onePerHash, h.pushed, h.subset, h.recent⟩

/-- A solution is answered alike, whenever it comes, or its task was forgotten. -/
theorem submit (h : Thins pushed thin full) (now now' : Nat) (s : Submission) :
    Thins pushed (thin.apply (.serve now (.submission s))).2
        (full.apply (.serve now' (.submission s))).2 ∧
      ((thin.apply (.serve now (.submission s))).1 = (full.apply (.serve now' (.submission s))).1 ∨
        Forgets full.verifier pushed s (thin.apply (.serve now (.submission s))).1
          (full.apply (.serve now' (.submission s))).1) := by
  rcases h.find? s.hash with same | ⟨gone, task, found, old⟩
  · have submitted : thin.ledger.submit thin.settings.staleThreshold thin.verifier thin.outbox s
        = full.ledger.submit full.settings.staleThreshold full.verifier full.outbox s := by
      rw [Ledger.submit, Ledger.submit, Ledger.judge_congr h.current same, h.settings, h.verifier,
        h.outbox]
    cases given : full.ledger.submit full.settings.staleThreshold full.verifier full.outbox s with
    | ok outbox =>
      rw [apply_accepted given, apply_accepted (submitted.trans given)]
      exact ⟨h.withOutbox outbox, .inl rfl⟩
    | error error =>
      rw [apply_refused given, apply_refused (submitted.trans given)]
      exact ⟨h, .inl rfl⟩
  · obtain ⟨there, hash⟩ := Ledger.mem_of_find? found
    obtain ⟨error, judged, reason⟩ := Ledger.judge_outdated found old
    rw [apply_refused (Ledger.submit_of_judge_error judged),
      apply_refused (Ledger.submit_of_judge_error (Ledger.judge_unknown gone))]
    refine ⟨h, .inr ⟨rfl, error, rfl, ?_⟩⟩
    rcases reason with verifier | stale
    · exact .inr ⟨task, h.pushed task there, hash, verifier⟩
    · exact .inl stale

/-- **A dealing gives the same, or its task was forgotten**, and the states still differ in outdated
tasks only. -/
theorem deal (h : Thins pushed thin full) {operation : Operation} {d : Dealing}
    (is : operation.dealing? = some d)
    (rises : ∀ task, d.task? = some task → task ∈ pushed ∧
      ∀ current, full.ledger.current = some current → current.number ≤ task.number) :
    Thins pushed (thin.apply operation).2 (full.apply d.operation).2 ∧
      ((thin.apply operation).1 = (full.apply d.operation).1 ∨ ∃ s, d = .submit s ∧
        Forgets full.verifier pushed s (thin.apply operation).1 (full.apply d.operation).1) := by
  cases operation with
  | push task =>
    obtain rfl := Option.some.inj is
    obtain ⟨known, rises⟩ := rises task rfl
    exact ⟨h.push known rises, .inl rfl⟩
  | serve now message =>
    cases message with
    | submission s =>
      obtain rfl := Option.some.inj is
      obtain ⟨next, same | forgets⟩ := h.submit now 0 s
      · exact ⟨next, .inl same⟩
      · exact ⟨next, .inr ⟨s, rfl, forgets⟩⟩
    | fetch | report => cases is
  | receive =>
    obtain rfl := Option.some.inj is
    simp only [Dealing.operation, Sequential.apply, h.outbox]
    cases full.outbox.receive with
    | none => exact ⟨h, .inl rfl⟩
    | some received => exact ⟨h.withOutbox received.2, .inl rfl⟩
  | abandon =>
    obtain rfl := Option.some.inj is
    refine ⟨?_, .inl rfl⟩
    simp only [Dealing.operation, Sequential.apply, h.outbox]
    exact h.withOutbox _
  | readHashrate | cleanup => cases is

end Thins

/-- The tasks still to be pushed are known, and their numbers never fall, from the current one on.
-/
structure Rising (pushed : List Task) (full : Sequential) (deals : List Dealing) : Prop where
  known : ∀ task ∈ deals.filterMap Dealing.task?, task ∈ pushed
  pairwise : (deals.filterMap Dealing.task?).Pairwise (·.number ≤ ·.number)
  above : ∀ task ∈ deals.filterMap Dealing.task?,
    ∀ current, full.ledger.current = some current → current.number ≤ task.number

namespace Rising

variable {pushed : List Task} {full : Sequential} {d : Dealing} {rest : List Dealing}

theorem head (h : Rising pushed full (d :: rest)) (task : Task) (hd : d.task? = some task) :
    task ∈ pushed ∧ ∀ current, full.ledger.current = some current →
    current.number ≤ task.number := by
  have there : task ∈ (d :: rest).filterMap Dealing.task? := by simp [hd]
  exact ⟨h.known task there, h.above task there⟩

theorem tail (h : Rising pushed full (d :: rest)) :
    Rising pushed (full.apply d.operation).2 rest := by
  obtain ⟨known, pairwise, above⟩ := h
  cases hd : d.task? with
  | none =>
    rw [List.filterMap_cons_none hd] at known pairwise above
    -- Only a push changes the current task.
    have same : (full.apply d.operation).2.ledger.current = full.ledger.current := by
      rcases full.apply_tasks d.operation with ⟨_, push, -⟩ | ⟨_, cleanup, -⟩ | ⟨same, -⟩
      · cases d <;> cases push
        cases hd
      · cases d <;> cases cleanup
      · exact same
    exact ⟨known, pairwise, same ▸ above⟩
  | some task =>
    rw [List.filterMap_cons_some hd] at known pairwise
    obtain rfl : d = .push task := by
      cases d <;> cases hd
      rfl
    obtain ⟨first, pairwise⟩ := List.pairwise_cons.mp pairwise
    refine ⟨fun other there => known other (List.mem_cons_of_mem _ there), pairwise, ?_⟩
    intro other there current now
    obtain rfl : task = current := Option.some.inj now
    exact first other there

end Rising

/-- The same dealing in two runs, answered alike unless its task was forgotten in the first. -/
def Remembers (verifier : Verifier) (pushed : List Task)
    (a b : Dealing × Operation.Result) : Prop :=
  a.1 = b.1 ∧ (a.2 = b.2 ∨ ∃ s, a.1 = .submit s ∧ Forgets verifier pushed s a.2 b.2)

/-- **A whole run gives what it would give without housekeeping**, but for tasks forgotten. -/
theorem Thins.run {pushed : List Task} {thin full : Sequential} (h : Thins pushed thin full)
    (operations : List Operation)
    (rising : Rising pushed full (operations.filterMap Operation.dealing?)) :
    let alone := (operations.filterMap Operation.dealing?).map Dealing.operation
    List.Forall₂ (Remembers full.verifier pushed) (thin.dealings operations) (full.dealings alone) ∧
      thin.emitted operations = full.emitted alone := by
  -- On the operations of the run; the run without housekeeping takes a step at dealings only.
  induction operations generalizing thin full with
  | nil => exact ⟨.nil, rfl⟩
  | cons operation rest ih =>
    cases is : operation.dealing? with
    | none =>
      rw [List.filterMap_cons_none is] at rising ⊢
      obtain ⟨next, outbox⟩ := h.apply is
      obtain ⟨answers, emissions⟩ := ih next rising
      simp only [dealings, emitted, is, outbox, List.drop_length]
      exact ⟨answers, emissions⟩
    | some d =>
      rw [List.filterMap_cons_some is] at rising ⊢
      obtain ⟨next, given⟩ := h.deal is rising.head
      obtain ⟨answers, emissions⟩ := ih next rising.tail
      rw [(full.apply_constant d.operation).2] at answers
      simp only [dealings, emitted, List.map_cons, is, Dealing.dealing?_operation, Option.map_some,
        Option.toList_some, List.singleton_append]
      refine ⟨.cons ⟨rfl, given⟩ answers, ?_⟩
      rw [emissions, h.outbox, next.outbox]

/-! ## Two runs -/

/-- What two runs with the same dealings answer to one of them. -/
structure Agrees (verifier : Verifier) (pushed : List Task) (a b : Dealing × Operation.Result) :
    Prop where
  dealing : a.1 = b.1
  /-- The answers are the same, or in one of the runs the task was forgotten. -/
  result : a.2 = b.2 ∨ ∃ s, a.1 = .submit s ∧
    (Forgets verifier pushed s a.2 b.2 ∨ Forgets verifier pushed s b.2 a.2)
  accepted : a.2 = .reply (.verdict (.ok ())) ↔ b.2 = .reply (.verdict (.ok ()))
  /-- An internal error is told in both, unless it is the verifier's own. -/
  internal : ∀ s reason, a.1 = .submit s →
    (∀ task ∈ pushed, task.sealHash = s.hash →
      verifier task s.nonce s.mixDigest ≠ .error (.internal reason)) →
    (a.2 = .reply (.verdict (.error (.internal reason))) ↔
      b.2 = .reply (.verdict (.error (.internal reason))))

namespace Agrees

variable {verifier : Verifier} {pushed : List Task} {a b c : Dealing × Operation.Result}

theorem of_eq (h : a = b) : Agrees verifier pushed a b := by
  subst h
  exact ⟨rfl, .inl rfl, .rfl, fun _ _ _ _ => .rfl⟩

theorem symm (h : Agrees verifier pushed a b) : Agrees verifier pushed b a := by
  refine ⟨h.dealing.symm, ?_, h.accepted.symm, ?_⟩
  · rcases h.result with same | ⟨s, hs, forgets⟩
    · exact .inl same.symm
    · exact .inr ⟨s, h.dealing ▸ hs, forgets.symm⟩
  · intro s reason hs own
    exact (h.internal s reason (h.dealing.trans hs) own).symm

/-- A forgotten task was refused in the other run too, and not by the channel. -/
theorem of_forgets {s : Submission} (same : a.1 = b.1) (hs : a.1 = .submit s)
    (h : Forgets verifier pushed s a.2 b.2) : Agrees verifier pushed a b := by
  obtain ⟨unknown, error, other, reason⟩ := id h
  refine ⟨same, .inr ⟨s, hs, .inl h⟩, ?_, ?_⟩
  · rw [unknown, other]
    simp
  · intro s' text hs' own
    obtain rfl := Dealing.submit.inj (hs.symm.trans hs')
    rw [unknown, other]
    constructor
    · intro told
      cases told
    · intro told
      obtain rfl : error = .internal text := by simpa using told
      rcases reason with ⟨_, _, stale⟩ | ⟨task, there, hash, refused⟩
      · cases stale
      · exact absurd refused (own task there hash)

theorem of_remembers (h : Remembers verifier pushed a c) (h' : Remembers verifier pushed b c) :
    Agrees verifier pushed a b := by
  obtain ⟨dealing, result⟩ := h
  obtain ⟨dealing', result'⟩ := h'
  have same : a.1 = b.1 := dealing.trans dealing'.symm
  rcases result with result | ⟨s, hs, forgets⟩
  · rcases result' with result' | ⟨s, hs, forgets⟩
    · exact of_eq (Prod.ext same (result.trans result'.symm))
    · exact (of_forgets same.symm hs (result ▸ forgets)).symm
  · rcases result' with result' | ⟨s', hs', forgets'⟩
    · exact of_forgets same hs (result' ▸ forgets)
    · obtain rfl := Dealing.submit.inj (hs.symm.trans (same.trans hs'))
      exact of_eq (Prod.ext same (forgets.1.trans forgets'.1.symm))

theorem forall₂_of_remembers {l l' m : List (Dealing × Operation.Result)}
    (h : List.Forall₂ (Remembers verifier pushed) l m)
    (h' : List.Forall₂ (Remembers verifier pushed) l' m) :
    List.Forall₂ (Agrees verifier pushed) l l' := by
  induction h generalizing l' with
  | nil =>
    cases h'
    exact .nil
  | cons first _ ih =>
    cases h' with
    | cons first' rest' => exact .cons (of_remembers first first') (ih rest')

end Agrees

/-- **Housekeeping does not show in what is accepted.** Two runs with the same pushes, of numbers
that never fall, the same submissions and the same receipts accept the same solutions and emit the
same work, wherever they are cleaned up. A refused solution may be for an unknown task in the one
and refused for its age or by the verifier in the other; any other answer is the same, and so is an
internal error that is not the verifier's own. -/
theorem housekeeping_invisible (settings : EngineSettings) (verifier : Verifier)
    (operations operations' : List Operation) (deals : List Dealing)
    (same : operations.filterMap Operation.dealing? = deals)
    (same' : operations'.filterMap Operation.dealing? = deals)
    (rising : (deals.filterMap Dealing.task?).Pairwise (·.number ≤ ·.number)) :
    let q := start settings verifier
    List.Forall₂ (Agrees verifier (deals.filterMap Dealing.task?))
        (q.dealings operations) (q.dealings operations') ∧
      q.emitted operations = q.emitted operations' := by
  intro q
  have thins : Thins (deals.filterMap Dealing.task?) q q := .refl settings verifier
  have ahead : Rising (deals.filterMap Dealing.task?) q deals := by
    refine ⟨fun _ there => there, rising, ?_⟩
    intro task _ current now
    cases now
  obtain ⟨answers, emissions⟩ := thins.run operations (same.symm ▸ ahead)
  obtain ⟨answers', emissions'⟩ := thins.run operations' (same'.symm ▸ ahead)
  rw [same] at answers emissions
  rw [same'] at answers' emissions'
  exact ⟨Agrees.forall₂_of_remembers answers answers', emissions.trans emissions'.symm⟩

/-- One run is cleaned up before a solution for the first of two tasks comes, the other never. Both
emit the solution for the second. -/
theorem housekeeping_invisible_outdated :
    let task : Task := ⟨.filled 32 1, 1, .empty⟩
    let next : Task := ⟨.filled 32 2, 100, .empty⟩
    let late : Submission := ⟨.filled 8 7, task.sealHash, .filled 32 3, none⟩
    let good : Submission := ⟨.filled 8 7, next.sealHash, .filled 32 3, none⟩
    let q := start {} .acceptAll
    q.emitted [.push task, .push next, .cleanup 5000, .serve 5000 (.submission late),
        .serve 5001 (.submission good), .cleanup 10000, .receive]
      = [⟨next.sealHash, 100, .filled 8 7, .filled 32 3, none⟩] := by
  intro task next late good q
  have invisible := housekeeping_invisible {} .acceptAll
    [.push task, .push next, .cleanup 5000, .serve 5000 (.submission late),
      .serve 5001 (.submission good), .cleanup 10000, .receive]
    [.push task, .push next, .serve 0 (.submission late), .serve 0 (.submission good), .receive]
    [.push task, .push next, .submit late, .submit good, .receive] rfl rfl (by decide)
  have alone : q.emitted
      [.push task, .push next, .serve 0 (.submission late), .serve 0 (.submission good), .receive]
      = [⟨next.sealHash, 100, .filled 8 7, .filled 32 3, none⟩] := by decide +kernel
  exact invisible.2.trans alone

/-- That an internal error is told in both runs fails for a verifier's own: it finds fault with the
task of a solution as long as the task is there. -/
theorem internal_error_forgotten :
    ¬∀ (settings : EngineSettings) (verifier : Verifier) (operations operations' : List Operation)
      (deals : List Dealing), operations.filterMap Operation.dealing? = deals →
      operations'.filterMap Operation.dealing? = deals →
      (deals.filterMap Dealing.task?).Pairwise (·.number ≤ ·.number) →
      List.Forall₂
        (fun a b => ∀ s reason, a.1 = .submit s →
          (a.2 = .reply (.verdict (.error (.internal reason))) ↔
            b.2 = .reply (.verdict (.error (.internal reason)))))
        ((start settings verifier).dealings operations)
        ((start settings verifier).dealings operations') := by
  intro claim
  let task : Task := ⟨.filled 32 1, 1, .empty⟩
  let next : Task := ⟨.filled 32 2, 100, .empty⟩
  let s : Submission := ⟨.filled 8 7, task.sealHash, .filled 32 3, none⟩
  have both := claim {} (.failWith (.internal "boom"))
    [.push task, .push next, .serve 0 (.submission s)]
    [.push task, .push next, .cleanup 5000, .serve 5000 (.submission s)]
    [.push task, .push next, .submit s] rfl rfl (by decide)
  rcases both with _ | ⟨-, _ | ⟨-, _ | ⟨iff, -⟩⟩⟩
  have told := (iff s "boom" rfl).mp rfl
  cases told

end Sequential

end MinerGateway
