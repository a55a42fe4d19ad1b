import MinerGateway.Proofs.Separation

/-!
Work, submissions and reports do not interfere.

To one kind of message, a session is its essence: the actions that concern the kind, and where the
gateway settles between them (`after_essence`). Two sessions with the same essence give everyone who
asks for this kind of thing the same answers, whatever else is done in them (`no_interference`).

What is proved, for two sessions on sealers with the same settings and the same verifier:
  1. if they agree on pushes, fetches, sleeps and closings, those who ask for work are told the same
     and the same pushes are refused, whatever was submitted and reported;
  2. if they agree on pushes, submissions, receipts, sleeps and closings, those who submit are told
     the same and the same solutions come out, whatever was fetched and reported;
  3. if they agree on reports, sleeps and closings, the same rate is shown, whatever was pushed,
     fetched and submitted.

Correspondence (session ↔ definition):
  an action that can bear on a kind                ↔ `concerns`
  the actions that do, with their settling points  ↔ `essence`
  what of the gateway the kind can see             ↔ `World.only`

What is assumed: nobody goes away, the engine is held throughout and no source of synthetic work is
started. A caller who went away would free room at a time that depends on the other kinds.
-/

namespace MinerGateway

def Action.isReceipt : Action → Bool
  | .receiveResult => true
  | _ => false

def Engine.outbox? : Engine → Option Outbox
  | .sealer s => some s.outbox
  | _ => none

/-- Until the next action that concerns this kind, all actions are held back. -/
def isLull (kind : Kind) : List (Bool × Action) → Bool
  | [] => true
  | (hold, action) :: rest => action.concerns kind || (hold && isLull kind rest)

/-- What a session is to one kind of message: the actions that concern it, each held back unless the
gateway settles before the next of them. -/
def essence (kind : Kind) : List (Bool × Action) → List (Bool × Action)
  | [] => []
  | (hold, action) :: rest =>
    if action.concerns kind then (hold && isLull kind rest, action) :: essence kind rest
    else essence kind rest

namespace World

variable {w v : World} {kind : Kind} {action : Action}

theorem results_cons (sort : Action → Bool) (w : World) (hold : Bool) (action : Action)
    (rest : List (Bool × Action)) :
    w.results sort ((hold, action) :: rest)
      = if sort action then (w.perform action).1 :: (w.step hold action).2.results sort rest
        else (w.step hold action).2.results sort rest := rfl

/-- The gateway once all has happened that happens before the next action that concerns the kind. -/
def awaited (kind : Kind) (rest : List (Bool × Action)) (w : World) : World :=
  if isLull kind rest then w else w.settle.markReported

theorem awaited_settled (h : w.Tended) (rest : List (Bool × Action)) :
    awaited kind rest w.settle.markReported = w.settle.markReported := by
  unfold awaited
  rw [h.settle_again, ite_self]

theorem Poised.step (h : w.Poised kind) (hold : Bool) (staid : action.staid = true) :
    (w.step hold action).2.Poised kind := by
  cases hold with
  | true => exact h.perform staid
  | false => exact (h.perform staid).settle

/-- What comes of an action that concerns the kind is what the next one of the essence finds. -/
theorem step_concerned (h : w.Poised kind) (h' : v.Poised kind) (alike : w.only kind = v.only kind)
    (staid : action.staid = true) (concerns : action.concerns kind = true) (hold : Bool)
    (rest : List (Bool × Action)) :
    ∃ u : World, u.Poised kind ∧ (w.step hold action).2.only kind = u.only kind ∧
      (v.step (hold && isLull kind rest) action).2 = awaited kind rest u := by
  obtain ⟨performed, -⟩ := perform_congr h h' alike staid concerns
  cases hold with
  | true =>
    refine ⟨(v.perform action).2, h'.perform staid, performed, ?_⟩
    cases lull : isLull kind rest <;> simp [awaited, lull, step_snd, step_held]
  | false =>
    refine ⟨(v.perform action).2.settle.markReported, (h'.perform staid).settle,
      (h.perform staid).settle_congr (h'.perform staid) performed, ?_⟩
    rw [awaited_settled (h'.perform staid).tended]
    rfl

/-- What comes of any other action is not seen, but that the gateway settles. -/
theorem step_unconcerned (h : w.Poised kind) (h' : v.Poised kind)
    (alike : w.only kind = v.only kind)
    (staid : action.staid = true) (apart : action.concerns kind = false) (hold : Bool)
    (rest : List (Bool × Action)) :
    ∃ u : World, u.Poised kind ∧ (w.step hold action).2.only kind = u.only kind ∧
      awaited kind ((hold, action) :: rest) v = awaited kind rest u := by
  have seen := (perform_apart h.tended staid apart).trans alike
  cases hold with
  | true =>
    refine ⟨v, h', seen, ?_⟩
    simp [awaited, isLull, apart]
  | false =>
    refine ⟨v.settle.markReported, h'.settle, (h.perform staid).settle_congr h' seen, ?_⟩
    rw [awaited_settled h'.tended]
    simp [awaited, isLull, apart]

/-- **To a kind, a session is its essence**: whatever else is done in it makes no difference. -/
theorem after_essence {actions : List (Bool × Action)} {sort : Action → Bool}
    (told : ∀ action, sort action = true → action.tells = true ∧ action.concerns kind = true)
    (staid : ∀ step ∈ actions, step.2.staid = true) (h : w.Poised kind) (h' : v.Poised kind)
    (alike : w.only kind = v.only kind) :
    (w.after actions).only kind
      = ((awaited kind actions v).after (essence kind actions)).only kind ∧
      w.results sort actions = (awaited kind actions v).results sort (essence kind actions) := by
  -- Left with its essence, the gateway settles after an action as soon as it does before the next
  -- one.
  induction actions generalizing w v with
  | nil => exact ⟨alike, rfl⟩
  | cons step rest ih =>
    obtain ⟨hold, action⟩ := step
    obtain ⟨first, later⟩ := List.forall_mem_cons.mp staid
    have last : World.after w ((hold, action) :: rest) = (w.step hold action).2.after rest := rfl
    by_cases concerns : action.concerns kind = true
    · have here : awaited kind ((hold, action) :: rest) v = v := by
        simp [awaited, isLull, concerns]
      have kept : essence kind ((hold, action) :: rest)
          = (hold && isLull kind rest, action) :: essence kind rest := by
        simp [essence, concerns]
      obtain ⟨u, poised, state, settles⟩ := step_concerned h h' alike first concerns hold rest
      obtain ⟨final, results⟩ := ih later (h.step hold first) poised state
      rw [here, kept, last, results_cons, results_cons, results, settles]
      refine ⟨?_, ?_⟩
      · rw [World.after, final, settles]
      · cases sorted : sort action with
        | true => rw [(perform_congr h h' alike first concerns).2 (told action sorted).1]
        | false => rfl
    · have apart : action.concerns kind = false := by simpa using concerns
      have kept : essence kind ((hold, action) :: rest) = essence kind rest := by
        simp [essence, apart]
      have unsorted : sort action = false := by
        cases sorted : sort action with
        | true => exact absurd (told action sorted).2 concerns
        | false => rfl
      obtain ⟨u, poised, state, same⟩ := step_unconcerned h h' alike first apart hold rest
      rw [kept, last, results_cons, unsorted, same]
      exact ih later (h.step hold first) poised state

theorem calls_settle_started (settings : EngineSettings) (verifier : Verifier) :
    (started settings verifier).settle.calls = [] := by
  exact List.eq_nil_of_length_eq_zero (length_settle (started settings verifier))

/-- Sessions with the same essence look alike to the kind. -/
theorem only_of_essence (settings : EngineSettings) (verifier : Verifier)
    {actions actions' : List (Bool × Action)} (staid : ∀ step ∈ actions, step.2.staid = true)
    (staid' : ∀ step ∈ actions', step.2.staid = true)
    (same : essence kind actions = essence kind actions') :
    let start := (started settings verifier).settle
    (start.after actions).only kind = (start.after actions').only kind ∧
      ∀ sort : Action → Bool,
        (∀ action, sort action = true → action.tells = true ∧ action.concerns kind = true) →
        start.results sort actions = start.results sort actions' := by
  intro start
  have tended : (started settings verifier).Tended := .started settings verifier
  have poised : start.Poised kind := .of_settled tended.settle tended.settled_settle
  have unreported : start.markReported = start := by
    simp only [markReported, start, calls_settle_started, List.map_nil]
    rw [← calls_settle_started settings verifier]
  have ready : ∀ rest, awaited kind rest start = start := by
    intro rest
    have settled : awaited kind rest start.markReported = start.markReported :=
      awaited_settled tended rest
    rwa [unreported] at settled
  constructor
  · have told : ∀ action : Action, (fun _ => false) action = true →
        action.tells = true ∧ action.concerns kind = true := fun _ never => by cases never
    rw [(after_essence told staid poised poised rfl).1,
      (after_essence told staid' poised poised rfl).1, ready, ready, same]
  · intro sort told
    rw [(after_essence told staid poised poised rfl).2,
      (after_essence told staid' poised poised rfl).2, ready, ready, same]

/-- **Work, submissions and reports do not interfere.** Take two sessions on sealers with the same
settings and the same verifier. If they agree on pushed tasks, on who asks for work when, on sleeps
and closings, and on where the gateway settles between these, those who ask for work get the same
answers and the same becomes of the tasks, whatever was submitted and reported. If they agree on
reports, sleeps and closings, the hash rate is the same at the end, and so wherever both have come
equally far. If they agree on tasks, submissions, receipts of results, sleeps and closings, those
who submit get the same answers and the same results are received and left in the channel. -/
theorem no_interference (settings : EngineSettings) (verifier : Verifier)
    (actions actions' : List (Bool × Action)) (staid : ∀ step ∈ actions, step.2.staid = true)
    (staid' : ∀ step ∈ actions', step.2.staid = true) :
    let start := (started settings verifier).settle
    let w := start.after actions
    let w' := start.after actions'
    (essence .fetch actions = essence .fetch actions' →
        w.calls.filter (Call.asks .fetch) = w'.calls.filter (Call.asks .fetch) ∧
        start.results Action.isPush actions = start.results Action.isPush actions') ∧
      (essence .report actions = essence .report actions' →
        w.engine.hashrate = w'.engine.hashrate) ∧
      (essence .submission actions = essence .submission actions' →
        w.calls.filter (Call.asks .submission) = w'.calls.filter (Call.asks .submission) ∧
        start.results Action.isPush actions = start.results Action.isPush actions' ∧
        start.results Action.isReceipt actions = start.results Action.isReceipt actions' ∧
        w.engine.outbox? = w'.engine.outbox?) := by
  intro start w w'
  have pushes : ∀ kind, kind ≠ .report → ∀ action : Action, action.isPush = true →
      action.tells = true ∧ action.concerns kind = true := by
    intro kind other action push
    obtain ⟨task, pushed⟩ := Option.isSome_iff_exists.mp push
    obtain rfl := Action.eq_push pushed
    exact ⟨rfl, decide_eq_true other⟩
  have receipts : ∀ action : Action, action.isReceipt = true →
      action.tells = true ∧ action.concerns .submission = true := by
    intro action receipt
    cases action with
    | receiveResult => exact ⟨rfl, rfl⟩
    | _ => cases receipt
  refine ⟨?_, ?_, ?_⟩
  · intro same
    obtain ⟨alike, told⟩ := only_of_essence settings verifier staid staid' same
    exact ⟨congrArg World.calls alike, told _ (pushes .fetch (by decide))⟩
  · intro same
    obtain ⟨alike, -⟩ := only_of_essence settings verifier staid staid' same
    have rate : ∀ engine : Engine, (engine.only .report).hashrate = engine.hashrate := by
      intro engine
      cases engine <;> rfl
    rw [← rate w.engine, ← rate w'.engine]
    exact congrArg (fun w : World => w.engine.hashrate) alike
  · intro same
    obtain ⟨alike, told⟩ := only_of_essence settings verifier staid staid' same
    have outbox : ∀ engine : Engine, (engine.only .submission).outbox? = engine.outbox? := by
      intro engine
      cases engine <;> rfl
    refine ⟨congrArg World.calls alike, told _ (pushes .submission (by decide)),
      told _ receipts, ?_⟩
    rw [← outbox w.engine, ← outbox w'.engine]
    exact congrArg (fun w : World => w.engine.outbox?) alike

/-- A task comes; at one instant someone asks for work, submits and reports, and someone puts a
submission on the channel directly. Then a result is received. -/
def bustle : List (Bool × Action) :=
  [(false, .push ⟨default, 7, .labelled "a"⟩), (true, .request .getWork),
    (true, .send (.submission ⟨default, default, default, none⟩)),
    (true, .request (.submitWork default default default none)),
    (false, .request (.submitHashrate 5 default)), (false, .receiveResult), (false, .sleep 1)]

/-- Each of the three kinds gets in the bustle what it would get alone. -/
theorem no_interference_bustle :
    let start := (started {} .acceptAll).settle
    let alone := fun kind => start.after (essence kind bustle)
    ((start.after bustle).calls.filter (Call.asks .fetch)
        = (alone .fetch).calls.filter (Call.asks .fetch) ∧ (alone .fetch).calls.length = 1) ∧
      ((start.after bustle).engine.hashrate = (alone .report).engine.hashrate ∧
        (alone .report).engine.hashrate = 5) ∧
      ((start.after bustle).calls.filter (Call.asks .submission)
          = (alone .submission).calls.filter (Call.asks .submission) ∧
        (start.after bustle).engine.outbox? = (alone .submission).engine.outbox? ∧
        ((alone .submission).engine.outbox?.map fun outbox => outbox.queue.length) = some 1) := by
  intro start alone
  have staid : ∀ step ∈ bustle, step.2.staid = true := by decide
  have fetch := no_interference {} .acceptAll bustle (essence .fetch bustle) staid (by decide)
  have report := no_interference {} .acceptAll bustle (essence .report bustle) staid (by decide)
  have submission :=
    no_interference {} .acceptAll bustle (essence .submission bustle) staid (by decide)
  obtain ⟨answers, -, -, outbox⟩ := submission.2.2 rfl
  refine ⟨⟨(fetch.1 rfl).1, ?_⟩, ⟨report.2.1 rfl, ?_⟩, answers, outbox, ?_⟩
  all_goals decide +kernel

end World

end MinerGateway
