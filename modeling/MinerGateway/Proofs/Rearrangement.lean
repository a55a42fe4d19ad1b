import MinerGateway.Proofs.Operations

/-!
Within one instant only the order inside each kind of operation counts.

What is taken at one instant is one batch: tasks that are pushed, and calls of miners that ask for
work, submit or report (`after_atOnce`). Seen by one kind of message, two batches look alike that
push the same tasks in the same order and ask for the kind in the same order; so a sealer settles
alike after both, for every kind, and therefore as a whole (`order_within_kinds`). A batch is served
after all of its tasks were taken up: whoever asks for work gets the task that was pushed last, and
submissions are judged against it (`batch_judged`).

Correspondence (one instant ↔ definition):
  operations before the next settling          ↔ `atOnce`
  the same batch in another order              ↔ `Rearranges`
  the same sealer, and the same told to a kind ↔ `SameByKind`
  judged by the task that was pushed last      ↔ `JudgedBy`

What is assumed: the state before the batch is settled, so nothing is left over from earlier. Any
such state of any run will do, before the exit signal or after it.
-/

namespace MinerGateway

/-- Actions that are all taken before the gateway settles. -/
def atOnce (batch : List Action) : List (Bool × Action) := batch.map fun action => (true, action)

/-- The same operations, in the same order within each of the four kinds. -/
structure Rearranges (batch batch' : List Action) : Prop where
  operations : (∀ action ∈ batch, action.isOperation = true) ∧
    ∀ action ∈ batch', action.isOperation = true
  pushes : batch.filterMap Action.task? = batch'.filterMap Action.task?
  asks : ∀ kind, batch.filter (Action.asks kind) = batch'.filter (Action.asks kind)

namespace World

variable {w w' : World} {s : Sealer} {batch batch' : List Action}

/-- A batch of operations is taken, and nothing of it has begun. -/
def taking (w : World) (s : Sealer) (batch : List Action) : World :=
  { w with
    engine := .sealer { s with
      tasks := s.tasks ++ if w.refuses s then [] else batch.filterMap Action.task? }
    calls := w.calls ++ batch.filterMap Action.call? }

/-! ## Taking a batch -/

theorem taking_push_refused (refused : w.refuses s = true) (task : Task) (batch : List Action) :
    w.taking s (.push task :: batch) = w.taking s batch := by
  have silent : (Action.push task).call? = none := rfl
  simp only [taking, refused, if_true, List.filterMap_cons, silent]

theorem atOnce_cons (action : Action) (rest : List Action) :
    w.after (atOnce (action :: rest)) = (w.perform action).2.after (atOnce rest) ∧
      w.results Action.isPush (atOnce (action :: rest))
        = if action.isPush
          then (w.perform action).1 :: (w.perform action).2.results Action.isPush (atOnce rest)
          else (w.perform action).2.results Action.isPush (atOnce rest) :=
  ⟨rfl, rfl⟩

/-- **A batch is taken** by keeping its tasks and its calls, each in their order. What becomes of a
task is the same for all tasks of the batch. -/
theorem after_atOnce (attached : w.attached = true) (engine : w.engine = .sealer s)
    (operations : ∀ action ∈ batch, action.isOperation = true) :
    w.after (atOnce batch) = w.taking s batch ∧
      w.results Action.isPush (atOnce batch) = (batch.filterMap Action.task?).map fun _ =>
        if w.refuses s then .error (.engine .stopped) else .ok .nothing := by
  induction batch generalizing w s with
  | nil =>
    obtain ⟨now, _, intake, attached, calls, timers⟩ := w
    obtain rfl := engine
    exact ⟨by simp [atOnce, after, taking], rfl⟩
  | cons action rest ih =>
    obtain ⟨operation, later⟩ := List.forall_mem_cons.mp operations
    obtain ⟨after, results⟩ := w.atOnce_cons action rest
    rw [after, results, Action.isPush]
    cases pushed : action.task? with
    | some task =>
      obtain rfl := Action.eq_push pushed
      rw [perform_push attached engine]
      by_cases refused : w.refuses s = true
      · obtain ⟨taken, told⟩ := ih attached engine later
        rw [if_pos refused] at told
        rw [if_pos refused, taking_push_refused refused]
        refine ⟨taken, ?_⟩
        simp [told, pushed, refused]
      · let next : Sealer := { s with tasks := s.tasks ++ [task] }
        let w' : World := { w with engine := .sealer next }
        have same : w'.refuses next = w.refuses s := rfl
        have silent : (Action.push task).call? = none := rfl
        obtain ⟨taken, told⟩ := ih (w := w') attached rfl later
        rw [same] at told
        rw [if_neg refused]
        refine ⟨taken.trans ?_, ?_⟩
        · simp [taking, same, refused, w', next, pushed, silent]
        · simp [told, w', next, pushed, refused]
    | none =>
      rw [Action.isOperation, Action.isPush, pushed, Option.isSome_none, Bool.false_or] at operation
      obtain ⟨⟨request, form⟩, miner⟩ := Option.isSome_iff_exists.mp operation
      let w' : World := { w with calls := w.calls ++ [{ errand := .miner request form }] }
      have same : w'.refuses s = w.refuses s := rfl
      have made : action.call? = some { errand := .miner request form } := by
        simp [Action.call?, miner]
      obtain ⟨taken, told⟩ := ih (w := w') attached engine later
      rw [same] at told
      rw [perform_miner attached miner]
      refine ⟨taken.trans ?_, ?_⟩
      · simp [taking, same, w', pushed, made]
      · simp [told, w', pushed]

/-- Of an engine that was let go nobody learns anything any more. -/
theorem after_atOnce_detached (detached : w.attached = false)
    (operations : ∀ action ∈ batch, action.isOperation = true) :
    w.after (atOnce batch) = w ∧
      w.results Action.isPush (atOnce batch)
        = (batch.filterMap Action.task?).map fun _ => .error .gone := by
  induction batch with
  | nil => exact ⟨rfl, rfl⟩
  | cons action rest ih =>
    obtain ⟨operation, later⟩ := List.forall_mem_cons.mp operations
    obtain ⟨after, results⟩ := w.atOnce_cons action rest
    obtain ⟨taken, told⟩ := ih later
    rw [after, results, perform_detached detached operation, Action.isPush]
    refine ⟨taken, ?_⟩
    cases pushed : action.task? <;> simp [told, pushed]

theorem mem_taking {call : Call} (there : call ∈ (w.taking s batch).calls) :
    call ∈ w.calls ∨ ∃ request form, call = { errand := .miner request form } := by
  rcases List.mem_append.mp there with there | there
  · exact .inl there
  · obtain ⟨action, -, made⟩ := List.mem_filterMap.mp there
    obtain ⟨⟨request, form⟩, -, rfl⟩ := Option.map_eq_some_iff.mp made
    exact .inr ⟨request, form, rfl⟩

theorem calm_taking (h : w.Attended) (settled : w.Settled) (engine : w.engine = .sealer s)
    (operations : ∀ action ∈ batch, action.isOperation = true) (kind : Kind) :
    (w.taking s batch).Calm kind := by
  have calm : w.Calm kind := .of_settled h settled
  obtain ⟨log, run, -⟩ := exists_run_after w (atOnce batch)
  rw [(after_atOnce h.attached engine operations).1] at run
  have idle : (w.taking s batch).NoneDue := by
    intro i errand chain due
    obtain ⟨call, found, -, stage⟩ := exists_call due
    rcases mem_taking (List.mem_of_getElem? found) with there | ⟨request, form, rfl⟩
    · obtain ⟨j, found⟩ := List.getElem?_of_mem there
      exact h.idle j call.errand chain (stage ▸ view_eq_some found)
    · cases stage
  refine ⟨h.of_run run h.attached idle, ?_, ?_, ?_, calm.orderly⟩
  · intro i interval made
    obtain ⟨call, found, errand, stage⟩ := exists_call made
    rcases mem_taking (List.mem_of_getElem? found) with there | ⟨request, form, rfl⟩
    · obtain ⟨j, found⟩ := List.getElem?_of_mem there
      refine calm.sober j interval ?_
      rw [view_eq_some found, errand, stage]
    · cases errand
  · intro call there asks
    rcases mem_taking there with there | ⟨request, form, rfl⟩
    · exact calm.early call there asks
    · exact .inl rfl
  · intro call there message waits
    rcases mem_taking there with there | ⟨request, form, rfl⟩
    · exact calm.unhurried call there message waits
    · cases waits

/-! ## Rearranging it -/

theorem filter_calls (kind : Kind) (batch : List Action) :
    (batch.filterMap Action.call?).filter (Call.asks kind)
      = (batch.filter (Action.asks kind)).filterMap Action.call? := by
  induction batch with
  | nil => rfl
  | cons action rest ih =>
    cases miner : action.miner? with
    | none =>
      have silent : action.call? = none := by simp [Action.call?, miner]
      have apart : action.asks kind = false := by simp [Action.asks, miner]
      simp [silent, apart, ih]
    | some asked =>
      obtain ⟨request, form⟩ := asked
      have made : action.call? = some { errand := .miner request form } := by
        simp [Action.call?, miner]
      have same : ({ errand := .miner request form } : Call).asks kind = action.asks kind := by
        simp [Action.asks, Call.asks, miner]
      by_cases asks : action.asks kind = true
      · simp [made, same, asks, ih]
      · simp [made, same, asks, ih]

/-- To one kind, a batch looks like any rearrangement of it. -/
theorem taking_only (h : Rearranges batch batch') (kind : Kind) :
    (w.taking s batch).only kind = (w.taking s batch').only kind := by
  refine only_ext rfl ?_ rfl rfl ?_ rfl
  · simp only [taking, h.pushes]
  · simp only [taking, List.filter_append, filter_calls, h.asks kind]

/-- Two gateways that differ at most in the order in which calls of different kinds stand. -/
structure SameByKind (w w' : World) : Prop where
  now : w.now = w'.now
  engine : w.engine = w'.engine
  intake : w.intake = w'.intake
  attached : w.attached = w'.attached
  timers : w.timers = w'.timers
  calls : ∀ kind, w.calls.filter (Call.asks kind) = w'.calls.filter (Call.asks kind)

theorem eq_of_only {s s' : Sealer} (alike : ∀ kind, s.only kind = s'.only kind) : s = s' := by
  obtain ⟨settings, verifier, ⟨current, pending, rates, published⟩,
      tasks, outbox, loop, due, joined⟩ := s
  obtain ⟨settings', verifier', ⟨current', pending', rates', published'⟩,
      tasks', outbox', loop', due',
    joined'⟩ := s'
  have submission := alike .submission
  have report := alike .report
  simp only [Sealer.only, Ledger.only, if_true, Sealer.mk.injEq,
    Ledger.mk.injEq] at submission report
  simp_all

/-- At rest nothing is in the channels, so what is alike to every kind differs in order alone. -/
theorem sameByKind_of_only (h : w.Attended) (h' : w'.Attended) (empty : w.queued = [])
    (empty' : w'.queued = []) (alike : ∀ kind, w.only kind = w'.only kind) : SameByKind w w' := by
  obtain ⟨s, engine⟩ := h.sealer
  obtain ⟨s', engine'⟩ := h'.sealer
  obtain ⟨intake, hi, -⟩ := h.sound
  obtain ⟨intake', hi', -⟩ := h'.sound
  have fields := fun kind => World.mk.inj (alike kind)
  obtain ⟨now, -, channels, attached, -, timers⟩ := fields .fetch
  refine ⟨now, ?_, ?_, attached, timers, fun kind => (fields kind).2.2.2.2.1⟩
  · have sealers : ∀ kind, s.only kind = s'.only kind := by
      intro kind
      have engines := (fields kind).2.1
      rw [engine, engine'] at engines
      exact Engine.sealer.inj engines
    rw [engine, engine', eq_of_only sealers]
  · rw [queued_eq hi] at empty
    rw [queued_eq hi'] at empty'
    rw [hi, hi', Option.map_some, Option.map_some, Intake.only_of_empty empty,
      Intake.only_of_empty empty', emptied_eq_self empty, emptied_eq_self empty'] at channels
    rw [hi, hi', channels]

/-- **A sealer settles alike after a batch and after any rearrangement of it.** -/
theorem settle_rearranged (h : w.Attended) (settled : w.Settled) (same : Rearranges batch batch') :
    SameByKind (w.after (atOnce batch)).settle (w.after (atOnce batch')).settle := by
  obtain ⟨s, engine⟩ := h.sealer
  obtain ⟨operations, operations'⟩ := same.operations
  rw [(after_atOnce h.attached engine operations).1, (after_atOnce h.attached engine operations').1]
  have calm := calm_taking h settled engine operations
  have calm' := calm_taking h settled engine operations'
  refine sameByKind_of_only ((calm .fetch).attended.settle (calm .fetch).sober)
    ((calm' .fetch).attended.settle (calm' .fetch).sober)
    (queued_settle (calm .fetch).attended (calm .fetch).sober)
    (queued_settle (calm' .fetch).attended (calm' .fetch).sober) ?_
  intro kind
  exact (calm kind).settle_congr (calm' kind) (taking_only same kind)

/-! ## Who judges a batch -/

end World

/-- The reply to a message as the tasks, the settings and the verifier determine it, whatever is in
the outbox at its turn. -/
def Sealer.Rules (s : Sealer) : Message → Reply → Prop
  | .fetch, reply => reply = .work s.ledger.currentWork
  | .submission sub, reply => ∃ outbox, reply = .verdict
      ((s.ledger.submit s.settings.staleThreshold s.verifier outbox sub).map fun _ => ())
  | .report _, reply => reply = .recorded

namespace Sealer

theorem serve_rules (s : Sealer) (now : Nat) (message : Message) :
    s.Rules message (s.serve now message).2 := by
  cases message with
  | fetch | report => rfl
  | submission sub =>
    refine ⟨s.outbox, ?_⟩
    simp only [serve]
    split
    · next judged =>
      rw [judged]
      rfl
    · next judged =>
      rw [judged]
      rfl

theorem rules_serve (s : Sealer) (now : Nat) (served message : Message) (reply : Reply) :
    (s.serve now served).1.Rules message reply ↔ s.Rules message reply := by
  cases served with
  | fetch => rfl
  | submission sub =>
    simp only [serve]
    split <;> cases message <;> rfl
  | report r => cases message <;> rfl

theorem current_serve (s : Sealer) (now : Nat) (message : Message) :
    (s.serve now message).1.ledger.current = s.ledger.current := by
  cases message with
  | fetch | report => rfl
  | submission sub =>
    simp only [serve]
    split <;> rfl

/-- Those who wait get their replies by the tasks that are there, and these stay as they are. -/
theorem attend_rules (s : Sealer) (now : Nat) (calls : List Call) :
    (s.attend now calls).1.ledger.current = s.ledger.current ∧
      (∀ message reply, (s.attend now calls).1.Rules message reply ↔ s.Rules message reply) ∧
      ∀ (i : Nat) (after : Call), (s.attend now calls).2[i]? = some after →
        ∃ call, calls[i]? = some call ∧ after.errand = call.errand ∧
          ∀ message, call.stage = .waiting message →
            ∃ reply, s.Rules message reply ∧
            after.stage = .finished (call.errand.answer reply) := by
  induction calls generalizing s with
  | nil =>
    refine ⟨rfl, fun _ _ => Iff.rfl, ?_⟩
    intro i after found
    cases found
  | cons first rest ih =>
    by_cases waits : ∃ message, first.stage = .waiting message
    · obtain ⟨message, waits⟩ := waits
      obtain ⟨current, rules, each⟩ := ih (s.serve now message).1
      rw [attend_waiting now s waits]
      refine ⟨current.trans (s.current_serve now message), ?_, ?_⟩
      · intro other reply
        exact (rules other reply).trans (s.rules_serve now message other reply)
      · intro i after found
        cases i with
        | zero =>
          obtain rfl := Option.some.inj found
          refine ⟨first, rfl, rfl, ?_⟩
          intro other same
          obtain rfl := Stage.waiting.inj (waits.symm.trans same)
          exact ⟨_, s.serve_rules now message, rfl⟩
        | succ i =>
          obtain ⟨call, before, errand, served⟩ := each i after found
          refine ⟨call, before, errand, ?_⟩
          intro other same
          obtain ⟨reply, ruled, answered⟩ := served other same
          exact ⟨reply, (s.rules_serve now message other reply).mp ruled, answered⟩
    · have waits := not_exists.mp waits
      obtain ⟨current, rules, each⟩ := ih s
      rw [attend_other now s waits]
      refine ⟨current, rules, ?_⟩
      intro i after found
      cases i with
      | zero =>
        obtain rfl := Option.some.inj found
        exact ⟨first, rfl, first.forward_errand, fun message same => absurd same (waits message)⟩
      | succ i => exact each i after found

end Sealer

namespace World

variable {w w' : World} {s : Sealer} {batch batch' : List Action}
/-- Whoever has called from a place on was served with this task as the current one: a fetch brought
its package, and a submission was judged by the ledger as it is now, whatever was in the outbox. -/
def JudgedBy (w : World) (task : Task) (place : Nat) : Prop :=
  ∃ s, w.engine = .sealer s ∧ s.ledger.current = some task ∧
    ∀ i, place ≤ i → ∀ request form stage, w.view i = some (.miner request form, stage) →
      (request = .getWork → stage = .finished (form.tell (.work (.ok task.package)))) ∧
        ∀ sub, request.message? = some (.submission sub) → ∃ outbox,
          stage = .finished (form.tell (request.outcome (.verdict
            ((s.ledger.submit s.settings.staleThreshold s.verifier outbox sub).map fun _ => ()))))

theorem current_foldl_push (ledger : Ledger) {tasks : List Task} {task : Task}
    (last : tasks.getLast? = some task) : (tasks.foldl Ledger.push ledger).current = some task := by
  obtain ⟨front, rfl⟩ := List.getLast?_eq_some_iff.mp last
  rw [List.foldl_append]
  rfl

theorem begun_taking {i : Nat} (later : w.calls.length ≤ i) {rate : UInt64} {call : Call}
    (found : (((w.taking s batch).calls.map Call.forward).map (Call.begun true rate))[i]?
      = some call)
    {request : Request} {form : Form} (miner : call.errand = .miner request form)
    {message : Message}
    (writes : request.message? = some message) : call.stage = .waiting message := by
  rw [List.getElem?_map, List.getElem?_map, taking, List.getElem?_append_right later] at found
  obtain ⟨forwarded, before, rfl⟩ := Option.map_eq_some_iff.mp found
  obtain ⟨made, inside, rfl⟩ := Option.map_eq_some_iff.mp before
  obtain ⟨action, -, own⟩ := List.mem_filterMap.mp (List.mem_of_getElem? inside)
  obtain ⟨⟨request', form'⟩, -, rfl⟩ := Option.map_eq_some_iff.mp own
  obtain ⟨rfl, rfl⟩ := Errand.miner.inj miner
  simp [Call.forward, Call.begun, Errand.first, writes]

/-- **A batch is judged against the last task pushed in it**, wherever in the batch that push stood.
-/
theorem batch_judged (h : w.Attended) (settled : w.Settled) (engine : w.engine = .sealer s)
    (running : s.loop = .running) (quiet : w.isSignalled = false)
    (operations : ∀ action ∈ batch, action.isOperation = true) {task : Task}
    (last : (batch.filterMap Action.task?).getLast? = some task) :
    (w.after (atOnce batch)).settle.JudgedBy task w.calls.length := by
  have calm : (w.taking s batch).Calm .fetch := calm_taking h settled engine operations .fetch
  have tidy : s.cleanupDue = false := by
    have none : w.engine.dues + w.calls.countP Call.isDue = 0 := settled.dues_eq_zero h.sound
    have idle := Nat.eq_zero_of_add_eq_zero_right none
    simpa [engine, Engine.dues] using idle
  have accepted : w.refuses s = false := by simp [refuses, quiet, running]
  have empty : w.queued = [] := letters_of_settled settled h.sound engine
  have taken := settle_running calm.attended calm.sober rfl running quiet empty calm.unhurried tidy
  rw [(after_atOnce h.attached engine operations).1, taken]
  let start : Sealer :=
    { s with tasks := s.tasks ++ if w.refuses s then [] else batch.filterMap Action.task? }
  let begun := ((w.taking s batch).calls.map Call.forward).map
    (Call.begun true start.caughtUp.ledger.published)
  have current : start.caughtUp.ledger.current = some task := by
    simp only [start, Sealer.caughtUp, accepted, List.foldl_append]
    exact current_foldl_push _ last
  obtain ⟨still, rules, each⟩ := start.caughtUp.attend_rules w.now begun
  refine ⟨_, rfl, still.trans current, ?_⟩
  intro i later request form stage view
  obtain ⟨after, found, errand, rfl⟩ := exists_call view
  obtain ⟨call, before, same, served⟩ := each i after found
  have miner : call.errand = .miner request form := same.symm.trans errand
  constructor
  · rintro rfl
    obtain ⟨reply, ruled, answered⟩ := served .fetch (begun_taking later before miner rfl)
    obtain rfl : reply = .work (.ok task.package) := by
      rw [ruled, Ledger.currentWork, current]
    rw [answered, miner]
    rfl
  · intro sub writes
    obtain ⟨reply, ruled, answered⟩ := served _ (begun_taking later before miner writes)
    obtain ⟨outbox, rfl⟩ := (rules _ _).mpr ruled
    refine ⟨outbox, ?_⟩
    rw [answered, miner]
    rfl

/-- **Within one instant only the order inside each kind counts.** Sessions are runs, and one whose
last action is not held back ends settled. From any settled state of a run, a batch of operations
and any rearrangement of it that keeps the order within each of the four kinds lead to the same
sealer, tasks, rates and outbox included, and to the same answers to the calls of each kind; what
becomes of the tasks at once is the same as well. As long as the sealer runs, whatever stands in a
batch is judged against the last task pushed in it. -/
theorem order_within_kinds (settings : EngineSettings) (verifier : Verifier) :
    let start := started settings verifier
    (∀ actions, (∃ log, start.Run log (start.settle.after actions)) ∧
        ((∀ action, actions.getLast? ≠ some (true, action)) →
          (start.settle.after actions).Settled)) ∧
      ∀ log w, start.Run log w → w.Settled → ∀ batch batch', Rearranges batch batch' →
        SameByKind (w.after (atOnce batch)).settle (w.after (atOnce batch')).settle ∧
          w.results Action.isPush (atOnce batch) = w.results Action.isPush (atOnce batch') ∧
          ∀ s task, w.attached = true → w.engine = .sealer s → s.loop = .running →
            w.isSignalled = false → (batch.filterMap Action.task?).getLast? = some task →
            (w.after (atOnce batch)).settle.JudgedBy task w.calls.length := by
  intro start
  constructor
  · intro actions
    obtain ⟨log, run, -⟩ := exists_run_session start actions
    exact ⟨⟨log, run⟩, settled_session (sound_started ..) (tracked_started ..) actions⟩
  intro log w run settled batch batch' same
  obtain ⟨s, engine, -⟩ := run.passes_start
  have sound : w.Sound := sound_run run (sound_started ..)
  have tracked : w.Tracked log := run.tracked (tracked_started ..)
  obtain ⟨operations, operations'⟩ := same.operations
  cases attached : w.attached with
  | false =>
    obtain ⟨after, told⟩ := after_atOnce_detached attached operations
    obtain ⟨after', told'⟩ := after_atOnce_detached attached operations'
    rw [after, after', told, told', same.pushes]
    exact ⟨⟨rfl, rfl, rfl, rfl, rfl, fun _ => rfl⟩, rfl, fun _ _ attached => by cases attached⟩
  | true =>
    have h : w.Attended := .of_settled settled sound tracked attached engine
    refine ⟨settle_rearranged h settled same, ?_, ?_⟩
    · rw [(after_atOnce attached engine operations).2, (after_atOnce attached engine operations').2,
        same.pushes]
    · intro s task _ engine running quiet last
      exact batch_judged h settled engine running quiet operations last

/-- A fetch, a submission and another fetch around a push, in two orders. -/
def shuffled : List Action × List Action :=
  let submit : Action := .request (.submitWork default default default none)
  let push : Action := .push ⟨default, 8, .labelled "b"⟩
  let report : Action := .request (.submitHashrate 5 default)
  ([.request .getWork, submit, push, .request .getWork, report],
    [report, push, submit, .request .getWork, .request .getWork])

/-- After an older task, whoever asks for work around the push of a new one gets the new one. -/
theorem order_within_kinds_shuffled :
    let w := (started {} .acceptAll).settle.after [(false, .push ⟨default, 7, .labelled "a"⟩)]
    SameByKind (w.after (atOnce shuffled.1)).settle (w.after (atOnce shuffled.2)).settle ∧
      (w.after (atOnce shuffled.1)).settle.JudgedBy ⟨default, 8, .labelled "b"⟩ 0 ∧
      (w.after (atOnce shuffled.1)).settle.engine.hashrate = 5 := by
  intro w
  obtain ⟨sessions, batches⟩ := order_within_kinds {} .acceptAll
  obtain ⟨⟨log, run⟩, settled⟩ := sessions [(false, .push ⟨default, 7, .labelled "a"⟩)]
  have same : Rearranges shuffled.1 shuffled.2 := by
    refine ⟨⟨by decide, by decide⟩, rfl, ?_⟩
    intro kind
    cases kind <;> rfl
  obtain ⟨alike, -, judged⟩ := batches log w run (settled (by simp)) _ _ same
  refine ⟨alike, judged _ _ rfl rfl rfl rfl rfl, ?_⟩
  decide +kernel

end World

end MinerGateway
