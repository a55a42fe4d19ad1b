import MinerGateway.Proofs.Attending
import MinerGateway.Proofs.Timers

/-!
The three kinds of message look at different parts of a sealer.

Whoever fetches work sees the current task; a submission is judged by the tasks and the outbox; a
report bears on the rates alone. `only` keeps of a gateway what bears on one kind: this part of the
ledger, its channel, and the calls that ask for it. A message of another kind leaves it alone
(`only_serve_other`), one of this kind sees nothing else (`serve_only`), and so what a gateway comes
to rest at, seen by one kind, can be told from what this kind sees of it (`forecast_only`,
`settle_congr`).
-/

namespace MinerGateway

/-- What a request asks for. -/
def Request.kind : Request → Kind
  | .getWork => .fetch
  | .submitWork .. => .submission
  | .submitHashrate .. => .report

/-- Whether a call is a miner's that asks for this. -/
def Call.asks (kind : Kind) (call : Call) : Bool :=
  match call.errand with
  | .miner request _ => request.kind = kind
  | _ => false

/-- The part of the ledger that bears on one kind of message. -/
def Ledger.only (kind : Kind) (ledger : Ledger) : Ledger :=
  match kind with
  | .fetch => { current := ledger.current }
  | .submission => { current := ledger.current, pending := ledger.pending }
  | .report => { rates := ledger.rates, published := ledger.published }

/-- What of a sealer bears on one kind of message. -/
def Sealer.only (kind : Kind) (s : Sealer) : Sealer :=
  { s with
    ledger := s.ledger.only kind
    tasks := if kind = .report then [] else s.tasks
    outbox := if kind = .submission then s.outbox else Outbox.start 0 }

def Engine.only (kind : Kind) : Engine → Engine
  | .sealer s => .sealer (s.only kind)
  | engine => engine

/-- A letter without the name of its sender. -/
def Letter.unsigned (letter : Letter) : Letter := { letter with sender := 0 }

/-- What of the channels bears on one kind of message: its own channel, whoever wrote the letters.
-/
def Intake.only (kind : Kind) (intake : Intake) : Intake :=
  intake.emptied.setQueue ((intake.queue kind).map Letter.unsigned) kind

/-- What of a gateway bears on one kind of message: the sealer's part, its channel, and whoever asks
for it. -/
def World.only (kind : Kind) (w : World) : World :=
  { w with
    engine := w.engine.only kind
    intake := w.intake.map (Intake.only kind)
    calls := w.calls.filter (Call.asks kind) }

theorem Request.kind_of_message? {request : Request} {message : Message}
    (h : request.message? = some message) : message.kind = request.kind := by
  cases request with
  | submitWork nonce hash digest extraNonce =>
    simp only [Request.message?] at h
    split at h <;> cases h
    rfl
  | getWork | submitHashrate => cases h; rfl

theorem Call.asks_congr (kind : Kind) {call call' : Call} (h : call'.errand = call.errand) :
    call'.asks kind = call.asks kind := by
  unfold asks
  rw [h]

variable {kind : Kind}

namespace Intake

theorem Orderly.of_empty {intake : Intake} (empty : intake.letters = []) : intake.Orderly := by
  obtain ⟨fetches, submissions, reports⟩ := World.empty_of_letters empty
  constructor
  · intro kind letter there
    cases kind <;> simp [queue, fetches, submissions, reports] at there
  · intro kind
    cases kind <;> simp [queue, fetches, submissions, reports]

theorem unserved_nil (intake : Intake) : intake.unserved [] = intake.letters := by
  simp only [unserved, letters, ofKind_nil, List.append_nil]

theorem only_only (intake : Intake) : (intake.only kind).only kind = intake.only kind := by
  cases kind <;> simp [only, emptied, queue, setQueue, Letter.unsigned]

theorem only_of_empty {intake : Intake} (empty : intake.letters = []) :
    intake.only kind = intake.emptied := by
  obtain ⟨fetches, submissions, reports⟩ := World.empty_of_letters empty
  cases kind <;> simp [only, emptied, queue, setQueue, fetches, submissions, reports]

theorem signalled_only (intake : Intake) : (intake.only kind).signalled = intake.signalled :=
  signalled_setQueue ..

theorem letters_only (intake : Intake) :
    (intake.only kind).letters = (intake.queue kind).map Letter.unsigned := by
  cases kind <;> simp [only, letters, emptied, queue, setQueue]

theorem emptied_only (intake : Intake) : (intake.only kind).emptied = intake.emptied := by
  cases kind <;> rfl

theorem abandon_only (intake : Intake) : (intake.only kind).abandon = intake.abandon := by
  cases kind <;> rfl

end Intake

namespace Ledger

theorem push_only (kind : Kind) (ledger : Ledger) (task : Task) :
    (ledger.push task).only kind = ((ledger.only kind).push task).only kind := by
  cases kind <;> rfl

theorem foldl_push_only (kind : Kind) (ledger : Ledger) (tasks : List Task) :
    (tasks.foldl push ledger).only kind = (tasks.foldl push (ledger.only kind)).only kind := by
  induction tasks generalizing ledger with
  | nil => cases kind <;> rfl
  | cons task rest ih => rw [List.foldl_cons, List.foldl_cons, ih, push_only, ← ih]

theorem foldl_push_report (ledger : Ledger) (tasks : List Task) :
    (tasks.foldl push ledger).only .report = ledger.only .report := by
  induction tasks generalizing ledger with
  | nil => rfl
  | cons task rest ih => exact ih (ledger.push task)

theorem cleanup_only (kind : Kind) (ledger : Ledger) (settings : EngineSettings) (now : Nat) :
    (ledger.cleanup settings now).only kind
      = ((ledger.only kind).cleanup settings now).only kind := by
  obtain ⟨current, pending, rates, published⟩ := ledger
  cases kind <;> cases current <;> rfl

end Ledger

namespace Sealer

theorem only_serve_other (s : Sealer) (now : Nat) {message : Message}
    (other : message.kind ≠ kind) :
    (s.serve now message).1.only kind = s.only kind := by
  cases message with
  | fetch => rfl
  | submission sub =>
    have apart : kind ≠ .submission := fun same => other same.symm
    simp only [serve]
    split
    · simp [only, apart]
    · rfl
  | report r =>
    cases kind with
    | report => exact absurd rfl other
    | fetch | submission => rfl

/-- A message sees nothing but what bears on its kind. -/
theorem serve_only (s : Sealer) (now : Nat) {message : Message} (own : message.kind = kind) :
    (s.serve now message).1.only kind = ((s.only kind).serve now message).1.only kind ∧
      (s.serve now message).2 = ((s.only kind).serve now message).2 := by
  subst own
  cases message with
  | fetch => exact ⟨rfl, rfl⟩
  | submission sub =>
    have same : (s.only .submission).ledger.submit (s.only .submission).settings.staleThreshold
          (s.only .submission).verifier (s.only .submission).outbox sub
        = s.ledger.submit s.settings.staleThreshold s.verifier s.outbox sub := rfl
    cases judged : s.ledger.submit s.settings.staleThreshold s.verifier s.outbox sub with
    | ok outbox =>
      simp only [serve, Message.kind, same, judged]
      exact ⟨rfl, trivial⟩
    | error error =>
      simp only [serve, Message.kind, same, judged]
      exact ⟨rfl, trivial⟩
  | report r => exact ⟨rfl, rfl⟩

theorem serve_congr {s s' : Sealer} (same : s.only kind = s'.only kind)
    (now : Nat) {message : Message} (own : message.kind = kind) :
    (s.serve now message).1.only kind = (s'.serve now message).1.only kind ∧
      (s.serve now message).2 = (s'.serve now message).2 := by
  obtain ⟨state, reply⟩ := s.serve_only now own
  obtain ⟨state', reply'⟩ := s'.serve_only now own
  rw [state, state', reply, reply', same]
  exact ⟨rfl, rfl⟩

theorem only_only (s : Sealer) : (s.only kind).only kind = s.only kind := by
  cases kind <;> rfl

theorem caughtUp_only (s : Sealer) : s.caughtUp.only kind = (s.only kind).caughtUp.only kind := by
  have ledger := s.ledger.foldl_push_only kind s.tasks
  cases kind with
  | report =>
    have alone := s.ledger.foldl_push_report s.tasks
    simp only [only, caughtUp, alone]
    rfl
  | fetch | submission =>
    simp only [only, caughtUp, ledger]
    rfl

theorem tidied_only (s : Sealer) (now : Nat) :
    (s.tidied now).only kind = ((s.only kind).tidied now).only kind := by
  have due : (s.only kind).cleanupDue = s.cleanupDue := rfl
  unfold tidied
  rw [due]
  split
  · have ledger := s.ledger.cleanup_only kind s.settings now
    simp only [only, ledger]
    cases kind <;> rfl
  · exact (only_only s).symm

theorem tidied_congr {s s' : Sealer} (same : s.only kind = s'.only kind) (now : Nat) :
    (s.tidied now).only kind = (s'.tidied now).only kind := by
  rw [tidied_only, same, ← tidied_only]

theorem exit_only (s : Sealer) :
    (if s.loop = .running then s.exit else s).only kind
      = (if (s.only kind).loop = .running then (s.only kind).exit else s.only kind).only kind := by
  have loop : (s.only kind).loop = s.loop := rfl
  rw [loop]
  split
  · cases kind <;> rfl
  · exact (only_only s).symm

/-- **Serving everybody looks to one kind like serving those who ask for it.** -/
theorem attend_only {s s' : Sealer} (same : s.only kind = s'.only kind)
    (now : Nat) {calls : List Call}
    (own : ∀ call ∈ calls, ∀ message, call.stage = .waiting message →
      (call.asks kind = true ↔ message.kind = kind)) :
    (s.attend now calls).1.only kind
        = (s'.attend now (calls.filter (Call.asks kind))).1.only kind ∧
      (s.attend now calls).2.filter (Call.asks kind)
        = (s'.attend now (calls.filter (Call.asks kind))).2 := by
  induction calls generalizing s s' with
  | nil => exact ⟨same, rfl⟩
  | cons call rest ih =>
    have later : ∀ call ∈ rest, ∀ message, call.stage = .waiting message →
        (call.asks kind = true ↔ message.kind = kind) :=
      fun call there => own call (List.mem_cons_of_mem _ there)
    by_cases waits : ∃ message, call.stage = .waiting message
    · obtain ⟨message, waits⟩ := waits
      have mine := own call List.mem_cons_self message waits
      rw [attend_waiting now s waits]
      have still : ({ call with
          stage := .finished (call.errand.answer (s.serve now message).2) } : Call).asks kind
            = call.asks kind := rfl
      by_cases asks : call.asks kind = true
      · obtain ⟨state, reply⟩ := serve_congr same now (mine.mp asks)
        obtain ⟨after, others⟩ := ih state later
        rw [List.filter_cons_of_pos asks, attend_waiting now s' waits,
          List.filter_cons_of_pos (still.trans asks), ← others, reply]
        exact ⟨after, rfl⟩
      · have state := (s.only_serve_other now fun same => asks (mine.mpr same)).trans same
        obtain ⟨after, others⟩ := ih state later
        rw [List.filter_cons_of_neg asks, List.filter_cons_of_neg (still ▸ asks)]
        exact ⟨after, others⟩
    · have waits := not_exists.mp waits
      have still := Call.asks_congr kind call.forward_errand
      obtain ⟨after, others⟩ := ih same later
      rw [attend_other now s waits]
      by_cases asks : call.asks kind = true
      · rw [List.filter_cons_of_pos asks, attend_other now s' waits,
          List.filter_cons_of_pos (still.trans asks), ← others]
        exact ⟨after, rfl⟩
      · rw [List.filter_cons_of_neg asks, List.filter_cons_of_neg (still ▸ asks)]
        exact ⟨after, others⟩

end Sealer

/-! ## Calls in a list -/

theorem forall_modify {α : Type} {P : α → Prop} {f : α → α} (h : ∀ a, P a → P (f a)) {l : List α}
    (all : ∀ a ∈ l, P a) (i : Nat) : ∀ a ∈ l.modify i f, P a := by
  induction l generalizing i with
  | nil => simp
  | cons first rest ih =>
    obtain ⟨here, later⟩ := List.forall_mem_cons.mp all
    cases i with
    | zero => exact List.forall_mem_cons.mpr ⟨h first here, later⟩
    | succ i => exact List.forall_mem_cons.mpr ⟨here, ih later i⟩

theorem filter_modify {α : Type} {p : α → Bool} {f : α → α} {l : List α}
    (same : ∀ a ∈ l, p (f a) = p a) (alone : ∀ a ∈ l, p a = true → f a = a) (i : Nat) :
    (l.modify i f).filter p = l.filter p := by
  induction l generalizing i with
  | nil => simp
  | cons first rest ih =>
    obtain ⟨here, later⟩ := List.forall_mem_cons.mp same
    obtain ⟨here', later'⟩ := List.forall_mem_cons.mp alone
    cases i with
    | zero =>
      rw [List.modify_zero_cons, List.filter_cons, List.filter_cons, here]
      split
      · next asks => rw [here' asks]
      · rfl
    | succ i => rw [List.modify_succ_cons, List.filter_cons, List.filter_cons, ih later later']

theorem filter_map_asks {f : Call → Call} (errand : ∀ call, (f call).errand = call.errand)
    (calls : List Call) :
    (calls.map f).filter (Call.asks kind) = (calls.filter (Call.asks kind)).map f := by
  rw [List.filter_map]
  congr 2
  funext call
  exact Call.asks_congr kind (errand call)

theorem filter_filter_asks (calls : List Call) :
    (calls.filter (Call.asks kind)).filter (Call.asks kind) = calls.filter (Call.asks kind) := by
  rw [List.filter_filter]
  simp only [Bool.and_self]

theorem filter_map_filter {f : Call → Call} (errand : ∀ call, (f call).errand = call.errand)
    (calls : List Call) :
    (calls.map f).filter (Call.asks kind)
      = ((calls.filter (Call.asks kind)).map f).filter (Call.asks kind) := by
  rw [filter_map_asks errand, filter_map_asks errand, filter_filter_asks]

/-- A call that asks for this and does not wait for a reply. -/
def Call.Deaf (kind : Kind) (call : Call) : Prop := call.asks kind = true → call.stage ≠ .sent

theorem Call.conclude_errand (reply : Reply) (call : Call) :
    (call.conclude reply).errand = call.errand := by
  unfold conclude
  split <;> rfl

theorem Call.dismiss_errand (signalled : Bool) (call : Call) :
    (call.dismiss signalled).errand = call.errand := by
  unfold dismiss
  split
  · rfl
  · rfl
  · split <;> rfl
  · rfl

theorem Call.conclude_of_ne_sent {call : Call} (h : call.stage ≠ .sent) (reply : Reply) :
    call.conclude reply = call := by
  unfold conclude
  split
  · next sent => exact absurd sent h
  · rfl

theorem Call.receive_of_ne_sent {call : Call} (h : call.stage ≠ .sent) (reply : Reply) :
    call.receive reply = call := by
  unfold receive
  split
  · next sent => exact absurd sent h
  · rfl

theorem deaf_modify {f : Call → Call} (errand : ∀ call, (f call).errand = call.errand)
    (alone : ∀ call, call.stage ≠ .sent → f call = call) {calls : List Call}
    (deaf : ∀ call ∈ calls, call.Deaf kind) (i : Nat) :
    (∀ call ∈ calls.modify i f, call.Deaf kind) ∧
      (calls.modify i f).filter (Call.asks kind) = calls.filter (Call.asks kind) := by
  constructor
  · apply forall_modify _ deaf
    intro call deaf asks
    have asks := (Call.asks_congr kind (errand call)).symm.trans asks
    rw [alone call (deaf asks)]
    exact deaf asks
  · apply filter_modify
    · intro call _
      exact Call.asks_congr kind (errand call)
    · intro call there asks
      exact alone call (deaf call there asks)

/-- **Serving letters looks to one kind like serving those of the kind**, as long as nobody who asks
for it waits for a reply. -/
theorem Sealer.serveAll_only {s s' : Sealer} (same : s.only kind = s'.only kind) (now : Nat)
    {calls calls' : List Call} (deaf : ∀ call ∈ calls, call.Deaf kind)
    (deaf' : ∀ call ∈ calls', call.Deaf kind)
    (alike : calls.filter (Call.asks kind) = calls'.filter (Call.asks kind))
    (letters : List Letter) :
    (s.serveAll now calls letters).1.only kind
        = (s'.serveAll now calls' ((ofKind kind letters).map Letter.unsigned)).1.only kind ∧
      (s.serveAll now calls letters).2.filter (Call.asks kind)
        = (s'.serveAll now calls' ((ofKind kind letters).map Letter.unsigned)).2.filter
            (Call.asks kind) := by
  induction letters generalizing s s' calls calls' with
  | nil => exact ⟨same, alike⟩
  | cons letter rest ih =>
    obtain ⟨deaf, still⟩ := deaf_modify (Call.conclude_errand (s.serve now letter.message).2)
      (fun _ quiet => Call.conclude_of_ne_sent quiet _) deaf letter.sender
    by_cases own : letter.kind = kind
    · obtain ⟨state, reply⟩ := serve_congr same now own
      obtain ⟨deaf', still'⟩ := deaf_modify (Call.conclude_errand (s.serve now letter.message).2)
        (fun _ quiet => Call.conclude_of_ne_sent quiet _) deaf' 0
      have first : ofKind kind (letter :: rest) = letter :: ofKind kind rest :=
        List.filter_cons_of_pos (decide_eq_true own)
      rw [first, List.map_cons, serveAll, serveAll, Letter.unsigned, ← reply]
      exact ih state deaf deaf' (still.trans (alike.trans still'.symm))
    · have state := (s.only_serve_other now own).trans same
      have first : ofKind kind (letter :: rest) = ofKind kind rest :=
        List.filter_cons_of_neg (by simpa using own)
      rw [first, serveAll]
      exact ih state deaf deaf' (still.trans alike)

namespace World

variable {w w' : World} {s : Sealer} {intake : Intake}

theorem only_ext (now : w.now = w'.now) (engine : w.engine.only kind = w'.engine.only kind)
    (intake : w.intake.map (Intake.only kind) = w'.intake.map (Intake.only kind))
    (attached : w.attached = w'.attached)
    (calls : w.calls.filter (Call.asks kind) = w'.calls.filter (Call.asks kind))
    (timers : w.timers = w'.timers) : w.only kind = w'.only kind := by
  rw [only, only, now, engine, intake, attached, calls, timers]

/-- A sealer that is held, before the calls made since begin: nobody waits for room, none of those
who ask for this waits for a reply, and the letters in the channels were put there directly. -/
structure Calm (kind : Kind) (w : World) : Prop where
  attended : w.Attended
  sober : w.Sober
  early : ∀ call ∈ w.calls, call.asks kind = true →
    call.stage = .made ∨ ∃ answer, call.stage = .finished answer
  unhurried : ∀ call ∈ w.calls, ∀ message, call.stage ≠ .waiting message
  orderly : ∀ intake, w.intake = some intake → intake.Orderly

theorem Attended.own (h : w.Attended) : ∀ call ∈ w.calls, ∀ message, call.stage = .waiting message →
    (call.asks kind = true ↔ message.kind = kind) := by
  intro call there message waits
  obtain ⟨log, tracked⟩ := h.tracked
  obtain ⟨i, found⟩ := List.getElem?_of_mem there
  obtain ⟨place, -, life⟩ := tracked.life (view_eq_some found)
  rw [waits] at life
  obtain ⟨request, form, errand, writes⟩ := life.miner_of_waiting
  rw [Request.kind_of_message? writes, Call.asks, errand, decide_eq_true_iff]

theorem filter_lose {letters : List Letter} (deaf : ∀ call ∈ w.calls, call.Deaf kind) :
    (w.lose letters).calls.filter (Call.asks kind) = w.calls.filter (Call.asks kind) := by
  induction letters generalizing w with
  | nil => rfl
  | cons letter rest ih =>
    obtain ⟨deaf, same⟩ := deaf_modify (receive_errand .lost)
      (fun _ quiet => Call.receive_of_ne_sent quiet _) deaf letter.sender
    exact (ih (w := w.deliver letter.sender .lost) deaf).trans same

/-! ## A gateway as one kind sees it -/

theorem Engine.only_only (engine : Engine) : (engine.only kind).only kind = engine.only kind := by
  cases engine with
  | sealer s => exact congrArg Engine.sealer s.only_only
  | _ => rfl

theorem only_engine (engine : w.engine = .sealer s) :
    (w.only kind).engine = .sealer (s.only kind) := by
  simp only [World.only, engine, Engine.only]

theorem only_intake (hi : w.intake = some intake) :
    (w.only kind).intake = some (intake.only kind) := by
  simp only [World.only, hi, Option.map_some]

theorem beginCalls_only (kind : Kind) (w : World) :
    w.beginCalls.only kind = (w.only kind).beginCalls.only kind := by
  have connected : (w.only kind).intake.isSome = w.intake.isSome := Option.isSome_map
  have begun : ((w.calls.map (Call.begun w.intake.isSome w.engine.hashrate)).filter
      (Call.asks kind))
      = (((w.calls.filter (Call.asks kind)).map
          (Call.begun w.intake.isSome (w.only kind).engine.hashrate)).filter (Call.asks kind)) := by
    rw [filter_map_asks (Call.begun_errand _ _), filter_map_asks (Call.begun_errand _ _),
      filter_filter_asks]
    apply List.map_congr_left
    intro call there
    obtain ⟨-, asks⟩ := List.mem_filter.mp there
    -- A miner's call begins in the same way at any rate.
    obtain ⟨errand, stage, reported⟩ := call
    cases stage with
    | made =>
      cases errand with
      | miner => rfl
      | _ => cases asks
    | _ => rfl
  have channels : (w.intake.map (Intake.only kind)).map (Intake.only kind)
      = w.intake.map (Intake.only kind) := by
    rw [Option.map_map]
    exact Option.map_congr fun intake _ => intake.only_only
  rw [beginCalls_eq, beginCalls_eq, connected, World.only, World.only]
  simp only [begun, only, Engine.only_only, channels]

theorem forecast_only_of_empty (h : w.Attended) (empty : w.queued = []) :
    w.forecast.only kind = (w.only kind).forecast.only kind := by
  obtain ⟨s, engine⟩ := h.sealer
  obtain ⟨intake, hi, -⟩ := h.sound
  have letters : intake.letters = [] := (queued_eq hi).symm.trans empty
  have engine' : (w.only kind).engine = .sealer (s.only kind) := only_engine engine
  have hi' : (w.only kind).intake = some intake.emptied := by
    rw [only_intake hi, Intake.only_of_empty letters]
  have channels : intake.only kind = intake.emptied.only kind := by
    rw [emptied_eq_self letters]
  by_cases opened : s.loop = .running ∧ intake.signalled = false
  · obtain ⟨state, calls⟩ := Sealer.attend_only s.caughtUp_only w.now h.own
    rw [forecast_open engine hi opened.1 opened.2, forecast_open engine' hi' opened.1 opened.2,
      served_eq_attend letters, served_eq_attend rfl]
    refine only_ext rfl (congrArg Engine.sealer (Sealer.tidied_congr state w.now))
      (congrArg some channels) rfl ?_ rfl
    exact (filter_filter_asks _).symm.trans (congrArg _ calls)
  · rw [forecast_closed engine hi opened, forecast_closed engine' hi' opened,
      World.dismissed, letters]
    refine only_ext rfl (congrArg Engine.sealer s.exit_only) rfl rfl ?_ rfl
    exact filter_map_filter (Call.dismiss_errand _) w.calls

theorem Calm.deaf (h : w.Calm kind) : ∀ call ∈ w.calls, call.Deaf kind := by
  intro call there asks sent
  rcases h.early call there asks with made | ⟨answer, finished⟩
  · cases made.symm.trans sent
  · cases finished.symm.trans sent

theorem waitingLetters_eq_nil {calls : List Call}
    (unhurried : ∀ call ∈ calls, ∀ message, call.stage ≠ .waiting message) :
    waitingLetters calls = [] := by
  apply List.eq_nil_iff_forall_not_mem.mpr
  intro letter there
  obtain ⟨call, found, waits⟩ := mem_waitingLetters.mp there
  exact unhurried call (List.mem_of_getElem? found) letter.message waits

/-- As long as the worker serves, it serves what is seen in the same way. -/
theorem Calm.forecast_only_of_open (h : w.Calm kind) (engine : w.engine = .sealer s)
    (hi : w.intake = some intake) (running : s.loop = .running) (quiet : intake.signalled = false) :
    w.forecast.only kind = (w.only kind).forecast.only kind := by
  have unhurried : ∀ call ∈ (w.only kind).calls, ∀ message, call.stage ≠ .waiting message :=
    fun call there => h.unhurried call (List.mem_filter.mp there).1
  have deaf : ∀ call ∈ w.calls.map Call.forward, call.Deaf kind := by
    intro call there asks sent
    obtain ⟨before, inside, rfl⟩ := List.mem_map.mp there
    have asked := (Call.asks_congr kind before.forward_errand).symm.trans asks
    rcases h.early before inside asked with made | ⟨answer, finished⟩
    · simp [Call.forward, made] at sent
    · simp [Call.forward, finished] at sent
  have deaf' : ∀ call ∈ (w.only kind).calls.map Call.forward, call.Deaf kind := by
    intro call there
    obtain ⟨before, inside, rfl⟩ := List.mem_map.mp there
    exact deaf _ (List.mem_map_of_mem (List.mem_filter.mp inside).1)
  have alike : (w.calls.map Call.forward).filter (Call.asks kind)
      = ((w.only kind).calls.map Call.forward).filter (Call.asks kind) :=
    filter_map_filter Call.forward_errand w.calls
  have letters : (ofKind kind (intake.unserved (waitingLetters w.calls))).map Letter.unsigned
      = (intake.only kind).unserved (waitingLetters (w.only kind).calls) := by
    rw [waitingLetters_eq_nil h.unhurried, waitingLetters_eq_nil unhurried, Intake.unserved_nil,
      Intake.unserved_nil, (h.orderly intake hi).ofKind_letters, Intake.letters_only]
  obtain ⟨state, calls⟩ := Sealer.serveAll_only s.caughtUp_only w.now deaf deaf' alike
    (intake.unserved (waitingLetters w.calls))
  rw [letters] at state calls
  rw [forecast_open engine hi running quiet,
    forecast_open (only_engine engine) (only_intake hi) running (intake.signalled_only.trans quiet)]
  refine only_ext rfl (congrArg Engine.sealer (Sealer.tidied_congr state w.now)) ?_ rfl calls rfl
  exact congrArg (some <| Intake.only kind ·) intake.emptied_only.symm

/-- Otherwise everyone is sent away, who is seen and who is not. -/
theorem Calm.forecast_only_of_closed (h : w.Calm kind) (engine : w.engine = .sealer s)
    (hi : w.intake = some intake) (closed : ¬(s.loop = .running ∧ intake.signalled = false)) :
    w.forecast.only kind = (w.only kind).forecast.only kind := by
  have signalled : (intake.only kind).signalled = intake.signalled := intake.signalled_only
  have lost : (w.lose intake.letters).calls.filter (Call.asks kind)
      = w.calls.filter (Call.asks kind) := filter_lose h.deaf
  have lost' : ((w.only kind).lose (intake.only kind).letters).calls.filter (Call.asks kind)
      = (w.only kind).calls.filter (Call.asks kind) :=
    filter_lose fun call there => h.deaf call (List.mem_filter.mp there).1
  rw [forecast_closed engine hi closed,
    forecast_closed (only_engine engine) (only_intake hi) fun running =>
    closed ⟨running.1, signalled.symm.trans running.2⟩]
  refine only_ext rfl (congrArg Engine.sealer s.exit_only) ?_ rfl ?_ rfl
  · exact congrArg (some <| Intake.only kind ·) intake.abandon_only.symm
  · calc ((w.lose intake.letters).calls.map (Call.dismiss intake.signalled)).filter (Call.asks kind)
        = (w.calls.filter (Call.asks kind)).map (Call.dismiss intake.signalled) := by
          rw [filter_map_asks (Call.dismiss_errand _), lost]
      _ = (((w.only kind).lose (intake.only kind).letters).calls.map
            (Call.dismiss (intake.only kind).signalled)).filter (Call.asks kind) := by
          rw [filter_map_asks (Call.dismiss_errand _), lost', World.only, filter_filter_asks,
            signalled]

/-- Before the calls made since begin, a gateway comes to rest as it is seen to. -/
theorem Calm.forecast_only (h : w.Calm kind) :
    w.forecast.only kind = (w.only kind).forecast.only kind := by
  obtain ⟨s, engine⟩ := h.attended.sealer
  obtain ⟨intake, hi, -⟩ := h.attended.sound
  by_cases opened : s.loop = .running ∧ intake.signalled = false
  · exact h.forecast_only_of_open engine hi opened.1 opened.2
  · exact h.forecast_only_of_closed engine hi opened

/-- Whatever was in the channels is gone when everything is at rest. -/
theorem queued_forecast (h : w.Attended) : w.forecast.queued = [] := by
  obtain ⟨s, engine⟩ := h.sealer
  obtain ⟨intake, hi, -⟩ := h.sound
  by_cases opened : s.loop = .running ∧ intake.signalled = false
  · rw [forecast_open engine hi opened.1 opened.2]
    rfl
  · rw [forecast_closed engine hi opened]
    rfl

theorem queued_settle (h : w.Attended) (sober : w.Sober) : w.settle.queued = [] := by
  have begun : w.quiesce.beginCalls.Attended := h.quiesce.beginCalls sober.quiesce
  rw [settle, quiesce_eq_forecast begun]
  exact queued_forecast begun

/-- **A gateway settles as it is seen to**, whatever else is asked of it. -/
theorem Calm.settle_only (h : w.Calm kind) :
    w.settle.only kind
      = ((((w.only kind).forecast.only kind).beginCalls.only kind).forecast.only kind) := by
  have begun : w.forecast.beginCalls.Attended := by
    rw [← quiesce_eq_forecast h.attended]
    exact h.attended.quiesce.beginCalls h.sober.quiesce
  have empty : w.forecast.beginCalls.queued = [] := by
    rw [beginCalls_eq]
    exact queued_forecast h.attended
  rw [settle_eq_forecast h.attended h.sober, forecast_only_of_empty begun empty, beginCalls_only,
    h.forecast_only]

/-- **What looks alike to one kind settles alike.** -/
theorem Calm.settle_congr (h : w.Calm kind) (h' : w'.Calm kind)
    (same : w.only kind = w'.only kind) :
    w.settle.only kind = w'.settle.only kind := by
  rw [h.settle_only, h'.settle_only, same]

theorem Attended.of_settled {log : List Event} (settled : w.Settled) (sound : w.Sound)
    (tracked : w.Tracked log) (attached : w.attached = true) (engine : w.engine = .sealer s) :
    w.Attended := by
  refine ⟨sound, ⟨log, tracked⟩, attached, ⟨s, engine⟩, ?_⟩
  intro i errand chain due
  obtain ⟨call, found, -, stage⟩ := exists_call due
  have none : w.engine.dues + w.calls.countP Call.isDue = 0 := settled.dues_eq_zero sound
  have idle := List.countP_eq_zero.mp (Nat.eq_zero_of_add_eq_zero_left none)
      call (List.mem_of_getElem? found)
  simp [Call.isDue, stage] at idle

theorem Calm.of_settled (h : w.Attended) (settled : w.Settled) : w.Calm kind := by
  obtain ⟨log, tracked⟩ := h.tracked
  obtain ⟨s, engine⟩ := h.sealer
  have finished : ∀ call ∈ w.calls, ∀ request form, call.errand = .miner request form →
      ∃ answer, call.stage = .finished answer := by
    intro call there request form miner
    obtain ⟨i, found⟩ := List.getElem?_of_mem there
    exact finished_of_settled settled h.sound tracked engine (miner ▸ view_eq_some found)
  refine ⟨h, ?_, ?_, ?_, ?_⟩
  · intro i interval made
    exact settled.begun tracked i _ made
  · intro call there asks
    obtain ⟨errand, stage, reported⟩ := call
    cases errand with
    | miner request form => exact .inr (finished _ there request form rfl)
    | _ => cases asks
  · intro call there message waits
    obtain ⟨i, found⟩ := List.getElem?_of_mem there
    obtain ⟨place, -, life⟩ := tracked.life (view_eq_some found)
    obtain ⟨request, form, miner, -⟩ := (waits ▸ life).miner_of_waiting
    obtain ⟨answer, told⟩ := finished call there request form miner
    cases told.symm.trans waits
  · intro intake hi
    have empty := letters_of_settled settled h.sound engine
    rw [queued_eq hi] at empty
    exact .of_empty empty

end World

end MinerGateway
