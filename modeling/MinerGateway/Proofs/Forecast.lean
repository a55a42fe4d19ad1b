import MinerGateway.Proofs.Channels
import MinerGateway.Proofs.InTurn

/-!
What a sealer's gateway comes to rest at.

Of a state it can be told in advance in which state nothing happens any more (`forecast`): as long
as the worker runs and the exit signal was not given, all tasks are taken up, all letters are served
kind by kind in the order of their channels and then of those who wait for room, and housekeeping is
done if it is due; otherwise everybody is told that the engine has stopped. A move does not change
the forecast (`forecast_move`), and where nothing moves the forecast has come true
(`forecast_of_idle`), so it is what `quiesce` leads to (`quiesce_eq_forecast`). How many letters a
channel holds does not enter into it.

Correspondence (what is left to do ↔ definition):
  the tasks that are queued                    ↔ `caughtUp`
  the letters in the channels                  ↔ `Intake.unserved`
  those who wait for room                      ↔ `waitingLetters`
  serving them, each seeing its reply          ↔ `serveAll`
  housekeeping                                 ↔ `tidied`

What is assumed: the sealer is held from outside, and no synthetic work is due (`Attended`). The
forecast is of one order of turns, that of `World.move`; in another order letters of different kinds
may be served in another order.
-/

namespace MinerGateway

namespace Call

def letter? (call : Call) (index : Nat) : Option Letter :=
  match call.stage with
  | .waiting message => some ⟨index, message⟩
  | _ => none

/-- The call with its letter handed over, or its reply seen. -/
def forward (call : Call) : Call :=
  match call.stage with
  | .waiting _ => { call with stage := .sent }
  | .replied reply => { call with stage := .finished (call.errand.answer reply) }
  | _ => call

/-- A reply comes in and is seen at once. -/
def conclude (reply : Reply) (call : Call) : Call :=
  match call.stage with
  | .sent => { call with stage := .finished (call.errand.answer reply) }
  | _ => call

/-- The call once nobody is at the other end of the channels. -/
def dismiss (signalled : Bool) (call : Call) : Call :=
  match call.stage with
  | .waiting _ => { call with stage := .finished (call.errand.answer .lost) }
  | .replied reply => { call with stage := .finished (call.errand.answer reply) }
  | .watching => if signalled then { call with stage := .finished .exited } else call
  | _ => call

theorem forward_receive {call : Call} (h : ∀ message, call.stage ≠ .waiting message)
    (reply : Reply) :
    (call.receive reply).forward = call.forward.conclude reply := by
  obtain ⟨errand, stage, reported⟩ := call
  cases stage with
  | waiting message => exact absurd rfl (h message)
  | _ => rfl

theorem letter?_receive (call : Call) (reply : Reply) (index : Nat) :
    (call.receive reply).letter? index = call.letter? index := by
  obtain ⟨errand, stage, reported⟩ := call
  cases stage <;> rfl

end Call

/-- The letters of those who wait for room, in the order of the calls. -/
def waitingLetters (calls : List Call) : List Letter :=
  calls.zipIdx.filterMap fun entry => entry.1.letter? entry.2

/-- The letters that are there to be served, in the order in which they are. -/
def Intake.unserved (intake : Intake) (waiting : List Letter) : List Letter :=
  intake.fetches ++ ofKind .fetch waiting
    ++ (intake.submissions ++ ofKind .submission waiting)
    ++ (intake.reports ++ ofKind .report waiting)

def Intake.emptied (intake : Intake) : Intake :=
  { intake with fetches := [], submissions := [], reports := [] }

namespace Sealer

/-- The sealer once it has taken up all tasks. -/
def caughtUp (s : Sealer) : Sealer :=
  { s with ledger := s.tasks.foldl Ledger.push s.ledger, tasks := [] }

/-- The sealer after housekeeping, if it is due. -/
def tidied (s : Sealer) (now : Nat) : Sealer :=
  if s.cleanupDue then { s with ledger := s.ledger.cleanup s.settings now, cleanupDue := false }
  else s

/-- Serves letters one after another. Each sender sees the reply. -/
def serveAll (now : Nat) : Sealer → List Call → List Letter → Sealer × List Call
  | s, calls, [] => (s, calls)
  | s, calls, letter :: rest =>
    serveAll now (s.serve now letter.message).1
      (calls.modify letter.sender (Call.conclude (s.serve now letter.message).2)) rest

end Sealer

namespace World

def tidiedTimers (w : World) (s : Sealer) : List Timer :=
  if s.cleanupDue then w.timers ++ [⟨w.now + s.settings.cleanupInterval, .worker⟩] else w.timers

def served (w : World) (s : Sealer) (intake : Intake) : World :=
  let (s', calls) := s.caughtUp.serveAll w.now (w.calls.map Call.forward)
    (intake.unserved (waitingLetters w.calls))
  { w with
    engine := .sealer (s'.tidied w.now)
    intake := some intake.emptied
    calls
    timers := w.tidiedTimers s }

/-- Nothing is served any more. -/
def dismissed (w : World) (s : Sealer) (intake : Intake) : World :=
  { w with
    engine := .sealer (if s.loop = .running then s.exit else s)
    intake := some intake.abandon
    calls := (w.lose intake.letters).calls.map (Call.dismiss intake.signalled) }

/-- The state of a sealer's gateway when nothing happens any more by itself. -/
def forecast (w : World) : World :=
  match w.engine, w.intake with
  | .sealer s, some intake =>
    if s.loop = .running ∧ intake.signalled = false then w.served s intake else w.dismissed s intake
  | _, _ => w

def NoneDue (w : World) : Prop :=
  ∀ i errand chain, w.view i ≠ some (errand, .producing chain true)

/-- A sealer that is held from outside, with no synthetic work due. -/
structure Attended (w : World) : Prop where
  sound : w.Sound
  tracked : ∃ log, w.Tracked log
  attached : w.attached = true
  sealer : ∃ s, w.engine = .sealer s
  idle : w.NoneDue

variable {w w' : World} {s : Sealer} {intake : Intake}

/-! ## Calls in a list -/

theorem map_modify_of_eq {α β : Type} {l : List α} {i : Nat} {a : α} {f : α → α} {g : α → β}
    (found : l[i]? = some a) (h : g (f a) = g a) : (l.modify i f).map g = l.map g := by
  apply List.ext_getElem?
  intro j
  rw [List.getElem?_map, List.getElem?_map, List.getElem?_modify]
  by_cases here : i = j
  · subst here
    simp [found, h]
  · simp [here]

theorem map_modify_eq {α β : Type} {f : α → α} {g : α → β} (h : ∀ a, g (f a) = g a) (l : List α)
    (i : Nat) : (l.modify i f).map g = l.map g := by
  cases found : l[i]? with
  | none => rw [List.modify_eq_self (List.getElem?_eq_none_iff.mp found)]
  | some a => exact map_modify_of_eq found (h a)

theorem mem_waitingLetters {calls : List Call} {letter : Letter} :
    letter ∈ waitingLetters calls ↔
      ∃ call, calls[letter.sender]? = some call ∧ call.stage = .waiting letter.message := by
  obtain ⟨i, message⟩ := letter
  simp only [waitingLetters, List.mem_filterMap, Prod.exists, List.mem_zipIdx_iff_getElem?]
  constructor
  · rintro ⟨call, j, found, own⟩
    unfold Call.letter? at own
    split at own
    · next waits =>
      obtain ⟨rfl, rfl⟩ := Letter.mk.inj (Option.some.inj own)
      exact ⟨call, found, waits⟩
    · cases own
  · rintro ⟨call, found, waits⟩
    refine ⟨call, i, found, ?_⟩
    simp only [Call.letter?, waits]

theorem waitingLetters_split {calls : List Call} {i : Nat} {call : Call}
    (found : calls[i]? = some call) :
    ∃ front back, (∀ letter ∈ front, letter.sender < i ∧ letter ∈ waitingLetters calls) ∧
      waitingLetters calls = front ++ (call.letter? i).toList ++ back ∧
      ∀ f : Call → Call, waitingLetters (calls.modify i f)
        = front ++ ((f call).letter? i).toList ++ back := by
  obtain ⟨inside, rfl⟩ := List.getElem?_eq_some_iff.mp found
  have parts : calls = calls.take i ++ calls[i] :: calls.drop (i + 1) := by
    rw [List.getElem_cons_drop, List.take_append_drop]
  have length : (calls.take i).length = i := List.length_take_of_le (Nat.le_of_lt inside)
  have line : ∀ other : Call, waitingLetters (calls.take i ++ other :: calls.drop (i + 1))
      = waitingLetters (calls.take i) ++ (other.letter? i).toList
        ++ ((calls.drop (i + 1)).zipIdx (i + 1)).filterMap fun entry =>
        entry.1.letter? entry.2 := by
    intro other
    unfold waitingLetters
    rw [List.zipIdx_append, List.filterMap_append, length, Nat.zero_add, List.zipIdx_cons,
      List.filterMap_cons, List.append_assoc]
    cases other.letter? i <;> simp only [Option.toList, List.nil_append, List.singleton_append]
  refine ⟨waitingLetters (calls.take i),
    ((calls.drop (i + 1)).zipIdx (i + 1)).filterMap fun entry => entry.1.letter? entry.2,
    ?_, ?_, ?_⟩
  · intro letter there
    obtain ⟨other, found', waits⟩ := mem_waitingLetters.mp there
    have less : letter.sender < i := by
      have := (List.getElem?_eq_some_iff.mp found').1
      omega
    rw [List.getElem?_take_of_lt less] at found'
    exact ⟨less, mem_waitingLetters.mpr ⟨other, found', waits⟩⟩
  · exact (congrArg waitingLetters parts).trans (line _)
  · intro f
    rw [← line (f calls[i]), List.modify_eq_take_cons_drop inside]

theorem waitingLetters_modify {calls : List Call} {i : Nat} {f : Call → Call}
    (h : ∀ call, calls[i]? = some call → (f call).letter? i = call.letter? i) :
    waitingLetters (calls.modify i f) = waitingLetters calls := by
  cases found : calls[i]? with
  | none => rw [List.modify_eq_self (List.getElem?_eq_none_iff.mp found)]
  | some call =>
    obtain ⟨front, back, -, line, modified⟩ := waitingLetters_split found
    rw [modified f, line, h call found]

/-! ## Moves of the calls -/

theorem forecast_open (engine : w.engine = .sealer s) (hi : w.intake = some intake)
    (running : s.loop = .running) (quiet : intake.signalled = false) :
    w.forecast = w.served s intake := by
  simp only [forecast, engine, hi, running, quiet, and_self, if_true]

theorem forecast_closed (engine : w.engine = .sealer s) (hi : w.intake = some intake)
    (closed : ¬(s.loop = .running ∧ intake.signalled = false)) :
    w.forecast = w.dismissed s intake := by
  simp only [forecast, engine, hi, if_neg closed]

/-- What becomes of a call in line is settled before it gets there. -/
theorem served_setStage {i : Nat} {call : Call} {stage : Stage} (found : w.calls[i]? = some call)
    (forward : ({ call with stage } : Call).forward = call.forward)
    (letter : ({ call with stage } : Call).letter? i = call.letter? i) :
    (w.setStage i stage).served s intake = w.served s intake := by
  have line : waitingLetters (w.setStage i stage).calls = waitingLetters w.calls := by
    apply waitingLetters_modify
    intro other found'
    obtain rfl := Option.some.inj (found.symm.trans found')
    exact letter
  have calls : (w.setStage i stage).calls.map Call.forward = w.calls.map Call.forward :=
    map_modify_of_eq (f := fun call => { call with stage }) found forward
  unfold served
  rw [line, calls]
  rfl

theorem dismissed_setStage {i : Nat} {call : Call} {stage : Stage} (found : w.calls[i]? = some call)
    (h : ({ call with stage } : Call).dismiss intake.signalled = call.dismiss intake.signalled)
    (lost : (({ call with stage } : Call).receive .lost).dismiss intake.signalled
      = (call.receive .lost).dismiss intake.signalled) :
    (w.setStage i stage).dismissed s intake = w.dismissed s intake := by
  have calls : ((w.setStage i stage).lose intake.letters).calls.map (Call.dismiss intake.signalled)
      = (w.lose intake.letters).calls.map (Call.dismiss intake.signalled) := by
    apply List.ext_getElem?
    intro j
    rw [List.getElem?_map, List.getElem?_map, getElem?_lose, getElem?_lose, getElem?_setStage]
    by_cases here : i = j
    · subst here
      split <;> simp [found, h, lost]
    · simp only [here, if_false]
  unfold dismissed
  rw [calls]
  rfl

/-- How a call finishes on its turn. -/
inductive Finishes (w : World) (call : Call) : Answer → Prop where
  | learn {reply} (h : call.stage = .replied reply) : w.Finishes call (call.errand.answer reply)
  | refused {message} (h : call.stage = .waiting message)
      (closed : ∀ intake, w.intake = some intake → (intake.signalled || !intake.attended) = true) :
    w.Finishes call (call.errand.answer .lost)
  | exited (h : call.stage = .watching) (signalled : w.isSignalled = true) : w.Finishes call .exited

theorem forecast_finish (sound : w.Sound) (engine : w.engine = .sealer s) {i : Nat} {call : Call}
    (found : w.calls[i]? = some call) {answer : Answer} (h : w.Finishes call answer) :
    (w.finish i answer).forecast = w.forecast := by
  obtain ⟨intake, hi, sound⟩ := sound
  have engine' : (w.finish i answer).engine = .sealer s := engine
  have hi' : (w.finish i answer).intake = some intake := hi
  obtain ⟨errand, stage, reported⟩ := call
  by_cases opened : s.loop = .running ∧ intake.signalled = false
  · obtain ⟨running, quiet⟩ := opened
    have attended : intake.attended = true := (sound.attended_iff s engine).mpr running
    rw [forecast_open engine' hi' running quiet, forecast_open engine hi running quiet]
    cases h with
    | learn h =>
      obtain rfl := h
      exact served_setStage found rfl rfl
    | refused _ closed =>
      have closed := closed intake hi
      rw [quiet, attended] at closed
      cases closed
    | exited _ signalled =>
      rw [isSignalled_eq hi, quiet] at signalled
      cases signalled
  · rw [forecast_closed engine' hi' opened, forecast_closed engine hi opened]
    cases h with
    | learn h =>
      obtain rfl := h
      exact dismissed_setStage found rfl rfl
    | refused h =>
      obtain rfl := h
      exact dismissed_setStage found rfl rfl
    | exited h signalled =>
      obtain rfl := h
      rw [isSignalled_eq hi] at signalled
      apply dismissed_setStage found <;> simp [Call.dismiss, Call.receive, signalled]

theorem emptied_put (intake : Intake) (letter : Letter) :
    (intake.put letter).emptied = intake.emptied := by
  obtain ⟨sender, message⟩ := letter
  cases message <;> rfl

theorem unserved_put {front back : List Letter} {letter : Letter}
    (first : ofKind letter.kind front = []) :
    (intake.put letter).unserved (front ++ back) = intake.unserved (front ++ letter :: back) := by
  have moved : ∀ kind, (intake.put letter).queue kind ++ ofKind kind (front ++ back)
      = intake.queue kind ++ ofKind kind (front ++ letter :: back) := by
    intro kind
    rw [Intake.queue_put, ofKind_append, ofKind_append]
    by_cases same : kind = letter.kind
    · subst same
      have here : ofKind letter.kind (letter :: back) = letter :: ofKind letter.kind back :=
        List.filter_cons_of_pos (by simp)
      rw [first, here, if_pos rfl, List.append_assoc]
      rfl
    · have away : ofKind kind (letter :: back) = ofKind kind back :=
        List.filter_cons_of_neg (by simpa using Ne.symm same)
      rw [away, if_neg same, List.append_nil]
  have fetches := moved .fetch
  have submissions := moved .submission
  have reports := moved .report
  simp only [Intake.queue] at fetches submissions reports
  simp only [Intake.unserved, fetches, submissions, reports]

/-- A call that gets room, and has waited longest for it, is served when it was foreseen. -/
theorem forecast_enter {i : Nat} {call : Call} {message : Message} (engine : w.engine = .sealer s)
    (hi : w.intake = some intake) (running : s.loop = .running) (quiet : intake.signalled = false)
    (found : w.calls[i]? = some call) (waits : call.stage = .waiting message)
    (first : ∀ letter ∈ waitingLetters w.calls, letter.kind = message.kind → i ≤ letter.sender) :
    ({ w with intake := some (intake.put ⟨i, message⟩) }.setStage i .sent).forecast
      = w.forecast := by
  have still : (intake.put ⟨i, message⟩).signalled = false := quiet ▸ Intake.signalled_put
  let next := { w with intake := some (intake.put ⟨i, message⟩) }.setStage i .sent
  have foreseen : next.forecast = next.served s (intake.put ⟨i, message⟩) :=
    forecast_open engine rfl running still
  refine foreseen.trans ?_
  rw [forecast_open engine hi running quiet]
  obtain ⟨front, back, earlier, line, modified⟩ := waitingLetters_split found
  have own : call.letter? i = some ⟨i, message⟩ := by simp only [Call.letter?, waits]
  have nobody : ofKind (Letter.mk i message).kind front = [] := by
    apply List.filter_eq_nil_iff.mpr
    intro letter there same
    obtain ⟨less, waiting⟩ := earlier letter there
    exact absurd (first letter waiting (of_decide_eq_true same)) (Nat.not_le_of_lt less)
  have line' : waitingLetters (w.setStage i .sent).calls = front ++ back := by
    have gone := modified fun call => { call with stage := .sent }
    rw [show (({ call with stage := .sent } : Call).letter? i).toList = [] from rfl,
      List.append_nil] at gone
    exact gone
  have letters : (intake.put ⟨i, message⟩).unserved (waitingLetters (w.setStage i .sent).calls)
      = intake.unserved (waitingLetters w.calls) := by
    rw [line', line, own, unserved_put nobody]
    simp
  have calls : (w.setStage i .sent).calls.map Call.forward = w.calls.map Call.forward :=
    map_modify_of_eq (f := fun call => { call with stage := .sent }) found
      (by simp only [Call.forward, waits])
  unfold served
  rw [← letters, ← calls, emptied_put]
  rfl

/-! ## Moves of the worker -/

theorem caughtUp_of_nil (queue : s.tasks = []) : s.caughtUp = s := by
  obtain ⟨settings, verifier, ledger, tasks, outbox, loop, cleanupDue, joined⟩ := s
  obtain rfl : tasks = [] := queue
  rfl

theorem serve_tasks (queue : s.tasks = []) (now : Nat) (message : Message) :
    (s.serve now message).1.tasks = [] := by
  rw [(s.serve_frame now message).2.1, queue]

/-- The letter that the worker takes is the first that is there to be served, as long as nobody
waits in front of an empty channel. -/
theorem unserved_next {rest : Intake} {letter : Letter} {waiting : List Letter}
    (next : intake.next = some (letter, rest))
    (nobody : ∀ kind, intake.queue kind = [] → ofKind kind waiting = []) :
    intake.unserved waiting = letter :: rest.unserved waiting ∧ rest.emptied = intake.emptied := by
  have taken : ∀ {kind}, intake.take kind = some (letter, rest) →
      intake.queue kind = letter :: rest.queue kind ∧
      rest = intake.setQueue (rest.queue kind) kind := by
    intro kind h
    unfold Intake.take at h
    split at h
    · cases h
    · next queue =>
      obtain ⟨rfl, rfl⟩ := Prod.mk.inj (Option.some.inj h)
      rw [Intake.queue_setQueue, if_pos rfl]
      exact ⟨queue, rfl⟩
  have empty : ∀ {kind}, intake.take kind = none → intake.queue kind = [] := by
    intro kind h
    unfold Intake.take at h
    split at h
    · assumption
    · cases h
  rcases Option.or_eq_some_iff.mp next with h | ⟨none, h⟩
  · obtain ⟨queue, same⟩ := taken h
    simp only [Intake.queue] at queue same
    rw [same, Intake.unserved, Intake.unserved, queue]
    exact ⟨rfl, rfl⟩
  have fetches := nobody .fetch (empty none)
  have queue := empty none
  rcases Option.or_eq_some_iff.mp h with h | ⟨none, h⟩
  · obtain ⟨queue', same⟩ := taken h
    simp only [Intake.queue] at queue queue' same
    rw [same, Intake.unserved, Intake.unserved, queue, queue', fetches]
    refine ⟨?_, rfl⟩
    simp [Intake.setQueue, queue]
  have submissions := nobody .submission (empty none)
  have queue' := empty none
  obtain ⟨queue'', same⟩ := taken h
  simp only [Intake.queue] at queue queue' queue'' same
  rw [same, Intake.unserved, Intake.unserved, queue, queue', queue'', fetches, submissions]
  refine ⟨?_, rfl⟩
  simp [Intake.setQueue, queue, queue']

theorem forecast_handle {task : Task} {tasks : List Task} (working : w.Working s intake)
    (quiet : intake.signalled = false) (queue : s.tasks = task :: tasks) :
    ({ w with engine := .sealer { s with ledger := s.ledger.push task, tasks } } : World).forecast
      = w.forecast := by
  let next : World := { w with engine := .sealer { s with ledger := s.ledger.push task, tasks } }
  have foreseen : next.forecast
      = next.served { s with ledger := s.ledger.push task, tasks } intake :=
    forecast_open rfl working.intake working.loop quiet
  refine foreseen.trans ?_
  rw [forecast_open working.engine working.intake working.loop quiet]
  have same : ({ s with ledger := s.ledger.push task, tasks } : Sealer).caughtUp = s.caughtUp := by
    rw [Sealer.caughtUp, Sealer.caughtUp, queue]
    rfl
  unfold served
  rw [same]
  rfl

theorem map_forward_deliver {calls : List Call} {i : Nat} (reply : Reply)
    (served : ∀ call, calls[i]? = some call → ∀ message, call.stage ≠ .waiting message) :
    (calls.modify i (Call.receive reply)).map Call.forward
      = (calls.map Call.forward).modify i (Call.conclude reply) := by
  apply List.ext_getElem?
  intro j
  rw [List.getElem?_map, List.getElem?_modify, List.getElem?_modify, List.getElem?_map]
  by_cases here : i = j
  · subst here
    cases found : calls[i]? with
    | none => rfl
    | some call => simp [Call.forward_receive (served call found)]
  · simp only [here, if_false]
    cases calls[j]? <;> rfl

theorem forecast_serve {rest : Intake} {letter : Letter} (working : w.Working s intake)
    (quiet : intake.signalled = false) (queue : s.tasks = [])
    (next : intake.next = some (letter, rest))
    (nobody : ∀ kind, intake.queue kind = [] → ofKind kind (waitingLetters w.calls) = [])
    (sent : ∀ call, w.calls[letter.sender]? = some call →
      ∀ message, call.stage ≠ .waiting message) :
    ({ w with engine := .sealer (s.serve w.now letter.message).1, intake := some rest }.deliver
      letter.sender (s.serve w.now letter.message).2).forecast = w.forecast := by
  obtain ⟨loop, -, due, settings, -⟩ := s.serve_frame w.now letter.message
  obtain ⟨kind, taken⟩ := Intake.next_eq_some next
  obtain ⟨-, signalled, -⟩ := Intake.take_frame taken
  obtain ⟨letters, emptied⟩ := unserved_next next nobody
  let w' : World :=
    { w with engine := .sealer (s.serve w.now letter.message).1, intake := some rest }.deliver
      letter.sender (s.serve w.now letter.message).2
  have foreseen : w'.forecast = w'.served (s.serve w.now letter.message).1 rest :=
    forecast_open rfl rfl (loop.trans working.loop) (signalled.trans quiet)
  refine foreseen.trans ?_
  rw [forecast_open working.engine working.intake working.loop quiet]
  have line : waitingLetters w'.calls = waitingLetters w.calls := by
    apply waitingLetters_modify
    intro call _
    exact Call.letter?_receive call _ _
  have calls : w'.calls.map Call.forward
      = (w.calls.map Call.forward).modify letter.sender
          (Call.conclude (s.serve w.now letter.message).2) :=
    map_forward_deliver _ sent
  have timers : w'.tidiedTimers (s.serve w.now letter.message).1 = w.tidiedTimers s := by
    unfold tidiedTimers
    rw [due, settings]
    rfl
  unfold served
  rw [line, calls, timers, letters, emptied, caughtUp_of_nil queue,
    caughtUp_of_nil (serve_tasks queue _ _)]
  rfl

theorem forecast_clean (working : w.Working s intake) (quiet : intake.signalled = false)
    (queue : s.tasks = []) (next : intake.next = none) (due : s.cleanupDue = true)
    (nobody : waitingLetters w.calls = []) :
    ({ w with
        engine := .sealer { s with
          ledger := s.ledger.cleanup s.settings w.now, cleanupDue := false } }.setTimer
      (w.now + s.settings.cleanupInterval) .worker).forecast = w.forecast := by
  let tidy : Sealer := { s with ledger := s.ledger.cleanup s.settings w.now, cleanupDue := false }
  let w' : World :=
    { w with engine := .sealer tidy }.setTimer (w.now + s.settings.cleanupInterval) .worker
  have foreseen : w'.forecast = w'.served tidy intake :=
    forecast_open rfl working.intake working.loop quiet
  refine foreseen.trans ?_
  rw [forecast_open working.engine working.intake working.loop quiet]
  have letters : intake.unserved [] = [] := by
    have none := Intake.letters_eq_nil_of_next next
    rw [Intake.letters, List.append_eq_nil_iff, List.append_eq_nil_iff] at none
    simp [Intake.unserved, none]
  have line : waitingLetters w'.calls = [] := nobody
  have caught : tidy.caughtUp = tidy := caughtUp_of_nil queue
  have tidied : s.tidied w.now = tidy := if_pos due
  have timers : w.tidiedTimers s = w'.timers := if_pos due
  unfold served
  rw [line, nobody, letters, caught, caughtUp_of_nil queue, timers]
  simp only [Sealer.serveAll]
  rw [tidied]
  rfl

theorem lose_eq (letters : List Letter) (w : World) :
    w.lose letters = { w with calls := (w.lose letters).calls } := by
  induction letters generalizing w with
  | nil => rfl
  | cons letter rest ih => exact ih (w.deliver letter.sender .lost)

/-- Who loses a letter does not depend on the engine or the channels. -/
theorem lose_calls_congr {letters : List Letter} (calls : w'.calls = w.calls) :
    (w'.lose letters).calls = (w.lose letters).calls := by
  apply List.ext_getElem?
  intro j
  rw [getElem?_lose, getElem?_lose, calls]

theorem forecast_quit (working : w.Working s intake) (signalled : intake.signalled = true) :
    ({ w with
        engine := .sealer s.exit, intake := some intake.abandon }.lose intake.letters).forecast
      = w.forecast := by
  have closed : ¬(s.loop = .running ∧ intake.signalled = false) := by simp [signalled]
  have ended : ¬(s.exit.loop = .running ∧ intake.abandon.signalled = false) := by simp [Sealer.exit]
  rw [forecast_closed working.engine working.intake closed, lose_eq]
  let exited : World := { w with engine := .sealer s.exit, intake := some intake.abandon }
  let next : World := { exited with calls := (exited.lose intake.letters).calls }
  have foreseen : next.forecast = next.dismissed s.exit intake.abandon :=
    forecast_closed rfl rfl ended
  refine foreseen.trans ?_
  have lost : (exited.lose intake.letters).calls = (w.lose intake.letters).calls :=
    lose_calls_congr rfl
  have calls : (next.lose intake.abandon.letters).calls = (w.lose intake.letters).calls := lost
  unfold dismissed
  rw [calls, if_pos working.loop]
  rfl

/-! ## Every move was foreseen -/

theorem callMove_eq_none {i : Nat} {call : Call} (h : w.callMove i call = none)
    (hi : w.intake = some intake) :
    (∀ reply, call.stage ≠ .replied reply) ∧
      (∀ message, call.stage = .waiting message →
        (intake.signalled || !intake.attended) = false ∧ intake.hasRoom message.kind 0 = false) ∧
      (call.stage = .watching → intake.signalled = false) := by
  obtain ⟨errand, stage, reported⟩ := call
  cases stage with
  | waiting message =>
    simp only [callMove, hi] at h
    split at h
    · cases h
    next opened =>
    split at h
    · cases h
    next full =>
    refine ⟨by simp, ?_, by simp⟩
    intro other same
    obtain rfl := Stage.waiting.inj same
    exact ⟨Bool.eq_false_iff.mpr opened, Bool.eq_false_iff.mpr full⟩
  | replied reply => cases h
  | watching =>
    simp only [callMove] at h
    split at h
    · cases h
    next quiet =>
    rw [isSignalled_eq hi] at quiet
    exact ⟨by simp, by simp, fun _ => Bool.eq_false_iff.mpr quiet⟩
  | made | sent | producing | finished => exact ⟨by simp, by simp, by simp⟩

theorem callMove_of_anyCallMove (h : w.anyCallMove = none) {i : Nat} {call : Call}
    (found : w.calls[i]? = some call) : w.callMove i call = none :=
  List.findSome?_eq_none_iff.mp h (call, i) (List.mem_zipIdx_iff_getElem?.mpr found)

/-- Where no call can do anything, nobody waits in front of an empty channel. -/
theorem nobody_waits (h : w.anyCallMove = none) (hi : w.intake = some intake)
    (capacity : 0 < intake.capacity) (kind : Kind) (empty : intake.queue kind = []) :
    ofKind kind (waitingLetters w.calls) = [] := by
  apply List.filter_eq_nil_iff.mpr
  intro letter there same
  obtain ⟨call, found, waits⟩ := mem_waitingLetters.mp there
  obtain ⟨-, full, -⟩ := callMove_eq_none (callMove_of_anyCallMove h found) hi
  have full := (full _ waits).2
  obtain rfl : letter.kind = kind := of_decide_eq_true same
  simp only [Intake.hasRoom, empty, List.length_nil, decide_eq_false_iff_not] at full
  omega

theorem eq_nil_of_kinds {letters : List Letter} (h : ∀ kind, ofKind kind letters = []) :
    letters = [] := by
  apply List.eq_nil_iff_forall_not_mem.mpr
  intro letter there
  have own : letter ∈ ofKind letter.kind letters := mem_ofKind.mpr ⟨there, rfl⟩
  rw [h] at own
  cases own

theorem Attended.sent (h : w.Attended) {letter : Letter} (there : letter ∈ w.queued) (call : Call)
    (found : w.calls[letter.sender]? = some call) (message : Message) :
    call.stage ≠ .waiting message := by
  obtain ⟨log, tracked⟩ := h.tracked
  obtain ⟨place, lies, life⟩ := tracked.life (view_eq_some found)
  have queued : Lies w.queued w.held letter.sender (.queued letter.message) := there
  obtain rfl := lies.unique tracked.senders queued
  intro waits
  rcases life.stage_of_message? rfl with sent | aborted
  · rw [waits] at sent
    cases sent
  · rw [waits] at aborted
    cases aborted

theorem callMove_eq_some {i : Nat} {call : Call} (turn : w.callMove i call = some w')
    (idle : ∀ chain, call.stage ≠ .producing chain true) :
    (∃ answer, w.Finishes call answer ∧ w' = w.finish i answer) ∨
      ∃ message intake, call.stage = .waiting message ∧ w.intake = some intake ∧
        intake.signalled = false ∧ intake.attended = true ∧ intake.hasRoom message.kind 0 = true ∧
        w' = { w with intake := some (intake.put ⟨i, message⟩) }.setStage i .sent := by
  obtain ⟨errand, stage, reported⟩ := call
  cases stage with
  | waiting message =>
    simp only [callMove] at turn
    split at turn
    · next hi => exact .inl ⟨_, .refused rfl (by simp [hi]), (Option.some.inj turn).symm⟩
    next intake hi =>
    split at turn
    · next closed =>
      refine .inl ⟨_, .refused rfl ?_, (Option.some.inj turn).symm⟩
      intro other hi'
      exact Option.some.inj (hi.symm.trans hi') ▸ closed
    next opened =>
    split at turn
    · next room =>
      simp only [Bool.or_eq_true, not_or, Bool.not_eq_true, Bool.not_eq_false'] at opened
      exact .inr ⟨message, intake, rfl, hi, opened.1, opened.2, room, (Option.some.inj turn).symm⟩
    · cases turn
  | replied reply => exact .inl ⟨_, .learn rfl, (Option.some.inj turn).symm⟩
  | watching =>
    simp only [callMove] at turn
    split at turn
    · next signalled => exact .inl ⟨_, .exited rfl signalled, (Option.some.inj turn).symm⟩
    · cases turn
  | producing chain due =>
    cases due with
    | true => exact absurd rfl (idle chain)
    | false => cases turn
  | made | sent | finished => cases turn

theorem forecast_anyCallMove (h : w.Attended) (turn : w.anyCallMove = some w') :
    w'.forecast = w.forecast := by
  obtain ⟨s, engine⟩ := h.sealer
  obtain ⟨i, call, found, turn, first⟩ := anyCallMove_eq_some turn
  have idle : ∀ chain, call.stage ≠ .producing chain true := by
    intro chain due
    exact h.idle i call.errand chain (due ▸ view_eq_some found)
  rcases callMove_eq_some turn idle with ⟨answer, finishes, rfl⟩ |
    ⟨message, intake, waits, hi, quiet, attended, room, rfl⟩
  · exact forecast_finish h.sound engine found finishes
  · obtain ⟨intake', hi', sound⟩ := h.sound
    obtain rfl := Option.some.inj (hi.symm.trans hi')
    apply forecast_enter engine hi ((sound.attended_iff s engine).mp attended) quiet found waits
    -- Whoever waits in the same line could take the turn as well.
    intro letter there kind
    obtain ⟨other, found', waits'⟩ := mem_waitingLetters.mp there
    apply first letter.sender other found'
    have same : letter.message.kind = message.kind := kind
    simp [callMove, waits', hi, quiet, attended, same, room]

theorem forecast_workerMove (h : w.Attended) (rest : w.anyCallMove = none)
    (turn : w.workerMove = some w') : w'.forecast = w.forecast := by
  obtain ⟨intake₀, hi₀, sound⟩ := h.sound
  unfold workerMove at turn
  split at turn
  · next s intake engine hi =>
    obtain rfl := Option.some.inj (hi₀.symm.trans hi)
    have nobody := nobody_waits rest hi sound.capacity_pos
    split at turn
    · cases turn
    next loop =>
    have working : w.Working s intake₀ := ⟨engine, hi, Decidable.not_not.mp loop⟩
    split at turn
    · next signalled =>
      obtain rfl := Option.some.inj turn
      exact forecast_quit working signalled
    next quiet =>
    have quiet : intake₀.signalled = false := Bool.eq_false_iff.mpr quiet
    split at turn
    · next queue =>
      obtain rfl := Option.some.inj turn
      exact forecast_handle working quiet queue
    next queue =>
    split at turn
    · next letter others next =>
      obtain rfl := Option.some.inj turn
      obtain ⟨kind, taken⟩ := Intake.next_eq_some next
      have there : letter ∈ w.queued := by
        rw [queued_eq hi]
        exact (Intake.letters_take_perm taken).mem_iff.mpr List.mem_cons_self
      exact forecast_serve working quiet queue next nobody (h.sent there)
    next next =>
    split at turn
    · next due =>
      obtain rfl := Option.some.inj turn
      apply forecast_clean working quiet queue next due
      apply eq_nil_of_kinds
      intro kind
      apply nobody
      have empty := Intake.letters_eq_nil_of_next next
      rw [Intake.letters, List.append_eq_nil_iff, List.append_eq_nil_iff] at empty
      cases kind with
      | fetch => exact empty.1.1
      | submission => exact empty.1.2
      | report => exact empty.2
    · cases turn
  · cases turn

theorem Attended.releaseMove (h : w.Attended) : w.releaseMove = none := by
  obtain ⟨s, engine⟩ := h.sealer
  have held : w.isOrphaned = false := by simp [isOrphaned, engine, h.attached]
  simp [World.releaseMove, held]

/-- **The next thing that happens was foreseen.** -/
theorem forecast_move (h : w.Attended) (next : w.move = some w') : w'.forecast = w.forecast := by
  rw [move, Option.or_eq_some_iff] at next
  rcases next with turn | ⟨rest, next⟩
  · exact forecast_anyCallMove h turn
  rcases Option.or_eq_some_iff.mp next with turn | ⟨-, turn⟩
  · exact forecast_workerMove h rest turn
  · rw [h.releaseMove] at turn
    cases turn

/-! ## Coming to rest -/

theorem NoneDue.setStage (h : w.NoneDue) (i : Nat) {stage : Stage}
    (other : ∀ chain, stage ≠ .producing chain true) : (w.setStage i stage).NoneDue := by
  intro j errand chain hj
  rw [view_setStage] at hj
  split at hj
  · obtain ⟨v, -, same⟩ := Option.map_eq_some_iff.mp hj
    exact other chain (Prod.mk.inj same).2
  · exact h j errand chain hj

theorem NoneDue.deliver (h : w.NoneDue) (i : Nat) (reply : Reply) :
    (w.deliver i reply).NoneDue := by
  intro j errand chain hj
  rw [view_deliver] at hj
  split at hj
  · exact h j errand chain (view_of_receive hj (by simp))
  · exact h j errand chain hj

theorem NoneDue.lose (h : w.NoneDue) (letters : List Letter) : (w.lose letters).NoneDue := by
  intro j errand chain hj
  rw [view_lose] at hj
  split at hj
  · exact h j errand chain (view_of_receive hj (by simp))
  · exact h j errand chain hj

theorem NoneDue.workerMove (h : w.NoneDue) (turn : w.workerMove = some w') : w'.NoneDue := by
  unfold World.workerMove at turn
  split at turn
  · next s intake engine hi =>
    split at turn
    · cases turn
    split at turn
    · obtain rfl := Option.some.inj turn
      exact NoneDue.lose
        (w := { w with engine := .sealer s.exit, intake := some intake.abandon }) h _
    split at turn
    · obtain rfl := Option.some.inj turn
      exact h
    split at turn
    · next letter rest _ =>
      obtain rfl := Option.some.inj turn
      exact NoneDue.deliver (w := { w with
        engine := .sealer (s.serve w.now letter.message).1, intake := some rest }) h _ _
    split at turn
    · obtain rfl := Option.some.inj turn
      exact h
    · cases turn
  · cases turn

theorem NoneDue.move (h : w.NoneDue) (next : w.move = some w') : w'.NoneDue := by
  rw [World.move, Option.or_eq_some_iff] at next
  rcases next with turn | ⟨-, next⟩
  · obtain ⟨i, call, found, turn, -⟩ := anyCallMove_eq_some turn
    have idle : ∀ chain, call.stage ≠ .producing chain true := by
      intro chain due
      exact h i call.errand chain (due ▸ view_eq_some found)
    rcases callMove_eq_some turn idle with ⟨answer, -, rfl⟩ | ⟨message, intake, -, -, -, -, -, rfl⟩
    · exact h.setStage i (by simp)
    · exact NoneDue.setStage (w := { w with intake := some (intake.put ⟨i, message⟩) })
        h i (by simp)
  rcases Option.or_eq_some_iff.mp next with turn | ⟨-, turn⟩
  · exact h.workerMove turn
  · unfold releaseMove at turn
    split at turn
    · obtain rfl := Option.some.inj turn
      exact h
    · cases turn

theorem attached_move {e : Event} (step : Move w e w') : w'.attached = w.attached := by
  cases step with
  | produce _ _ _ pushed =>
    obtain ⟨_, -, -, -, rfl⟩ := pushTask_eq_ok pushed
    rfl
  | quit => exact lose_attached ..
  | advance | enter | handle | serve | clean | release => rfl

theorem Attended.move (h : w.Attended) (next : w.move = some w') : w'.Attended := by
  obtain ⟨e, step⟩ := move_move next
  obtain ⟨log, tracked⟩ := h.tracked
  obtain ⟨s, engine⟩ := h.sealer
  obtain ⟨s', engine', -⟩ := takes_move step tracked engine
  exact ⟨sound_move step h.sound, ⟨_, tracked_move step tracked⟩,
    (attached_move step).trans h.attached, ⟨s', engine'⟩, h.idle.move next⟩

theorem map_eq_self {α : Type} {f : α → α} {l : List α} (h : ∀ a ∈ l, f a = a) : l.map f = l :=
  (List.map_congr_left h).trans (List.map_id' l)

theorem workerMove_eq_none (rest : w.workerMove = none) (engine : w.engine = .sealer s)
    (hi : w.intake = some intake) (running : s.loop = .running) :
    intake.signalled = false ∧ s.tasks = [] ∧ intake.letters = [] ∧ s.cleanupDue = false := by
  simp only [workerMove, engine, hi, running, ne_eq, not_true_eq_false, if_false] at rest
  split at rest
  · cases rest
  next quiet =>
  split at rest
  · cases rest
  next queue =>
  split at rest
  · cases rest
  next next =>
  split at rest
  · cases rest
  · next tidy =>
    exact ⟨Bool.eq_false_iff.mpr quiet, queue, Intake.letters_eq_nil_of_next next,
      Bool.eq_false_iff.mpr tidy⟩

theorem empty_of_letters (h : intake.letters = []) :
    intake.fetches = [] ∧ intake.submissions = [] ∧ intake.reports = [] := by
  rw [Intake.letters, List.append_eq_nil_iff, List.append_eq_nil_iff] at h
  exact ⟨h.1.1, h.1.2, h.2⟩

theorem emptied_eq_self (h : intake.letters = []) : intake.emptied = intake := by
  obtain ⟨capacity, fetches, submissions, reports, signalled, attended⟩ := intake
  obtain ⟨rfl, rfl, rfl⟩ := empty_of_letters h
  rfl

theorem abandon_eq_self (h : intake.letters = []) (gone : intake.attended = false) :
    intake.abandon = intake := by
  obtain ⟨capacity, fetches, submissions, reports, signalled, attended⟩ := intake
  obtain ⟨rfl, rfl, rfl⟩ := empty_of_letters h
  obtain rfl : attended = false := gone
  rfl

theorem forward_of_idle (rest : w.anyCallMove = none) (hi : w.intake = some intake)
    (line : waitingLetters w.calls = []) : w.calls.map Call.forward = w.calls := by
  apply map_eq_self
  intro call there
  obtain ⟨i, found⟩ := List.getElem?_of_mem there
  obtain ⟨unreplied, -, -⟩ := callMove_eq_none (callMove_of_anyCallMove rest found) hi
  have served : ∀ message, call.stage ≠ .waiting message := by
    intro message waits
    have inLine : (⟨i, message⟩ : Letter) ∈ waitingLetters w.calls :=
      mem_waitingLetters.mpr ⟨call, found, waits⟩
    rw [line] at inLine
    cases inLine
  obtain ⟨errand, stage, reported⟩ := call
  cases stage with
  | waiting message => exact absurd rfl (served message)
  | replied reply => exact absurd rfl (unreplied reply)
  | _ => rfl

theorem dismiss_of_idle (rest : w.anyCallMove = none) (hi : w.intake = some intake)
    (gone : intake.attended = false) : w.calls.map (Call.dismiss intake.signalled) = w.calls := by
  apply map_eq_self
  intro call there
  obtain ⟨i, found⟩ := List.getElem?_of_mem there
  obtain ⟨unreplied, waits, watches⟩ := callMove_eq_none (callMove_of_anyCallMove rest found) hi
  obtain ⟨errand, stage, reported⟩ := call
  cases stage with
  | waiting message =>
    have opened := (waits message rfl).1
    simp [gone] at opened
  | replied reply => exact absurd rfl (unreplied reply)
  | watching => simp [Call.dismiss, watches rfl]
  | _ => rfl

/-- Where nothing moves, the forecast has come true. -/
theorem forecast_of_idle (h : w.Attended) (rest : w.move = none) : w.forecast = w := by
  obtain ⟨s, engine⟩ := h.sealer
  obtain ⟨intake, hi, sound⟩ := h.sound
  rw [move, Option.or_eq_none_iff, Option.or_eq_none_iff] at rest
  obtain ⟨calls, worker, -⟩ := rest
  by_cases running : s.loop = .running
  · obtain ⟨quiet, queue, letters, tidy⟩ := workerMove_eq_none worker engine hi running
    obtain ⟨fetches, submissions, reports⟩ := empty_of_letters letters
    have line : waitingLetters w.calls = [] := by
      apply eq_nil_of_kinds
      intro kind
      apply nobody_waits calls hi sound.capacity_pos
      cases kind <;> assumption
    rw [forecast_open engine hi running quiet]
    simp [served, line, forward_of_idle calls hi line,
      Intake.unserved, fetches, submissions, reports,
      ofKind, Sealer.serveAll, caughtUp_of_nil queue, Sealer.tidied, tidiedTimers, tidy,
      emptied_eq_self letters, ← engine, ← hi]
  · have gone : intake.attended = false := by
      apply Bool.eq_false_iff.mpr
      intro attended
      exact running ((sound.attended_iff s engine).mp attended)
    have letters := sound.unattended gone
    have closed : ¬(s.loop = .running ∧ intake.signalled = false) := fun h => running h.1
    rw [forecast_closed engine hi closed]
    simp [World.dismissed, if_neg running, letters, lose, dismiss_of_idle calls hi gone,
      abandon_eq_self letters gone, ← engine, ← hi]

/-- Moves lead to the forecast. -/
theorem forecast_run (h : w.Attended) (n : Nat) :
    (w.run n).forecast = w.forecast ∧ (w.run n).Attended := by
  refine run_preserves (P := fun v => v.forecast = w.forecast ∧ v.Attended) ?_ n ⟨rfl, h⟩
  rintro v v' turn ⟨foreseen, attended⟩
  exact ⟨(forecast_move attended turn).trans foreseen, attended.move turn⟩

/-- **What happens by itself leads to the forecast.** -/
theorem quiesce_eq_forecast (h : w.Attended) : w.quiesce = w.forecast := by
  obtain ⟨foreseen, attended⟩ := forecast_run h w.potential
  have idle : w.quiesce.move = none := move_run_eq_none w.potential h.sound (Nat.le_refl _)
  exact (forecast_of_idle attended idle).symm.trans foreseen

theorem Attended.quiesce (h : w.Attended) : w.quiesce.Attended := (forecast_run h w.potential).2

end World

end MinerGateway
