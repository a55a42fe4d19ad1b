import MinerGateway.Proofs.Worker

/-!
A sealer as one sequential object.

`Sequential` does everything that callers ask of a sealer as one operation after the other: a push
is handled at once, and nothing is queued. `Sealer.sequential` is the sequential object that a
sealer stands for, with all tasks handled that are still queued. Each event of a sealer is then at
most one operation of it, with the result that was given (`Sealer.Takes.simulates`), and a push that
is never handled may be left out as long as no worker was needed after it (`legal_filter`).

Correspondence (sealer ↔ sequential object):
  a push, when it is accepted for the worker    ↔ `Operation.push`
  a message, when the worker answers it         ↔ `Operation.serve`
  housekeeping, with the time of it             ↔ `Operation.cleanup`
  receiving a solution, the consumer going away ↔ `Operation.receive`, `Operation.abandon`
  reading the hash rate                         ↔ `Operation.readHashrate`

What the worker holds and answers is proved of this object, by induction on its histories; what is
proved here carries it over to sealers with queues, callers and a clock.
-/

namespace MinerGateway

/-- What can be done to a sealer in one step. -/
inductive Operation where
  | push (task : Task)
  /-- A miner's message is answered at time `now`. -/
  | serve (now : Nat) (message : Message)
  | readHashrate
  /-- The consumer asks for the oldest accepted solution. -/
  | receive
  /-- The consumer goes away. -/
  | abandon
  /-- Housekeeping, an internal step. -/
  | cleanup (now : Nat)

/-- What an operation gives. -/
inductive Operation.Result where
  | done
  | reply (reply : Reply)
  | hashrate (rate : UInt64)
  | received (work : Option SealedWork)

/-- The sequential object: what the worker knows, and the channel of accepted solutions. -/
structure Sequential where
  settings : EngineSettings
  verifier : Verifier
  ledger : Ledger := {}
  outbox : Outbox

namespace Sequential

def start (settings : EngineSettings) (verifier : Verifier) : Sequential where
  settings := settings
  verifier := verifier
  outbox := Outbox.start settings.resultsCapacity

def apply (q : Sequential) : Operation → Operation.Result × Sequential
  | .push task => (.done, { q with ledger := q.ledger.push task })
  | .serve _ .fetch => (.reply (.work q.ledger.currentWork), q)
  | .serve _ (.submission s) =>
    match q.ledger.submit q.settings.staleThreshold q.verifier q.outbox s with
    | .ok outbox => (.reply (.verdict (.ok ())), { q with outbox })
    | .error error => (.reply (.verdict (.error error)), q)
  | .serve now (.report r) => (.reply .recorded, { q with ledger := q.ledger.record r now })
  | .readHashrate => (.hashrate q.ledger.published, q)
  | .receive =>
    match q.outbox.receive with
    | some (work, outbox) => (.received (some work), { q with outbox })
    | none => (.received none, q)
  | .abandon => (.done, { q with outbox := q.outbox.abandon })
  | .cleanup now => (.done, { q with ledger := q.ledger.cleanup q.settings now })

end Sequential

/-- An operation with what it gave, the call that asked for it, and the positions in the log at
which that call was made and had returned. -/
structure Entry where
  operation : Operation
  result : Operation.Result
  caller : Option Nat := none
  made : Nat
  returned : Nat

namespace Entry

/-- The one had returned before the other was made. -/
def Precedes (a b : Entry) : Prop := a.returned < b.made

def isPush (a : Entry) : Bool :=
  match a.operation with
  | .push _ => true
  | _ => false

/-- Whether the operation is one that only the worker carries out. -/
def needsWorker (a : Entry) : Bool :=
  match a.operation with
  | .serve .. | .cleanup _ => true
  | _ => false

end Entry

namespace Sequential

/-- Each operation of the sequence gives the result that is stated. -/
def Legal : Sequential → List Entry → Prop
  | _, [] => True
  | q, a :: rest => (q.apply a.operation).1 = a.result ∧ Legal (q.apply a.operation).2 rest

def replay (q : Sequential) (entries : List Entry) : Sequential :=
  entries.foldl (fun q a => (q.apply a.operation).2) q

variable {q q' : Sequential}

theorem legal_append {front back : List Entry} :
    q.Legal (front ++ back) ↔ q.Legal front ∧ (q.replay front).Legal back := by
  induction front generalizing q with
  | nil => simp [Legal, replay]
  | cons a rest ih =>
    have later := ih (q := (q.apply a.operation).2)
    constructor
    · rintro ⟨given, legal⟩
      obtain ⟨first, second⟩ := later.mp legal
      exact ⟨⟨given, first⟩, second⟩
    · rintro ⟨⟨given, first⟩, second⟩
      exact ⟨given, later.mpr ⟨first, second⟩⟩

theorem replay_append (q : Sequential) (front back : List Entry) :
    q.replay (front ++ back) = (q.replay front).replay back :=
  List.foldl_append

/-! ## Pushes that were never handled -/

/-- The states look alike to whoever reads the hash rate or receives solutions. -/
def Alike (q q' : Sequential) : Prop :=
  q.ledger.published = q'.ledger.published ∧ q.outbox = q'.outbox

theorem Alike.apply (h : q.Alike q') {a : Entry} (light : a.needsWorker = false) :
    (q.apply a.operation).2.Alike (q'.apply a.operation).2 ∧
      (a.isPush = false → (q.apply a.operation).1 = (q'.apply a.operation).1) ∧
      (a.isPush = true → (q.apply a.operation).2.Alike q') := by
  obtain ⟨operation, result, caller, made, returned⟩ := a
  obtain ⟨published, outbox⟩ := h
  cases operation with
  | serve | cleanup => cases light
  | push task =>
    refine ⟨⟨published, outbox⟩, ?_, fun _ => ⟨published, outbox⟩⟩
    intro other
    cases other
  | readHashrate =>
    refine ⟨⟨published, outbox⟩, fun _ => congrArg Operation.Result.hashrate published, ?_⟩
    intro push
    cases push
  | receive =>
    -- What is received depends on the channel alone, which is the same.
    simp only [Sequential.apply, ← outbox]
    cases q.outbox.receive with
    | none => exact ⟨⟨published, outbox⟩, fun _ => rfl, by simp [Entry.isPush]⟩
    | some received => exact ⟨⟨published, rfl⟩, fun _ => rfl, by simp [Entry.isPush]⟩
  | abandon =>
    exact ⟨⟨published, congrArg Outbox.abandon outbox⟩, fun _ => rfl, by simp [Entry.isPush]⟩

/-- Where no worker is needed, pushes may be left out. -/
theorem legal_filter {back : List Entry} (h : q.Alike q')
    (light : ∀ a ∈ back, a.needsWorker = false) (legal : q.Legal back) :
    q'.Legal (back.filter (!·.isPush)) := by
  -- The two states may drift apart by the pushes left out, but stay alike.
  induction back generalizing q q' with
  | nil => trivial
  | cons a rest ih =>
    have light' : ∀ b ∈ rest, b.needsWorker = false := by
      intro b hb
      exact light b (List.mem_cons_of_mem _ hb)
    obtain ⟨both, same, one⟩ := h.apply (light a List.mem_cons_self)
    cases push : a.isPush with
    | true =>
      rw [List.filter_cons_of_neg (by simp [push])]
      exact ih (one push) light' legal.2
    | false =>
      rw [List.filter_cons_of_pos (by simp [push])]
      exact ⟨(same push).symm.trans legal.1, ih both light' legal.2⟩

end Sequential

/-! ## The sequential object behind a sealer -/

/-- The sequential object that a sealer stands for: all queued tasks are handled. -/
def Sealer.sequential (s : Sealer) : Sequential :=
  ⟨s.settings, s.verifier, s.tasks.foldl Ledger.push s.ledger, s.outbox⟩

theorem Sealer.sequential_start (settings : EngineSettings) (verifier : Verifier) :
    (Sealer.start settings verifier).sequential = .start settings verifier := rfl

theorem Ledger.published_foldl_push (tasks : List Task) (ledger : Ledger) :
    (tasks.foldl Ledger.push ledger).published = ledger.published := by
  induction tasks generalizing ledger with
  | nil => rfl
  | cons task rest ih => exact ih (ledger.push task)

/-- Whether the event is about the making of call `i`. -/
def Event.makes (i : Nat) : Event → Bool
  | .made call _ => call == i
  | .posted letter => letter.sender == i
  | _ => false

/-- Whether the event is the return of call `i` with its answer. -/
def Event.returns (i : Nat) : Event → Bool
  | .finished call _ _ => call == i
  | _ => false

/-- The operation that an event at position `p` of a log is. What is done to the engine at once is
made and has returned at that very position. -/
def Event.operation? (log : List Event) (p : Nat) : Event → Option Entry
  | .pushed task => some ⟨.push task, .done, none, p, p⟩
  | .served now letter _ _ reply =>
    some ⟨.serve now letter.message, .reply reply, some letter.sender,
      log.findIdx (·.makes letter.sender), log.findIdx (·.returns letter.sender)⟩
  | .finished call (.readHashrate _) (.response ⟨_, .ok (.hashrate rate)⟩) =>
    some ⟨.readHashrate, .hashrate rate, some call, log.findIdx (·.makes call), p⟩
  | .read rate => some ⟨.readHashrate, .hashrate rate, none, p, p⟩
  | .received work => some ⟨.receive, .received (some work), none, p, p⟩
  | .abandoned => some ⟨.abandon, .done, none, p, p⟩
  | .cleaned now => some ⟨.cleanup now, .done, none, p, p⟩
  | _ => none

theorem Event.operation?_of_apart {e : Event} (h : e.Apart) {log : List Event} {p : Nat} :
    e.operation? log p = none := by
  cases e with
  | finished call errand answer =>
    cases errand with
    | readHashrate id => exact absurd rfl (h id)
    | _ => rfl
  | made | begun | entered | posted | aborted | signalled | reported | other => rfl
  | _ => cases h

namespace Sealer

/-- Without queued tasks, the worker answers as the sequential object does. -/
theorem apply_serve {s : Sealer} (queue : s.tasks = []) (now : Nat) (message : Message) :
    s.sequential.apply (.serve now message)
      = (.reply (s.serve now message).2, (s.serve now message).1.sequential) := by
  cases message with
  | fetch => simp [Sequential.apply, sequential, serve, queue]
  | report r => simp [Sequential.apply, sequential, serve, queue]
  | submission sub =>
    cases judged : s.ledger.submit s.settings.staleThreshold s.verifier s.outbox sub <;>
      simp [Sequential.apply, sequential, serve, queue, judged]

/-- **Each event before the end of the loop is one operation at most**, which gives what the event
says. -/
theorem Takes.simulates {s s' : Sealer} {e : Event} (h : s.Takes e s')
    (going : ∀ lost, e ≠ .ended lost) (log : List Event) (p : Nat) :
    s.sequential.Legal (e.operation? log p).toList ∧
      s.sequential.replay (e.operation? log p).toList = s'.sequential := by
  cases h with
  | pushed =>
    refine ⟨⟨rfl, trivial⟩, ?_⟩
    simp only [Event.operation?, Option.toList, Sequential.replay, List.foldl_cons, List.foldl_nil,
      Sequential.apply, sequential, List.foldl_append]
  | handled _ queue =>
    refine ⟨trivial, ?_⟩
    simp only [Event.operation?, Option.toList, Sequential.replay,
      List.foldl_nil, sequential, queue, List.foldl_cons]
  | @served now letter _ queue =>
    have served := apply_serve queue now letter.message
    exact ⟨⟨congrArg Prod.fst served, trivial⟩, congrArg Prod.snd served⟩
  | cleaned _ queue =>
    refine ⟨⟨rfl, trivial⟩, ?_⟩
    simp only [Event.operation?, Option.toList, Sequential.replay, List.foldl_cons, List.foldl_nil,
      Sequential.apply, sequential, queue]
  | ended => exact absurd rfl (going _)
  | received _ h =>
    have received : s.sequential.outbox.receive = _ := h
    refine ⟨⟨?_, trivial⟩, ?_⟩
    · simp only [Sequential.apply, received]
    · simp only [Event.operation?, Option.toList, Sequential.replay,
        List.foldl_cons, List.foldl_nil, Sequential.apply, received]
      rfl
  | abandoned => exact ⟨⟨rfl, trivial⟩, rfl⟩
  | read | told =>
    have published : s.sequential.ledger.published = s.ledger.published :=
      Ledger.published_foldl_push _ _
    exact ⟨⟨congrArg Operation.Result.hashrate published, trivial⟩, rfl⟩
  | joined | due => exact ⟨trivial, rfl⟩
  | apart h =>
    rw [Event.operation?_of_apart h]
    exact ⟨trivial, rfl⟩

end Sealer

end MinerGateway
