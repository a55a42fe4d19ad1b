import MinerGateway.Config
import MinerGateway.Sealing.Outbox
import MinerGateway.Sealing.Verifier
import MinerGateway.Word.Saturating

/-!
What the worker knows: the current task, the tasks pending under their seal hashes, and the latest
report of every miner.

The ledger is sequential. One operation serves each kind of message: `push` a task, serve the
`currentWork`, `submit` a solution, `record` a hash rate; `cleanup` forgets what is too old. A
submission is judged in a fixed order: is a task pending under its hash, does the verifier accept
it, is the task recent enough, does the outbox take it. Only an accepted submission leaves a trace,
and only in the outbox.

`published` is the sum of the reported rates as of the last `record` or `cleanup`; readers outside
the worker see this word and nothing else of the ledger.

Correspondence (worker ↔ definition):
  tasks under their seal hashes, in no order  ↔ `pending`, at most one task for each hash
  rates under the ids of miners, in no order  ↔ `rates`, at most one entry for each id
  whether a task lies too far behind          ↔ `Word.addSat`, with a sum that never wraps
  forgetting tasks, forgetting reports        ↔ `purge`, `expire`
  announcing the sum of the rates             ↔ `publish`, `silence`
-/

namespace MinerGateway

/-- The latest report of one miner and the time at which it was recorded. -/
structure RateEntry where
  id : Hash
  rate : UInt64
  lastSeen : Nat
  deriving DecidableEq, Repr

structure Ledger where
  /-- The task that was pushed last. -/
  current : Option Task := none
  /-- At most one task for each seal hash, the one pushed last. -/
  pending : List Task := []
  /-- At most one entry for each id, the one recorded last. -/
  rates : List RateEntry := []
  /-- The sum of the rates, as last announced. -/
  published : UInt64 := 0
  deriving DecidableEq, Repr

namespace Ledger

/-- Makes a task current and pending under its hash. -/
def push (ledger : Ledger) (task : Task) : Ledger :=
  { ledger with
    current := some task
    pending := task :: ledger.pending.filter (·.sealHash != task.sealHash) }

def currentWork (ledger : Ledger) : Except SealingError WorkPackage :=
  match ledger.current with
  | some task => .ok task.package
  | none => .error .noWork

def find? (ledger : Ledger) (hash : Hash) : Option Task :=
  ledger.pending.find? (·.sealHash == hash)

/-- Finds the task that a submission seals, unless the submission has to be refused. -/
def judge (ledger : Ledger) (threshold : UInt64) (verifier : Verifier) (s : Submission) :
    Except SealingError Task :=
  match ledger.current, ledger.find? s.hash with
  | some current, some task => do
    verifier task s.nonce s.mixDigest
    if Word.addSat task.number threshold ≤ current.number then
      .error (.staleWork task.number current.number)
    else .ok task
  | _, _ => .error (.unknownWork s.hash.text)

/-- Judges a submission and passes the sealed work on. -/
def submit (ledger : Ledger) (threshold : UInt64) (verifier : Verifier) (outbox : Outbox)
    (s : Submission) : Except SealingError Outbox := do
  let task ← ledger.judge threshold verifier s
  outbox.offer (task.sealedBy s)

def total (rates : List RateEntry) : UInt64 := Word.sumSat (rates.map RateEntry.rate)

/-- Announces the sum of the rates. -/
def publish (ledger : Ledger) : Ledger := { ledger with published := total ledger.rates }

/-- Records a report at time `now` in place of any earlier one under the same id. -/
def record (ledger : Ledger) (report : RateReport) (now : Nat) : Ledger :=
  publish { ledger with
    rates := ⟨report.id, report.rate, now⟩ :: ledger.rates.filter (·.id != report.id) }

/-- Forgets reports that have not been renewed for longer than `expiry`. -/
def expire (ledger : Ledger) (expiry now : Nat) : Ledger :=
  publish { ledger with rates := ledger.rates.filter fun entry => now - entry.lastSeen ≤ expiry }

/-- Forgets pending tasks that lie `threshold` blocks or more behind the current one. -/
def purge (ledger : Ledger) (threshold : UInt64) : Ledger :=
  match ledger.current with
  | none => ledger
  | some current =>
    { ledger with
      pending := ledger.pending.filter fun task =>
        current.number < Word.addSat task.number threshold }

def cleanup (ledger : Ledger) (settings : EngineSettings) (now : Nat) : Ledger :=
  (ledger.expire settings.hashrateExpiry now).purge settings.staleThreshold

/-- Forgets every report and announces a rate of zero. -/
def silence (ledger : Ledger) : Ledger := { ledger with rates := [], published := 0 }

end Ledger

end MinerGateway
