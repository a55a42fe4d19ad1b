import MinerGateway.Bytes.Fixed
import MinerGateway.Sealing.WorkPackage

/-!
What travels between miners, engine and block producer: tasks to seal, submitted solutions, reports
of hash rates, and sealed work.
-/

namespace MinerGateway

/-- A block to be sealed. Miners name it by its seal hash. -/
structure Task where
  sealHash : Hash
  number : UInt64
  /-- Served to miners while the task is the current one. -/
  package : WorkPackage
  deriving DecidableEq, Repr

structure Submission where
  nonce : Nonce
  /-- Seal hash of the task that the solution is for. -/
  hash : Hash
  mixDigest : Hash
  extraNonce : Option (List UInt8)
  deriving DecidableEq, Repr

/-- A miner's hash rate, under an id that each miner chooses. -/
structure RateReport where
  rate : UInt64
  id : Hash
  deriving DecidableEq, Repr

/-- An accepted solution together with the number of the task that it seals. -/
structure SealedWork where
  sealHash : Hash
  number : UInt64
  nonce : Nonce
  mixDigest : Hash
  extraNonce : Option (List UInt8)
  deriving DecidableEq, Repr

/-- The sealed work that a submission makes of a task. -/
def Task.sealedBy (task : Task) (s : Submission) : SealedWork :=
  ⟨s.hash, task.number, s.nonce, s.mixDigest, s.extraNonce⟩

end MinerGateway
