/-!
Why sealing work could not be served or a solution was refused.
-/

namespace MinerGateway

/-- The causes of failure at the boundary between miners and the engine. -/
inductive SealingError where
  /-- The engine has no boundary for remote miners. -/
  | notSupported
  /-- The engine is shutting down, or went away before it answered. -/
  | stopped
  | noWork
  | invalidSolution
  /-- The solved task lies too far behind the current one. -/
  | staleWork (number current : UInt64)
  /-- No task is pending under the hash given. -/
  | unknownWork (hash : String)
  /-- An accepted solution could not be passed on. -/
  | internal (reason : String)
  deriving DecidableEq, Repr

/-- The wording of each cause. -/
def SealingError.message : SealingError → String
  | .notSupported => "not supported"
  | .stopped => "sealer stopped"
  | .noWork => "no mining work available yet"
  | .invalidSolution => "invalid proof-of-work solution"
  | .staleWork number current =>
    "stale work: solution for block " ++ toString number ++ ", current block " ++ toString current
  | .unknownWork hash => "unknown work: " ++ hash
  | .internal reason => "internal: " ++ reason

end MinerGateway
