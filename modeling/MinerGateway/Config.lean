/-!
Settings of the engine and of the gateway around it.

Durations are whole milliseconds. Zeros can be set as well: a capacity of zero counts as one where
the channels are opened, and a cleanup interval of zero breaks the worker's loop down at its start.
-/

namespace MinerGateway

/-- Settings of a sealing engine. Durations are in milliseconds. -/
structure EngineSettings where
  /-- Messages that each intake channel holds; zero counts as one. -/
  intakeCapacity : Nat := 1
  /-- Blocks that a pending task stays acceptable after newer work. -/
  staleThreshold : UInt64 := 7
  /-- The age from which a report of a hash rate no longer counts. -/
  hashrateExpiry : Nat := 10000
  /-- Period of housekeeping. -/
  cleanupInterval : Nat := 5000
  /-- Accepted solutions that may wait for the consumer; zero counts as one. -/
  resultsCapacity : Nat := 16
  deriving DecidableEq, Repr

/-- How log lines are written. -/
inductive LogFormat where
  | text
  | json
  deriving DecidableEq, Repr

def LogFormat.name : LogFormat → String
  | .text => "text"
  | .json => "json"

/-- The port that the server listens on unless told otherwise. -/
def defaultPort : Nat := 8545

structure GatewayConfig where
  bindAddress : String := "127.0.0.1"
  port : Nat := defaultPort
  logLevel : String := "info"
  logFormat : LogFormat := .text
  /-- Whether the engine serves remote miners at all. -/
  remoteSealing : Bool := true
  engine : EngineSettings := {}
  /-- Period of synthetic work in milliseconds; none without it. -/
  devnetInterval : Option Nat := none
  deriving DecidableEq, Repr

namespace GatewayConfig

/-- Synthetic work every fifteen seconds. -/
def devnet : GatewayConfig := { devnetInterval := some 15000 }

def address (config : GatewayConfig) : String :=
  config.bindAddress ++ ":" ++ toString config.port

end GatewayConfig

end MinerGateway
