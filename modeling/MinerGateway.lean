import MinerGateway.Boundary.Intake
import MinerGateway.Boundary.Message
import MinerGateway.Boundary.Request
import MinerGateway.Bytes.BigEndian
import MinerGateway.Bytes.Fixed
import MinerGateway.Bytes.Sha256
import MinerGateway.CommandLine
import MinerGateway.Config
import MinerGateway.Decimal.Numeral
import MinerGateway.Decimal.Shortest
import MinerGateway.Devnet.Chain
import MinerGateway.Gateway.Call
import MinerGateway.Gateway.Clock
import MinerGateway.Gateway.Session
import MinerGateway.Gateway.Settle
import MinerGateway.Gateway.World
import MinerGateway.Hex.ByteString
import MinerGateway.Hex.Digit
import MinerGateway.Hex.Error
import MinerGateway.Hex.Quantity
import MinerGateway.Json.Number
import MinerGateway.Json.Text
import MinerGateway.Json.Typed
import MinerGateway.Json.Value
import MinerGateway.Main
import MinerGateway.Proofs.AcceptanceWindow
import MinerGateway.Proofs.AcceptedWork
import MinerGateway.Proofs.AfterExit
import MinerGateway.Proofs.AggregateRate
import MinerGateway.Proofs.Aspects
import MinerGateway.Proofs.Attending
import MinerGateway.Proofs.Bystanders
import MinerGateway.Proofs.ByteCodec
import MinerGateway.Proofs.Callers
import MinerGateway.Proofs.Capacity
import MinerGateway.Proofs.Channels
import MinerGateway.Proofs.ConcurrentShutdown
import MinerGateway.Proofs.Cutoff
import MinerGateway.Proofs.Delivery
import MinerGateway.Proofs.DevnetChain
import MinerGateway.Proofs.DevnetMining
import MinerGateway.Proofs.ExtraNonce
import MinerGateway.Proofs.Forecast
import MinerGateway.Proofs.Freshness
import MinerGateway.Proofs.HexCase
import MinerGateway.Proofs.HexGrammar
import MinerGateway.Proofs.HexRoundTrip
import MinerGateway.Proofs.Histories
import MinerGateway.Proofs.Housekeeping
import MinerGateway.Proofs.InTurn
import MinerGateway.Proofs.Interference
import MinerGateway.Proofs.JsonForms
import MinerGateway.Proofs.JsonStrings
import MinerGateway.Proofs.LetterCase
import MinerGateway.Proofs.Letters
import MinerGateway.Proofs.Life
import MinerGateway.Proofs.Linearization
import MinerGateway.Proofs.Lines
import MinerGateway.Proofs.NoneStranded
import MinerGateway.Proofs.Operations
import MinerGateway.Proofs.OwnReply
import MinerGateway.Proofs.Pending
import MinerGateway.Proofs.PublishedRate
import MinerGateway.Proofs.PunctualSessions
import MinerGateway.Proofs.QuantityCodec
import MinerGateway.Proofs.Rearrangement
import MinerGateway.Proofs.Recasting
import MinerGateway.Proofs.Reports
import MinerGateway.Proofs.Resting
import MinerGateway.Proofs.RpcMethods
import MinerGateway.Proofs.RunningFlag
import MinerGateway.Proofs.Separation
import MinerGateway.Proofs.Sequential
import MinerGateway.Proofs.SequentialOrder
import MinerGateway.Proofs.Serving
import MinerGateway.Proofs.SessionRuns
import MinerGateway.Proofs.Settling
import MinerGateway.Proofs.Soundness
import MinerGateway.Proofs.Staleness
import MinerGateway.Proofs.StandingRates
import MinerGateway.Proofs.StrayDigit
import MinerGateway.Proofs.SyntheticWork
import MinerGateway.Proofs.Tending
import MinerGateway.Proofs.Ticking
import MinerGateway.Proofs.TimedRuns
import MinerGateway.Proofs.Timers
import MinerGateway.Proofs.Tracking
import MinerGateway.Proofs.Transition
import MinerGateway.Proofs.Turns
import MinerGateway.Proofs.ValueViews
import MinerGateway.Proofs.Verdict
import MinerGateway.Proofs.Worker
import MinerGateway.Rpc.Call
import MinerGateway.Rpc.Failure
import MinerGateway.Rpc.Method
import MinerGateway.Rpc.Response
import MinerGateway.Sealing.Error
import MinerGateway.Sealing.Ledger
import MinerGateway.Sealing.Outbox
import MinerGateway.Sealing.Task
import MinerGateway.Sealing.Verifier
import MinerGateway.Sealing.WorkPackage
import MinerGateway.Server.Address
import MinerGateway.Server.Http
import MinerGateway.Server.Program
import MinerGateway.Text.CharClass
import MinerGateway.Text.Quoted
import MinerGateway.Word.Saturating
