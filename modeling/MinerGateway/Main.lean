import MinerGateway.Server.Program

/-!
The command-line program.

It starts the gateway that its arguments describe and answers one request body for each line of
standard input, until the input ends. Responses go to standard output, and so do the log lines of
accepted solutions.
-/

namespace MinerGateway

/-- What `--help` prints. -/
def usage : String :=
  "\n".intercalate
    ["Remote sealing gateway serving eth_getWork / eth_submitWork",
     "",
     "Options:",
     "  --rpc-bind <ADDRESS>                   RPC server bind address",
     "  --rpc-port <PORT>                      RPC server port",
     "  --log-level <LEVEL>                    Log level",
     "  --log-format <text|json>               Log output format",
     "  --no-remote                            Start without a remote handle",
     "  --stale-threshold <BLOCKS>             Blocks after which a solution is stale",
     "  --devnet-work-interval-secs <SECONDS>  Push synthetic work (0 disables)",
     "  -h, --help                             Print help",
     "  -V, --version                          Print version"]

/-- What is said about arguments that cannot be used. -/
def CommandLine.Stop.text : CommandLine.Stop → String
  | .displayHelp => usage
  | .displayVersion => "0.1.0"
  | .unknownArgument => "error: unexpected argument"
  | .invalidValue => "error: invalid or missing value"
  | .valueValidation => "error: invalid number"
  | .argumentConflict => "error: an option was given more than once"
  | .tooManyValues => "error: an option that takes no value has one"

/-- The log line of an accepted solution. -/
def SealedWork.logLine (work : SealedWork) : String :=
  "sealed block ready for import number=" ++ toString work.number ++ " seal_hash="
    ++ work.sealHash.text ++ " nonce=" ++ work.nonce.text ++ " mix_digest=" ++ work.mixDigest.text

/-- Answers line after line until the input ends. -/
partial def serveLines (input output : IO.FS.Stream) (w : World) : IO Unit := do
  let line ← input.getLine
  unless line.isEmpty do
    let (reply, w) := w.answerHttp line
    let (logged, w) := w.drainResults
    output.putStrLn reply.body.write
    for work in logged do
      output.putStrLn work.logLine
    output.flush
    serveLines input output w

end MinerGateway

open MinerGateway in
/-- Runs the gateway over standard input and output. -/
def main (arguments : List String) : IO UInt32 := do
  match CommandLine.parse arguments with
  | .error stop =>
    if stop.isRequest then
      (← IO.getStdout).putStrLn stop.text
      return 0
    else
      (← IO.getStderr).putStrLn stop.text
      return 2
  | .ok config =>
    serveLines (← IO.getStdin) (← IO.getStdout) (World.ofConfig config)
    return 0
