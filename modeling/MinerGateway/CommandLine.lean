import MinerGateway.Config
import MinerGateway.Decimal.Numeral

/-!
The command line of the gateway.

Arguments are judged from left to right. An option whose value is a separate argument is only
settled when the next argument is recognised, so an unknown argument behind it is reported instead
of a fault in that value. Every option may be given once. `--` ends the options, and there are no
positional arguments for it to introduce.

Correspondence (command line ↔ definition):
  the options with a value and without one   ↔ `Setting`, `Switch`
  one argument on its own                    ↔ `Argument`
  the value of an option, checked and stored ↔ `Setting.apply`
  the settings, or why there are none        ↔ `parse`, `Stop`

Left out are the texts of usage errors: of a wrong command line only the kind of fault is kept.
-/

namespace MinerGateway.CommandLine

/-- Why the gateway does not start from these arguments. -/
inductive Stop where
  | displayHelp
  | displayVersion
  /-- Neither an option nor the value of one. -/
  | unknownArgument
  /-- A value is missing, or is none of those allowed. -/
  | invalidValue
  /-- A number does not read or does not fit. -/
  | valueValidation
  /-- An option is given twice. -/
  | argumentConflict
  /-- A switch has a value. -/
  | tooManyValues
  deriving DecidableEq, Repr

/-- Whether the arguments ask for a text rather than being wrong. -/
def Stop.isRequest : Stop → Bool
  | .displayHelp | .displayVersion => true
  | _ => false

/-- The options that take a value. -/
inductive Setting where
  | bindAddress
  | port
  | logLevel
  | logFormat
  | staleThreshold
  | devnetInterval
  deriving DecidableEq, Repr

/-- The options without a value. -/
inductive Switch where
  | noRemote
  | help
  | version
  deriving DecidableEq, Repr

def settingNamed? : (name : String) → Option Setting
  | "rpc-bind" => some .bindAddress
  | "rpc-port" => some .port
  | "log-level" => some .logLevel
  | "log-format" => some .logFormat
  | "stale-threshold" => some .staleThreshold
  | "devnet-work-interval-secs" => some .devnetInterval
  | _ => none

def switchNamed? : (name : String) → Option Switch
  | "no-remote" => some .noRemote
  | "help" => some .help
  | "version" => some .version
  | _ => none

/-- The form of an argument. -/
inductive Argument where
  /-- `--` alone. -/
  | terminator
  /-- `--name`, perhaps with `=value`. -/
  | long (name : String) (value : Option String)
  /-- `-` and at least one letter, of which the first is given. -/
  | short (letter : Char)
  /-- Anything else, `-` alone included. -/
  | plain (text : String)
  deriving DecidableEq, Repr

/-- Recognises the form of an argument. A value begins after the first `=`. -/
def Argument.ofText (text : String) : Argument :=
  match text.toList with
  | ['-', '-'] => .terminator
  | '-' :: '-' :: rest =>
    let name := String.ofList (rest.takeWhile (· != '='))
    match rest.dropWhile (· != '=') with
    | [] => .long name none
    | _ :: value => .long name (some (String.ofList value))
  | '-' :: letter :: _ => .short letter
  | _ => .plain text

/-- Reads an unsigned number of at most 64 bits. -/
def readUInt64 (text : String) : Except Stop UInt64 :=
  match Decimal.readBelow UInt64.size text.toList with
  | some value => .ok (UInt64.ofNat value)
  | none => .error .valueValidation

/-- Reads a port. Minus zero is zero. -/
def readPort (text : String) : Except Stop Nat :=
  match Decimal.readSigned text.toList with
  | some (.ofNat value) => if value < UInt16.size then .ok value else .error .valueValidation
  | _ => .error .valueValidation

def readLogFormat : (text : String) → Except Stop LogFormat
  | "text" => .ok .text
  | "json" => .ok .json
  | _ => .error .invalidValue

/-- The configuration with one more option taken from its text. Synthetic work every zero seconds is
none. -/
def Setting.apply (setting : Setting) (text : String) (config : GatewayConfig) :
    Except Stop GatewayConfig :=
  match setting with
  | .bindAddress => .ok { config with bindAddress := text }
  | .port => do
    let port ← readPort text
    return { config with port }
  | .logLevel => .ok { config with logLevel := text }
  | .logFormat => do
    let logFormat ← readLogFormat text
    return { config with logFormat }
  | .staleThreshold => do
    let staleThreshold ← readUInt64 text
    return { config with engine := { config.engine with staleThreshold } }
  | .devnetInterval => do
    let seconds ← readUInt64 text
    let devnetInterval := if seconds = 0 then none else some (1000 * seconds.toNat)
    return { config with devnetInterval }

/-- What is known after some of the arguments. -/
structure Scan where
  config : GatewayConfig := {}
  /-- The options that have been settled. -/
  given : List Setting := []
  /-- The last option, as long as it is not settled, and its value if that was seen. -/
  pending : Option (Setting × Option String) := none

namespace Scan

def assign (scan : Scan) (setting : Setting) (text : String) : Except Stop Scan :=
  if setting ∈ scan.given then .error .argumentConflict
  else do
    let config ← setting.apply text scan.config
    return { scan with config, given := setting :: scan.given }

/-- Takes over the pending option, which by now needs a value. -/
def settle (scan : Scan) : Except Stop Scan :=
  match scan.pending with
  | none => .ok scan
  | some (_, none) => .error .invalidValue
  | some (setting, some text) => { scan with pending := none }.assign setting text

def switchOn (scan : Scan) (switch : Switch) : Except Stop Scan := do
  let scan ← scan.settle
  match switch with
  | .noRemote =>
    if scan.config.remoteSealing then
      return { scan with config := { scan.config with remoteSealing := false } }
    else .error .argumentConflict
  | .help => .error .displayHelp
  | .version => .error .displayVersion

def long (scan : Scan) (name : String) (value : Option String) : Except Stop Scan :=
  match settingNamed? name, switchNamed? name, value with
  | some setting, _, none => do
    let scan ← scan.settle
    return { scan with pending := some (setting, none) }
  | some setting, _, some text => do
    let scan ← scan.settle
    scan.assign setting text
  | none, some switch, none => scan.switchOn switch
  | none, some _, some _ => .error .tooManyValues
  | none, none, _ => .error .unknownArgument

/-- Takes over a plain argument, which has to be the value that an option waits for. -/
def plain (scan : Scan) (text : String) : Except Stop Scan :=
  match scan.pending with
  | some (setting, none) => .ok { scan with pending := some (setting, some text) }
  | _ => .error .unknownArgument

def run : List String → Scan → Except Stop Scan
  | [], scan => scan.settle
  | text :: rest, scan =>
    match Argument.ofText text with
    | .terminator => if rest.isEmpty then scan.settle else .error .unknownArgument
    | .long name value => do run rest (← scan.long name value)
    | .short 'h' => do run rest (← scan.switchOn .help)
    | .short 'V' => do run rest (← scan.switchOn .version)
    | .short _ => .error .unknownArgument
    | .plain text => do run rest (← scan.plain text)

end Scan

/-- The configuration that the arguments after the program's name ask for. -/
def parse (arguments : List String) : Except Stop GatewayConfig :=
  (Scan.run arguments {}).map Scan.config

end MinerGateway.CommandLine
