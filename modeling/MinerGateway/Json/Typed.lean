import MinerGateway.Json.Number
import MinerGateway.Sealing.Task

/-!
Hashes, nonces and work packages as JSON.

A hash or a nonce is the string of its text form, and a package the array of its eleven strings.
Reading goes from left to right and reports the first fault: a value of another kind than expected
is reported as soon as it was seen, also when the text goes wrong behind it.
-/

namespace MinerGateway.Json

/-- A value that stands where another kind was expected. -/
inductive Found where
  | integer (value : Int)
  | float (value : Float)
  | boolean (value : Bool)
  | null
  | string (text : String)
  | sequence
  | map

def Found.describe : Found → String
  | .integer value => "integer `" ++ toString value ++ "`"
  | .float value => "floating point `" ++ Decimal.ofFloat value ++ "`"
  | .boolean value => "boolean `" ++ toString value ++ "`"
  | .null => "null"
  | .string text => "string " ++ Text.quoteText text
  | .sequence => "sequence"
  | .map => "map"

/-- The kinds of value that a reader asks for. -/
inductive Expected where
  | string
  | fields
  deriving DecidableEq, Repr

def Expected.describe : Expected → String
  | .string => "a string"
  | .fields => "an array of length " ++ toString WorkPackage.fieldCount

/-- Why a JSON text was refused. -/
inductive ReadError where
  /-- The text is no JSON, ends early or goes on after the value. -/
  | malformed
  | wrongType (found : Found) (expected : Expected)
  | wrongLength (length : Nat)
  /-- The string is not the text form of the value. -/
  | notHex (cause : HexError)

/-- The wording of each cause. -/
def ReadError.message : ReadError → String
  | .malformed => "malformed JSON"
  | .wrongType found expected =>
    "invalid type: " ++ found.describe ++ ", expected " ++ expected.describe
  | .wrongLength length =>
    "invalid length " ++ toString length ++ ", expected " ++ Expected.fields.describe
  | .notHex cause => cause.message

/-- Recognises the value in front. Of an array or an object only the bracket is looked at. -/
def found? : List Char → Option Found
  | 'n' :: 'u' :: 'l' :: 'l' :: _ => some .null
  | 't' :: 'r' :: 'u' :: 'e' :: _ => some (.boolean true)
  | 'f' :: 'a' :: 'l' :: 's' :: 'e' :: _ => some (.boolean false)
  | '[' :: _ => some .sequence
  | '\x7b' :: _ => some .map
  | '"' :: body => (readText body).map fun read => .string read.1
  | text => do
    let (n, _) ← readNumber text
    match ← n.classify with
    | .integer value => return .integer value
    | .float value => return .float value

/-- The fault of a text that begins with something else than expected. -/
def unexpected (text : List Char) (expected : Expected) : ReadError :=
  match found? text with
  | some found => .wrongType found expected
  | none => .malformed

def readString (text : List Char) : Except ReadError (String × List Char) :=
  match skipBlanks text with
  | '"' :: body =>
    match readText body with
    | some read => .ok read
    | none => .error .malformed
  | text => .error (unexpected text .string)

/-- Succeeds if only blanks are left. -/
def readEnd (text : List Char) : Except ReadError Unit :=
  if (skipBlanks text).isEmpty then .ok () else .error .malformed

/-- Reads a string that is the text form of `n` bytes. -/
def readFixedBytes (n : Nat) (text : String) : Except ReadError (FixedBytes n) := do
  let (content, rest) ← readString text.toList
  let value ← (FixedBytes.parse n content).mapError .notHex
  readEnd rest
  return value

def writeFixedBytes {n : Nat} (value : FixedBytes n) : String :=
  String.ofList (writeString value.text)

/-- Finds the next of several items: nothing at the closing bracket, else what follows the comma,
which only the first item does without. -/
def nextItem (first : Bool) (text : List Char) : Except ReadError (Option (List Char)) :=
  match first, skipBlanks text with
  | _, [] => .error .malformed
  | _, ']' :: _ => .ok none
  | true, text => .ok (some text)
  | false, ',' :: text =>
    match skipBlanks text with
    | [] => .error .malformed
    | ']' :: _ => .error .malformed
    | text => .ok (some text)
  | false, _ => .error .malformed

/-- Reads the items from index `done` on, `missing` of them, and the bracket after them. -/
def readFields : (missing done : Nat) → List Char → Except ReadError (List String × List Char)
  | 0, _, text =>
    match skipBlanks text with
    | ']' :: rest => .ok ([], rest)
    | _ => .error .malformed
  | missing + 1, done, text => do
    match ← nextItem (done == 0) text with
    | none => .error (.wrongLength done)
    | some text =>
      let (field, text) ← readString text
      let (fields, rest) ← readFields missing (done + 1) text
      return (field :: fields, rest)

def readPackage (text : String) : Except ReadError WorkPackage :=
  match skipBlanks text.toList with
  | '[' :: body => do
    let (fields, rest) ← readFields WorkPackage.fieldCount 0 body
    readEnd rest
    match WorkPackage.ofFields? fields with
    | some package => .ok package
    | none => .error (.wrongLength fields.length)
  | text => .error (unexpected text .fields)

def joinItems : List (List Char) → List Char
  | [] => []
  | [item] => item
  | item :: rest => item ++ ',' :: joinItems rest

def writePackage (package : WorkPackage) : String :=
  String.ofList ('[' :: joinItems (package.fields.map writeString) ++ [']'])

end MinerGateway.Json
