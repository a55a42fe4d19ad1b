import MinerGateway.Json.Value

/-!
JSON-RPC calls: the version, an id, a method and its parameters.

A call is an object with these members, or an array with the four of them in this order. Members of
other names count for nothing, but none of the four may be repeated.
-/

namespace MinerGateway.Rpc

/-- What a response is matched with its call by. -/
inductive Id where
  | null
  | number (n : UInt64)
  | string (text : String)
  deriving DecidableEq, Repr

/-- A call that asks for a response. -/
structure Call where
  id : Id
  method : String
  params : Option Json.Value

/-- The value of a member that occurs at most once: nothing if it is repeated. -/
def member? (members : List (Option String × Json.Value)) (name : String) :
    Option (Option Json.Value) :=
  match members.filter (·.1 == some name) with
  | [] => some none
  | [member] => some (some member.2)
  | _ => none

/-- The members of these names, from an object by name or from an array by position. -/
def members? (names : List String) : Json.Value → Option (List (Option Json.Value))
  | .object members =>
    if members.any (·.1.isNone) then none else names.mapM (member? members)
  | .array items => if items.length = names.length then some (items.map some) else none
  | _ => none

def text? : Json.Value → Option String
  | .string text => text
  | _ => none

def optional? : Option Json.Value → Option Json.Value
  | some .null => none
  | value => value

/-- An id: null, an unsigned 64-bit integer or a string. -/
def id? : Json.Value → Option Id
  | .null => some .null
  | .number n => n.toUInt64?.map .number
  | .string text => text.map .string
  | _ => none

def isVersion (value : Json.Value) : Bool := text? value == some "2.0"

def Call.ofJson? (value : Json.Value) : Option Call := do
  match ← members? ["jsonrpc", "id", "method", "params"] value with
  | [some version, some id, some method, params] =>
    if isVersion version then
      return ⟨← id? id, ← text? method, optional? params⟩
    else none
  | _ => none

def Call.parse (text : String) : Option Call := do
  Call.ofJson? (← Json.Value.parse text.toList)

/-- Whether the value is a call that wants no response: it has no id, or none that can be used. -/
def isNotification (value : Json.Value) : Bool :=
  match members? ["jsonrpc", "method", "params"] value with
  | some [some version, some method, _] => isVersion version && (text? method).isSome
  | _ => false

/-- The id of a value that is no call, if it has one that can be used. -/
def strayId? (value : Json.Value) : Option Id := do
  match ← members? ["id"] value with
  | [some id] => id? id
  | _ => none

end MinerGateway.Rpc
