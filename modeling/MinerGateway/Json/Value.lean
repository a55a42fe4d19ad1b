import MinerGateway.Json.Number

/-!
JSON values and their reader.

The reader accepts every well-formed text and keeps what a later, stricter look needs: numbers as
written, members in order with repetitions, and a string as nothing when its escapes hold a
surrogate without its partner, since such a string is well-formed but denotes no text.

Nesting has no limit of its own. Every level and every item takes at least one character, so the
length of the text is fuel enough.
-/

namespace MinerGateway.Json

/-- A JSON value. A string or member name is `none` if it denotes no text. -/
inductive Value where
  | null
  | bool (b : Bool)
  | number (n : Number)
  | string (text : Option String)
  | array (items : List Value)
  | object (members : List (Option String × Value))

mutual

def readValue : (fuel : Nat) → List Char → Option (Value × List Char)
  | 0, _ => none
  | fuel + 1, text =>
    match skipBlanks text with
    | 'n' :: 'u' :: 'l' :: 'l' :: rest => some (.null, rest)
    | 't' :: 'r' :: 'u' :: 'e' :: rest => some (.bool true, rest)
    | 'f' :: 'a' :: 'l' :: 's' :: 'e' :: rest => some (.bool false, rest)
    | '"' :: body => do
      let (pieces, rest) ← readPieces body
      return (.string (textOf? pieces), rest)
    | '[' :: body =>
      match skipBlanks body with
      | ']' :: rest => some (.array [], rest)
      | body => do
        let (items, rest) ← readItems fuel body
        return (.array items, rest)
    | '\x7b' :: body =>
      match skipBlanks body with
      | '\x7d' :: rest => some (.object [], rest)
      | body => do
        let (members, rest) ← readMembers fuel body
        return (.object members, rest)
    | body => do
      let (n, rest) ← readNumber body
      return (.number n, rest)

/-- Reads the items of an array, of which there is at least one, and the bracket after them. -/
def readItems : (fuel : Nat) → List Char → Option (List Value × List Char)
  | 0, _ => none
  | fuel + 1, text => do
    let (item, rest) ← readValue fuel text
    match skipBlanks rest with
    | ']' :: rest => return ([item], rest)
    | ',' :: rest => do
      let (items, rest) ← readItems fuel rest
      return (item :: items, rest)
    | _ => none

/-- Reads the members of an object, of which there is at least one, and the brace after them. -/
def readMembers : (fuel : Nat) → List Char → Option (List (Option String × Value) × List Char)
  | 0, _ => none
  | fuel + 1, text =>
    match skipBlanks text with
    | '"' :: body => do
      let (pieces, rest) ← readPieces body
      match skipBlanks rest with
      | ':' :: rest => do
        let (value, rest) ← readValue fuel rest
        let member := (textOf? pieces, value)
        match skipBlanks rest with
        | '\x7d' :: rest => return ([member], rest)
        | ',' :: rest => do
          let (members, rest) ← readMembers fuel rest
          return (member :: members, rest)
        | _ => none
      | _ => none
    | _ => none

end

/-- Reads a text that holds one value and blanks. Every level of nesting and every item takes at
least one character, which bounds the depth of the recursion. -/
def Value.parse (text : List Char) : Option Value := do
  let (value, rest) ← readValue (2 * text.length + 2) text
  if (skipBlanks rest).isEmpty then some value else none

end MinerGateway.Json
