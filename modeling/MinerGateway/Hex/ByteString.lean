import MinerGateway.Hex.Digit

/-!
Byte strings in hexadecimal: `0x`, then two digits a byte, the high half first.

Reading works on the UTF-8 bytes of the text. Their number is checked before any digit is looked
at, and a byte that is no digit is reported as the character with that code point, so of a character
beyond ASCII the report names its first byte.

Correspondence (codec ↔ definition):
  reading, behind the mark             ↔ `decode`, `readPairs`
  writing, always in lower case        ↔ `encode`, `byteDigits`
  one digit, or the complaint about it ↔ `nibble`
-/

namespace MinerGateway.Hex

/-- The value of a byte that is a hexadecimal digit; otherwise the byte is reported. -/
def nibble (b : UInt8) : Except HexError Nat :=
  match digitValue? (Char.ofNat b.toNat) with
  | some value => .ok value
  | none => .error (.invalidDigit (Char.ofNat b.toNat))

/-- Reads two digits a byte. The first fault from the left is reported; a digit left over at the end
is not looked at. -/
def readPairs : List UInt8 → Except HexError (List UInt8)
  | high :: low :: rest => do
    let h ← nibble high
    let l ← nibble low
    let bytes ← readPairs rest
    return UInt8.ofNat (16 * h + l) :: bytes
  | _ => .ok []

def readBytes (text : List Char) : Except HexError (List UInt8) := do
  let digits ← afterMark text
  let units := digits.flatMap String.utf8EncodeChar
  if units.length % 2 = 0 then readPairs units else .error .oddLength

/-- Reads a byte string. `0x` alone is the empty one. -/
def decode (text : String) : Except HexError (List UInt8) := readBytes text.toList

def byteDigits (b : UInt8) : List Char :=
  [Nat.digitChar (b.toNat / 16), Nat.digitChar (b.toNat % 16)]

def writeBytes (bytes : List UInt8) : List Char :=
  '0' :: 'x' :: bytes.flatMap byteDigits

/-- Writes a byte string in lower case. -/
def encode (bytes : List UInt8) : String := String.ofList (writeBytes bytes)

end MinerGateway.Hex
