import MinerGateway.Hex.Digit

/-!
Quantities: 64-bit numbers in hexadecimal without leading zeros, zero being `0x0`.

Reading checks in this order: the mark, a first digit, no leading zero, digits only, at most sixteen
of them. Sixteen digits always fit 64 bits, so nothing can fail after these checks.
-/

namespace MinerGateway.Hex

def readQuantity (text : List Char) : Except HexError UInt64 := do
  let digits ← afterMark text
  match digits with
  | [] => .error .emptyNumber
  | '0' :: _ :: _ => .error .leadingZero
  | digits =>
    match digits.find? (fun c => !isDigit c) with
    | some c => .error (.invalidDigit c)
    | none => if 16 < digits.length then .error .overflow else .ok (UInt64.ofNat (valueOf digits))

def decodeQuantity (text : String) : Except HexError UInt64 := readQuantity text.toList

def writeQuantity (value : UInt64) : List Char :=
  '0' :: 'x' :: Nat.toDigits 16 value.toNat

/-- Writes a quantity in lower case with the fewest digits. -/
def encodeQuantity (value : UInt64) : String := String.ofList (writeQuantity value)

end MinerGateway.Hex
