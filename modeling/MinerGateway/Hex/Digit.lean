import MinerGateway.Hex.Error

/-!
Hexadecimal digits and the mark in front of them.

Digits are read in either case and written in lower case. Every text of this format begins with `0x`
or `0X`; what follows is a byte string or a quantity.
-/

namespace MinerGateway.Hex

/-- The value of a hexadecimal digit in either case. -/
def digitValue? (c : Char) : Option Nat :=
  if '0' ≤ c ∧ c ≤ '9' then some (c.toNat - 48)
  else if 'a' ≤ c ∧ c ≤ 'f' then some (c.toNat - 87)
  else if 'A' ≤ c ∧ c ≤ 'F' then some (c.toNat - 55)
  else none

def isDigit (c : Char) : Bool := (digitValue? c).isSome

/-- The characters after `0x` or `0X`. -/
def afterMark : List Char → Except HexError (List Char)
  | [] => .error .empty
  | '0' :: 'x' :: digits => .ok digits
  | '0' :: 'X' :: digits => .ok digits
  | _ => .error .missingPrefix

/-- The number that the digits denote, the first digit weighing most. -/
def valueOf (digits : List Char) : Nat :=
  digits.foldl (fun value c => 16 * value + (digitValue? c).getD 0) 0

end MinerGateway.Hex
