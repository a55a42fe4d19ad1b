/-!
Decimal numerals: digits `0` to `9` and nothing else, perhaps behind a sign.
-/

namespace MinerGateway.Decimal

/-- The number that the digits denote, the first digit weighing most. -/
def valueOf (digits : List Char) : Nat :=
  digits.foldl (fun value c => 10 * value + (c.toNat - 48)) 0

/-- Reads digits, of which there is at least one. -/
def readDigits (text : List Char) : Option Nat :=
  if text.isEmpty || !text.all Char.isDigit then none else some (valueOf text)

def readUnsigned : List Char → Option Nat
  | '+' :: digits => readDigits digits
  | digits => readDigits digits

/-- Reads a number, perhaps with either sign. -/
def readSigned : List Char → Option Int
  | '-' :: digits => (readDigits digits).map fun value => -(value : Int)
  | text => (readUnsigned text).map Int.ofNat

/-- Reads a number below `bound`, perhaps with a plus sign. -/
def readBelow (bound : Nat) (text : List Char) : Option Nat := do
  let value ← readUnsigned text
  if value < bound then some value else none

end MinerGateway.Decimal
