import MinerGateway.Text.Quoted

/-!
Why a hexadecimal text was refused.

Each cause has one text, which goes out to miners as it is; the texts name no position.
-/

namespace MinerGateway

/-- The ways in which a text fails to be a byte string or a quantity. -/
inductive HexError where
  | empty
  /-- The text begins with neither `0x` nor `0X`. -/
  | missingPrefix
  /-- The digits of a byte string do not pair up. -/
  | oddLength
  /-- The first character that is no hexadecimal digit. -/
  | invalidDigit (c : Char)
  | emptyNumber
  /-- A quantity of several digits of which the first is zero. -/
  | leadingZero
  /-- A quantity of more than sixteen digits. -/
  | overflow
  /-- A byte string of another length than the value has. -/
  | wrongLength (expected got : Nat)
  deriving DecidableEq, Repr

/-- The wording of each cause. -/
def HexError.message : HexError → String
  | .empty => "empty hex string"
  | .missingPrefix => "hex string without 0x prefix"
  | .oddLength => "hex string of odd length"
  | .invalidDigit c => "invalid hex digit " ++ Text.quoteChar c
  | .emptyNumber => "hex string \"0x\""
  | .leadingZero => "hex number with leading zero digits"
  | .overflow => "hex number > 64 bits"
  | .wrongLength expected got =>
    "wrong length: expected " ++ toString expected ++ " bytes, got " ++ toString got

end MinerGateway
