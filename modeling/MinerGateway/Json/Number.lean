import MinerGateway.Decimal.Numeral
import MinerGateway.Decimal.Shortest
import MinerGateway.Json.Text

/-!
JSON numbers.

A number is read as its digits. A whole number of at most 64 bits is an integer; any other is a
double, and one beyond the largest double is refused. The double is computed from the leading
digits that fit 64 bits and a power of ten, by one multiplication or division, so its last binary
place may differ from the nearest double's.
-/

namespace MinerGateway.Json

/-- The written form of a number: digits before the point, after it, and of the exponent. -/
structure Number where
  negative : Bool
  whole : List Char
  /-- Empty when there is no point. -/
  fraction : List Char
  exponent : Option (Bool × List Char)
  deriving DecidableEq, Repr

/-- The digits in front, and the rest of the text. -/
def spanDigits (text : List Char) : List Char × List Char :=
  (text.takeWhile Char.isDigit, text.dropWhile Char.isDigit)

/-- Reads the digits before the point: one zero, or digits that begin with another. -/
def readWhole (text : List Char) : Option (List Char × List Char) :=
  let (digits, rest) := spanDigits text
  match digits with
  | [] => none
  | ['0'] => some (digits, rest)
  | '0' :: _ => none
  | _ => some (digits, rest)

/-- Reads a point and at least one digit, if there is a point. -/
def readFraction : List Char → Option (List Char × List Char)
  | '.' :: text =>
    let (digits, rest) := spanDigits text
    if digits.isEmpty then none else some (digits, rest)
  | text => some ([], text)

/-- Whether the sign in front is a minus, and the rest of the text. -/
def spanSign : List Char → Bool × List Char
  | '-' :: rest => (true, rest)
  | '+' :: rest => (false, rest)
  | text => (false, text)

def readExponent : List Char → Option (Option (Bool × List Char) × List Char)
  | [] => some (none, [])
  | c :: text =>
    if c = 'e' ∨ c = 'E' then
      let (negative, text) := spanSign text
      let (digits, rest) := spanDigits text
      if digits.isEmpty then none else some (some (negative, digits), rest)
    else some (none, c :: text)

/-- Reads the part of a number after its sign. -/
def readMagnitude (negative : Bool) (text : List Char) : Option (Number × List Char) := do
  let (whole, text) ← readWhole text
  let (fraction, text) ← readFraction text
  let (exponent, text) ← readExponent text
  return (⟨negative, whole, fraction, exponent⟩, text)

def readNumber : List Char → Option (Number × List Char)
  | '-' :: text => readMagnitude true text
  | text => readMagnitude false text

/-- Adds digits to a value as long as it fits 64 bits; gives the digits left over. -/
def absorbDigits (value : Nat) : List Char → Nat × List Char
  | [] => (value, [])
  | c :: rest =>
    let next := 10 * value + (c.toNat - 48)
    if next < UInt64.size then absorbDigits next rest else (value, c :: rest)

/-- The largest exponent that is taken at its word. -/
def exponentLimit : Nat := 2147483647

/-- The double nearest to `10 ^ n`. -/
def tenTo (n : Nat) : Float := Float.ofScientific 1 false n

/-- `value / 10 ^ n`, by as many divisions as the range of doubles needs. -/
def divideByTens : (fuel : Nat) → (value : Float) → (n : Nat) → Float
  | 0, value, _ => value
  | fuel + 1, value, n =>
    if n ≤ 308 then value / tenTo n
    else if value == 0 then value
    else divideByTens fuel (value / tenTo 308) (n - 308)

/-- `value * 10 ^ exponent`, or nothing if that is beyond the largest double. -/
def scaleByTens (value : Float) (exponent : Int) : Option Float :=
  if exponent < 0 then some (divideByTens (exponent.natAbs / 308 + 1) value exponent.natAbs)
  else if exponent ≤ 308 then
    let scaled := value * tenTo exponent.toNat
    if scaled.isInf then none else some scaled
  else if value == 0 then some value
  else none

def Number.magnitude (n : Number) : Option Float :=
  let (front, unread) := absorbDigits 0 n.whole
  let (significand, rest) := absorbDigits front n.fraction
  let places : Int := unread.length - (n.fraction.length - rest.length : Nat)
  let value := (UInt64.ofNat significand).toFloat
  match n.exponent with
  | none => scaleByTens value places
  | some (below, digits) =>
    let size := Decimal.valueOf digits
    if exponentLimit < size then
      if significand ≠ 0 ∧ !below then none else some 0
    else scaleByTens value (if below then places - size else places + size)

/-- What a number is taken for. -/
inductive Numeral where
  | integer (value : Int)
  | float (value : Float)

/-- Whole numbers of at most 64 bits are integers, but minus zero is a double. -/
def Number.classify (n : Number) : Option Numeral :=
  let size := Decimal.valueOf n.whole
  let whole := n.fraction.isEmpty && n.exponent.isNone
  if whole && !n.negative && size < UInt64.size then some (.integer size)
  else if whole && n.negative && 0 < size && size ≤ UInt64.size / 2 then some (.integer (-size))
  else n.magnitude.map fun value => .float (if n.negative then -value else value)

/-- The value of a number that is an unsigned 64-bit integer. -/
def Number.toUInt64? (n : Number) : Option UInt64 :=
  match n.classify with
  | some (.integer (.ofNat value)) => some (UInt64.ofNat value)
  | _ => none

end MinerGateway.Json
