/-!
The shortest decimal that names a binary floating-point number.

A finite double is `mantissa * 2 ^ exponent`, and every real number nearer to it than to its
neighbours reads back as it; the ends of that interval count when the mantissa is even. `shortest`
looks at the decimal grids `10 ^ k` from the coarsest down and takes the first that has a point in
the interval: coarser means fewer digits. On one grid only the two points next to the number can
be inside; of two hits the nearer wins, and a tie goes to the even one.
-/

namespace MinerGateway.Decimal

/-- A positive number `mantissa * 2 ^ exponent`. The neighbour below a power of two is at half the
usual distance. -/
structure Dyadic where
  mantissa : Nat
  exponent : Int
  closeBelow : Bool

/-- How many values the fraction of a double takes: two to the power of 52. -/
def fractionSize : Nat := 4503599627370496

/-- The magnitude of the finite double with these bits. -/
def Dyadic.ofBits (bits : UInt64) : Dyadic :=
  let fraction : Nat := bits.toNat % fractionSize
  let field : Nat := bits.toNat / fractionSize % 2048
  if field = 0 then ⟨fraction, -1074, false⟩
  else ⟨fractionSize + fraction, (field : Int) - 1075, fraction == 0 && 1 < field⟩

/-- A quarter of the last binary place, counted in steps of `10 ^ k`, as a fraction. -/
def Dyadic.quarter (x : Dyadic) (k : Int) : Nat × Nat :=
  let twos := x.exponent - 2
  (Nat.pow 2 twos.toNat * Nat.pow 10 (-k).toNat, Nat.pow 2 (-twos).toNat * Nat.pow 10 k.toNat)

/-- Whether `steps * 10 ^ k` reads back as `x`. -/
def Dyadic.reads (x : Dyadic) (k : Int) (steps : Nat) : Bool :=
  let (num, den) := x.quarter k
  let low := (4 * x.mantissa - (if x.closeBelow then 1 else 2)) * num
  let high := (4 * x.mantissa + 2) * num
  let point := steps * den
  if x.mantissa % 2 = 0 then low ≤ point && point ≤ high else low < point && point < high

/-- The point of the grid `10 ^ k` nearest to `x` among those that read back as it. -/
def Dyadic.onGrid? (x : Dyadic) (k : Int) : Option Nat :=
  let (num, den) := x.quarter k
  let below := 4 * x.mantissa * num / den
  let overshoot := 2 * (4 * x.mantissa * num - below * den)
  match x.reads k below, x.reads k (below + 1) with
  | true, true =>
    some (if overshoot < den ∨ (overshoot = den ∧ below % 2 = 0) then below else below + 1)
  | true, false => some below
  | false, true => some (below + 1)
  | false, false => none

/-- The grids of all finite doubles, the coarsest first. -/
def grids : List Int := (List.range 635).map fun (i : Nat) => 309 - (i : Int)

/-- The digits and the decimal exponent of the shortest decimal that reads back as `x`. -/
def Dyadic.shortest (x : Dyadic) : Nat × Int :=
  (grids.findSome? fun k => (x.onGrid? k).map (·, k)).getD (0, 0)

/-- Writes `digits * 10 ^ exponent`: positional when the point falls within sixteen places of the
first digit or at most five zeros follow it, else in scientific form. A whole number ends in
`.0`. -/
def layout (digits : Nat) (exponent : Int) : String :=
  let text := (toString digits).toList
  let point := (text.length : Int) + exponent
  String.ofList <|
    if 0 ≤ exponent ∧ point ≤ 16 then
      text ++ List.replicate exponent.toNat '0' ++ ['.', '0']
    else if 0 < point ∧ point ≤ 16 then
      text.take point.toNat ++ '.' :: text.drop point.toNat
    else if -5 < point ∧ point ≤ 0 then
      '0' :: '.' :: List.replicate (-point).toNat '0' ++ text
    else
      let scale := 'e' :: (toString (point - 1)).toList
      match text with
      | [digit] => digit :: scale
      | digit :: rest => digit :: '.' :: rest ++ scale
      | [] => scale

/-- The text of a finite double: the fewest digits that read back as it. -/
def ofFloat (x : Float) : String :=
  let bits := x.toBits
  let magnitude := bits &&& 0x7FFFFFFFFFFFFFFF
  let sign := if bits = magnitude then "" else "-"
  if magnitude = 0 then sign ++ "0.0"
  else
    let (digits, exponent) := (Dyadic.ofBits magnitude).shortest
    sign ++ layout digits exponent

end MinerGateway.Decimal
