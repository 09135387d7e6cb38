/- # Binary64 -- nonnegative binary64 numbers in exact integer arithmetic

A number is `significand * 2 ^ exponent`.  `ofRatio` rounds a quotient of naturals to the nearest
number (ties to even), `shortest` writes the fewest decimal digits that read back as the same number,
`fixed` writes a fixed count of decimal places of the exact value, and `overflowsScaled` decides whether
a decimal `digits * 10 ^ scale` leaves the range when it is scaled in binary64. -/
set_option autoImplicit false

namespace PointsTo

/-- The number `significand * 2 ^ exponent`. -/
structure Binary64 where
  significand : Nat
  exponent : Int
  deriving DecidableEq, Repr

/-- `2 ^ n`. -/
def twoTo (n : Nat) : Nat := Nat.pow 2 n

/-- `10 ^ n`. -/
def tenTo (n : Nat) : Nat := Nat.pow 10 n

/-- `num / den` rounded to the nearest natural, a tie going to the even neighbour. -/
def roundedQuotient (num den : Nat) : Nat :=
  let quotient := num / den
  let rest := num % den
  if den < 2 * rest ∨ (2 * rest = den ∧ quotient % 2 = 1) then quotient + 1 else quotient

namespace Binary64

/-- The number zero. -/
def zero : Binary64 := ⟨0, 0⟩

/-! ## Rounding -/

/-- The quotient `num / (den * 2 ^ exponent)` rounded to a natural. -/
def roundAt (num den : Nat) (exponent : Int) : Nat :=
  if 0 ≤ exponent then roundedQuotient num (den * twoTo exponent.toNat)
  else roundedQuotient (num * twoTo (-exponent).toNat) den

/-- The nearest number to `num / den` with 53 significant bits, for a positive quotient in the normal
range; zero when one of the two is zero. -/
def ofRatio (num den : Nat) : Binary64 :=
  if num = 0 ∨ den = 0 then zero
  else
    let guess : Int := (num.log2 : Int) - (den.log2 : Int) - 52
    let exponent := if roundAt num den guess < twoTo 52 then guess - 1 else guess
    let significand := roundAt num den exponent
    if significand < twoTo 53 then ⟨significand, exponent⟩ else ⟨twoTo 52, exponent + 1⟩

/-- The number as a quotient of naturals. -/
def ratio (x : Binary64) : Nat × Nat :=
  if 0 ≤ x.exponent then (x.significand * twoTo x.exponent.toNat, 1)
  else (x.significand, twoTo (-x.exponent).toNat)

/-! ## Decimal text -/

/-- `count * 10 ^ position` as a quotient of naturals. -/
def decimalRatio (count : Nat) (position : Int) : Nat × Nat :=
  if 0 ≤ position then (count * tenTo position.toNat, 1) else (count, tenTo (-position).toNat)

/-- Whether the quotient `a` is at most the quotient `b`. -/
def ratioLe (a b : Nat × Nat) : Bool := a.1 * b.2 ≤ b.1 * a.2

/-- Whether the quotient `a` is below the quotient `b`. -/
def ratioLt (a b : Nat × Nat) : Bool := a.1 * b.2 < b.1 * a.2

/-- Whether the decimal `count * 10 ^ position` rounds to `x`: it lies between the midpoints to the two
neighbours of `x`, which count as inside when the significand is even. -/
def readsBack (x : Binary64) (count : Nat) (position : Int) : Bool :=
  let below := if x.significand = twoTo 52 then 1 else 2
  let low := ratio ⟨4 * x.significand - below, x.exponent - 2⟩
  let high := ratio ⟨4 * x.significand + 2, x.exponent - 2⟩
  let point := decimalRatio count position
  if x.significand % 2 = 0 then ratioLe low point && ratioLe point high
  else ratioLt low point && ratioLt point high

/-- The decimal on the grid `10 ^ position` that reads back as `x`, the nearer of the two neighbours of
`x` when both do. -/
def gridPoint? (x : Binary64) (position : Int) : Option Nat :=
  let value := ratio x
  let unit := decimalRatio 1 position
  let lower := value.1 * unit.2 / (value.2 * unit.1)
  match readsBack x lower position, readsBack x (lower + 1) position with
  | false, false => none
  | true, false => some lower
  | false, true => some (lower + 1)
  | true, true => some (roundedQuotient (value.1 * unit.2) (value.2 * unit.1))

/-- The fewest digits that read back as `x`, with the decimal position of the last one.  Grids are tried
from coarse to fine, and the first one with a hit wins. -/
def shortestDigits (x : Binary64) : Nat × Int :=
  let value := ratio x
  let top : Int := (toString (value.1 / value.2)).length
  let found := (List.range 400).findSome? fun (step : Nat) =>
    let position : Int := top - step
    (gridPoint? x position).map fun count => (count, position)
  found.getD (0, 0)

/-- `count * 10 ^ position` in positional notation, with at least one digit after the point. -/
def positional (count : Nat) (position : Int) : String :=
  if 0 ≤ position then toString (count * tenTo position.toNat) ++ ".0"
  else
    let places := (-position).toNat
    let fraction := toString (count % tenTo places)
    toString (count / tenTo places) ++ "." ++
      String.ofList (List.replicate (places - fraction.length) '0') ++ fraction

/-- The shortest decimal that reads back, always with a point. -/
def shortest (x : Binary64) : String :=
  if x.significand = 0 then "0.0"
  else
    let digits := shortestDigits x
    positional digits.1 digits.2

/-- The exact value rounded to a positive number of decimal places, a tie going to the even digit. -/
def fixed (x : Binary64) (places : Nat) : String :=
  let value := ratio x
  positional (roundedQuotient (value.1 * tenTo places) value.2) (-places)

/-! ## Range -/

/-- Whether the product of two numbers rounds beyond the largest finite number. -/
def productOverflows (x y : Binary64) : Bool :=
  let product := ratio ⟨x.significand * y.significand, x.exponent + y.exponent⟩
  product.2 * ((twoTo 54 - 1) * twoTo 970) ≤ product.1

/-- Whether scaling `digits` by `10 ^ scale` leaves the range.  A scale above 308 always does; a scale of
zero or less never does. -/
def overflowsScaled (digits : Nat) (scale : Int) : Bool :=
  if digits = 0 ∨ scale < 0 then false
  else if 308 < scale then true
  else productOverflows (ofRatio digits 1) (ofRatio (tenTo scale.toNat) 1)

end Binary64

end PointsTo
