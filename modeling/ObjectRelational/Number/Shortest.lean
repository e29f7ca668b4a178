import ObjectRelational.Number.Binary64

/-!
# The shortest decimal of a binary number

A number is written with the fewest decimal digits that read back as the same number; of the
decimals with so many digits, the nearest one.

* `Decimal` is a run of digits and a power of ten.
* `Binary64.shortest` finds the digits by exact integer arithmetic.
-/

namespace ObjectRelational

/-- The decimal number `digits * 10^exponent`. -/
structure Decimal where
  /-- All digits as one integer. -/
  digits : Nat
  /-- The power of ten that the last digit counts. -/
  exponent : Int
deriving DecidableEq

namespace Decimal

/-- The number as a numerator and a denominator. -/
def fraction (d : Decimal) : Nat × Nat :=
  if 0 ≤ d.exponent then (d.digits * Nat.pow 10 d.exponent.toNat, 1)
  else (d.digits, Nat.pow 10 (-d.exponent).toNat)

/-- Moves trailing zeros of the digits into the exponent, at most `fuel` of them. -/
def dropZeros : (fuel : Nat) → Decimal → Decimal
  | 0, d => d
  | fuel + 1, d =>
    if d.digits ≠ 0 ∧ d.digits % 10 = 0 then dropZeros fuel ⟨d.digits / 10, d.exponent + 1⟩ else d

end Decimal

namespace Binary64

/-- The decimal exponent of a positive fraction: `10^(e-1) ≤ num / den < 10^e`, for the `e` found
at or above `low` within `fuel` steps. -/
def decimalMagnitude (num den : Nat) : (fuel : Nat) → (low : Int) → Int
  | 0, low => low
  | fuel + 1, low =>
    let bound := Decimal.fraction ⟨1, low⟩
    if num * bound.2 < bound.1 * den then low else decimalMagnitude num den fuel (low + 1)

/-- Does the decimal read back as the number? -/
def readsBack (x : Binary64) (d : Decimal) : Bool :=
  nearest? x.negative d.fraction.1 d.fraction.2 = some x

/-- The decimal with `count` digits that reads back as the number and is nearest to it; of two
equally near ones the one with even digits. `magnitude` is the decimal exponent of the number. -/
def decimalWith? (x : Binary64) (magnitude : Int) (count : Nat) : Option Decimal :=
  let exponent := magnitude - count
  let unit := Decimal.fraction ⟨1, exponent⟩
  let num := x.fraction.1 * unit.2
  let den := x.fraction.2 * unit.1
  let below : Decimal := ⟨num / den, exponent⟩
  let above : Decimal := ⟨num / den + 1, exponent⟩
  let near := roundHalfEven num den
  let first := if near = below.digits then below else above
  let second := if near = below.digits then above else below
  if x.readsBack first then some first
  else if x.readsBack second then some second
  else none

/-- All digits of the number. -/
def exactDecimal (x : Binary64) : Decimal :=
  if 0 ≤ x.exponent then ⟨x.significand * Nat.pow 2 x.exponent.toNat, 0⟩
  else ⟨x.significand * Nat.pow 5 (-x.exponent).toNat, x.exponent⟩

/-- The shortest decimal that reads back as the number, without trailing zeros. Seventeen digits
always read back, so the exact decimal behind them is there for totality only. -/
def shortest (x : Binary64) : Decimal :=
  if x.isZero then ⟨0, 0⟩
  else
    let magnitude := decimalMagnitude x.fraction.1 x.fraction.2 700 (-330)
    let found := (List.range 17).findSome? fun n => x.decimalWith? magnitude (n + 1)
    (found.getD x.exactDecimal).dropZeros 400

end Binary64

end ObjectRelational
