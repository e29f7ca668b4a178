/-!
# Finite binary floating-point numbers

The finite numbers of the 64-bit binary format, as a sign, a significand and a power of two. No
infinity and no NaN is needed: a number that is too large is refused where it is read.

* `Binary64` pairs a significand of at most 53 bits with an exponent, in the one canonical way.
* `Binary64.nearest?` rounds a fraction to the nearest number, a tie to the even significand.
-/

namespace ObjectRelational

/-- One more than the largest significand, which has 53 bits. -/
abbrev significandLimit : Nat := 0x20000000000000

/-- The least significand that has all 53 bits. -/
abbrev leastNormal : Nat := 0x10000000000000

/-- A finite number, `(-1)^negative * significand * 2^exponent`. -/
structure Binary64 where
  /-- The sign; zero has two signs. -/
  negative : Bool
  /-- The magnitude in units of `2^exponent`. -/
  significand : Nat
  /-- The power of two that the significand counts. -/
  exponent : Int
  /-- The significand has 53 bits unless the exponent is the least one. -/
  canonical : significand < significandLimit ∧ -1074 ≤ exponent ∧ exponent ≤ 971 ∧
    (leastNormal ≤ significand ∨ exponent = -1074)
deriving DecidableEq

namespace Binary64

/-- The number with the given parts, if they are canonical. -/
def ofParts? (negative : Bool) (significand : Nat) (exponent : Int) : Option Binary64 :=
  if h : significand < significandLimit ∧ -1074 ≤ exponent ∧ exponent ≤ 971 ∧
      (leastNormal ≤ significand ∨ exponent = -1074) then
    some ⟨negative, significand, exponent, h⟩
  else none

/-- Zero with a sign. -/
def zero (negative : Bool) : Binary64 := ⟨negative, 0, -1074, by decide⟩

/-- Is the magnitude zero? -/
def isZero (x : Binary64) : Bool := x.significand == 0

/-- The magnitude as a numerator and a denominator. -/
def fraction (x : Binary64) : Nat × Nat :=
  if 0 ≤ x.exponent then (x.significand * Nat.pow 2 x.exponent.toNat, 1)
  else (x.significand, Nat.pow 2 (-x.exponent).toNat)

/-- The fraction `num / den` counted in units of `2^exponent`, as a fraction. -/
def inUnits (num den : Nat) (exponent : Int) : Nat × Nat :=
  if 0 ≤ exponent then (num, den * Nat.pow 2 exponent.toNat)
  else (num * Nat.pow 2 (-exponent).toNat, den)

/-- The nearest integer to a fraction; of two equally near ones the even one. -/
def roundHalfEven (num den : Nat) : Nat :=
  let quotient := num / den
  let twice := 2 * (num % den)
  if twice < den then quotient
  else if den < twice then quotient + 1
  else if quotient % 2 = 0 then quotient else quotient + 1

/-- The exponent whose units give `num / den` 53 bits, or the least exponent. The difference of
the binary logarithms is either right or one too large, which the quotient tells. -/
def unitOf (num den : Nat) : Int :=
  let low := max (-1074) ((num.log2 : Int) - (den.log2 : Int) - 53)
  let units := inUnits num den low
  if units.1 / units.2 < significandLimit then low else low + 1

/-- The number nearest to `num / den`; none when that is beyond the largest finite number. -/
def nearest? (negative : Bool) (num den : Nat) : Option Binary64 :=
  if num = 0 then some (zero negative)
  else
    let exponent := unitOf num den
    let units := inUnits num den exponent
    let significand := roundHalfEven units.1 units.2
    if significand = significandLimit then ofParts? negative leastNormal (exponent + 1)
    else ofParts? negative significand exponent

/-- The product, rounded to nearest. -/
def mul? (x y : Binary64) : Option Binary64 :=
  nearest? (x.negative != y.negative) (x.fraction.1 * y.fraction.1) (x.fraction.2 * y.fraction.2)

/-- The quotient, rounded to nearest. -/
def div? (x y : Binary64) : Option Binary64 :=
  nearest? (x.negative != y.negative) (x.fraction.1 * y.fraction.2) (x.fraction.2 * y.fraction.1)

end Binary64

end ObjectRelational
