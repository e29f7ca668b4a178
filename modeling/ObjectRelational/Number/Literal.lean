import ObjectRelational.Number.Binary64

/-!
# Reading decimal literals

A decimal literal is read from the leading digits that fit into 64 bits, which are rounded to a
binary number and then scaled by powers of ten, each step rounding to nearest. For literals of up
to fifteen digits and moderate exponents the result is the nearest number.

* `DecimalLiteral` holds the digits as they are written.
* `DecimalLiteral.integer?` is the value of a literal that is an integer of 64 bits.
* `DecimalLiteral.float?` is its value as a binary number.
-/

namespace ObjectRelational

/-- A number as it is written. -/
structure DecimalLiteral where
  /-- Is there a minus sign? -/
  negative : Bool
  /-- The digits before the point. -/
  whole : List Nat
  /-- The digits behind the point; there is a point if there is one of them. -/
  fraction : List Nat := []
  /-- The exponent, where one is written. -/
  exponent : Option Int := none

namespace DecimalLiteral

/-- The largest integer of 64 bits. -/
def maxWord : Nat := UInt64.size - 1

/-- Appends digits to a number for as long as it fits into 64 bits; answers the number and the
digits left over. -/
def takeDigits (number : Nat) : List Nat → Nat × List Nat
  | [] => (number, [])
  | d :: rest =>
    if number * 10 + d ≤ maxWord then takeDigits (number * 10 + d) rest else (number, d :: rest)

/-- The integer that the literal writes, if it writes one and it fits: an unsigned or a negative
signed integer of 64 bits. Minus zero is not an integer. -/
def integer? (l : DecimalLiteral) : Option Int :=
  match l.fraction, l.exponent, takeDigits 0 l.whole with
  | [], none, (number, []) =>
    if !l.negative then some number
    else if 0 < number ∧ Int64.minValue.toInt ≤ -number then some (-number)
    else none
  | _, _, _ => none

/-- The power of ten with the given exponent, rounded to nearest. -/
def power? (exponent : Nat) : Option Binary64 := Binary64.nearest? false (Nat.pow 10 exponent) 1

/-- Divides by a power of ten, in steps of at most `10^308`. -/
def scaleDown? (x : Binary64) (exponent : Nat) : Option Binary64 :=
  if exponent ≤ 308 then (power? exponent).bind x.div?
  else if x.isZero then some x
  else (power? 308).bind x.div? |>.bind fun y => scaleDown? y (exponent - 308)
termination_by exponent

/-- Multiplies by a power of ten. Only zero can be scaled by more than `10^308`. -/
def scaleUp? (x : Binary64) (exponent : Nat) : Option Binary64 :=
  if exponent ≤ 308 then (power? exponent).bind x.mul?
  else if x.isZero then some x
  else none

/-- The binary number that the literal stands for; none when it is too large. -/
def float? (l : DecimalLiteral) : Option Binary64 :=
  let (whole, dropped) := takeDigits 0 l.whole
  let (number, unused) := takeDigits whole l.fraction
  let exponent : Int :=
    dropped.length - (l.fraction.length - unused.length) + l.exponent.getD 0
  (Binary64.nearest? l.negative number 1).bind fun x =>
    if 0 ≤ exponent then scaleUp? x exponent.toNat else scaleDown? x (-exponent).toNat

end DecimalLiteral

end ObjectRelational
