import ObjectRelational.Number.Shortest

/-!
# The text of a floating-point number

How the digits of a number are laid out: in place up to a certain magnitude, with an exponent
outside of it.
-/

namespace ObjectRelational

/-- The decisions of a number format. -/
structure FloatLayout where
  /-- The least decimal exponent of a first digit that is written in place. -/
  leastInPlace : Int
  /-- The least decimal exponent of a first digit that is too large to be written in place. -/
  firstTooLarge : Int
  /-- What stands behind the digits of a number in place that has no fraction. -/
  wholeMark : String
  /-- What stands before an exponent. -/
  exponentMark : String
  /-- Does a positive exponent have a sign? -/
  signsExponent : Bool

namespace FloatLayout

/-- The decimal digits of a natural number. -/
def digitsText (n : Nat) : String := toString n

/-- So many zeros. -/
def zeros (n : Nat) : String := String.ofList (List.replicate n '0')

/-- The digits in place; `scale` is the decimal exponent of the first one. -/
def inPlace (layout : FloatLayout) (digits : List Char) (scale : Int) : String :=
  if scale < 0 then "0." ++ zeros (-scale - 1).toNat ++ String.ofList digits
  else
    let whole := scale.toNat + 1
    if digits.length ≤ whole then
      String.ofList digits ++ zeros (whole - digits.length) ++ layout.wholeMark
    else String.ofList (digits.take whole) ++ "." ++ String.ofList (digits.drop whole)

/-- The digits with a point behind the first one, and the exponent of that one. -/
def withExponent (layout : FloatLayout) (digits : List Char) (scale : Int) : String :=
  let mantissa := match digits with
    | [] => ""
    | [d] => String.ofList [d]
    | d :: rest => String.ofList [d, '.'] ++ String.ofList rest
  let sign := if scale < 0 then "-" else if layout.signsExponent then "+" else ""
  mantissa ++ layout.exponentMark ++ sign ++ digitsText scale.natAbs

/-- The text of a number. -/
def text (layout : FloatLayout) (x : Binary64) : String :=
  let decimal := x.shortest
  let digits := (digitsText decimal.digits).toList
  let scale := decimal.exponent + digits.length - 1
  let magnitude :=
    if layout.leastInPlace ≤ scale ∧ scale < layout.firstTooLarge then
      layout.inPlace digits scale
    else layout.withExponent digits scale
  if x.negative then "-" ++ magnitude else magnitude

end FloatLayout

end ObjectRelational
