import Bson.Decimal.Shortest

/-!
# Writing a double in decimal

The digits are chosen by `Decimal.shortest`; a `Layout` says how they are set out: which exponents
get an exponent mark, what follows a whole number, how the values that are no numbers are written,
and which of two equally near shortest decimals is taken.
-/

namespace Bson.Decimal

/-- How a double is set out as text. -/
structure Layout where
  /-- Which of two equally near shortest decimals is written. -/
  tie : Tie
  /-- Whether the number `d.ddd * 10 ^ e` is written with an exponent, given `e`. -/
  hasMark : Int → Bool
  /-- What follows the digits of a whole number that has no exponent mark. -/
  wholeEnd : String
  /-- The text of a value that is not a number. -/
  nan : String
  /-- The text of infinity without its sign. -/
  infinity : String

/-- The decimal digits of a natural number, most significant first. -/
def digits (n : Nat) : List Char := Nat.toDigits 10 n

/-- Digits with a point after the first `point` of them, filled up with zeros on either side. -/
def positional (wholeEnd : String) (ds : List Char) (point : Int) : String :=
  if point ≤ 0 then
    "0." ++ String.ofList (List.replicate (-point).toNat '0' ++ ds)
  else
    let whole := ds.take point.toNat
    let rest := ds.drop point.toNat
    let zeros := List.replicate (point.toNat - ds.length) '0'
    String.ofList (whole ++ zeros) ++
      if rest.isEmpty then wholeEnd else "." ++ String.ofList rest

/-- Digits with a point after the first, and an exponent that always shows its sign. -/
def marked (ds : List Char) (e : Int) : String :=
  let mantissa := match ds with
    | [] => ""
    | [d] => d.toString
    | d :: rest => d.toString ++ "." ++ String.ofList rest
  let sign := if e < 0 then "-" else "+"
  mantissa ++ "e" ++ sign ++ String.ofList (digits e.natAbs)

/-- The text of a decimal. -/
def Layout.decimalText (layout : Layout) (d : Decimal) : String :=
  let ds := digits d.coefficient
  let point : Int := if d.coefficient = 0 then 1 else ds.length + d.exponent
  if layout.hasMark (point - 1) then marked ds (point - 1)
  else positional layout.wholeEnd ds point

/-- The text of a double. -/
def Layout.text (layout : Layout) (x : Double) : String :=
  if x.isNaN then layout.nan
  else
    (if x.isNegative then "-" else "") ++
      if x.isFinite then layout.decimalText (shortest layout.tie x) else layout.infinity

end Bson.Decimal
