import Bson.Decimal.Basic

/-!
# The shortest decimal of a double

The decimal with the fewest digits that rounds to a given positive double and, of those, the one
nearest to it.

On the grid of decimals with `n` digits the two neighbours of the value are tested, for
`n = 1, 2, …, 17`; the first grid with a hit wins. Two hits at the same distance are told apart by
a `Tie`. Were there no hit, the exact decimal of the double would stand in, so what is found always
rounds to the double.
-/

namespace Bson

/-- Which of two equally near decimals is taken. -/
inductive Tie
  | up
  | even
  deriving DecidableEq

namespace Decimal

/-- The number of decimal digits of a natural number, at least one. -/
def digitCount (n : Nat) : Nat :=
  if n < 10 then 1 else digitCount (n / 10) + 1

/-- The `k` with `10 ^ (k - 1) ≤ num / den < 10 ^ k`. -/
def pointPosition (num den : Nat) : Int :=
  if den ≤ num then digitCount (num / den) else 1 - (digitCount ((den - 1) / num) : Int)

/-- The numerator of the magnitude of a finite double. -/
def magnitudeNum (x : Double) : Nat := x.significand * 2 ^ x.scale.toNat

/-- The denominator of the magnitude of a finite double. -/
def magnitudeDen (x : Double) : Nat := 2 ^ (-x.scale).toNat

/-- The quotient `num / den` in units of `10 ^ g`, as numerator and denominator. -/
def inUnits (num den : Nat) (g : Int) : Nat × Nat :=
  (num * 10 ^ (-g).toNat, den * 10 ^ g.toNat)

/-- The neighbour of a double on the grid of multiples of `10 ^ g` that rounds to it, the nearer
one if both do. -/
def onGrid? (tie : Tie) (x : Double) (g : Int) : Option Decimal :=
  let (num, den) := inUnits (magnitudeNum x) (magnitudeDen x) g
  let low := num / den
  let below : Decimal := ⟨low, g⟩
  let above : Decimal := ⟨low + 1, g⟩
  let rest := num % den
  let preferAbove : Bool :=
    if 2 * rest = den then tie = .up ∨ low % 2 = 1 else den < 2 * rest
  match decide (below.toDouble false = x), decide (above.toDouble false = x) with
  | true, true => some (if preferAbove then above else below)
  | true, false => some below
  | false, true => some above
  | false, false => none

/-- The exact decimal of a finite double. -/
def exact (x : Double) : Decimal :=
  if 0 ≤ x.scale then ⟨magnitudeNum x, 0⟩
  else ⟨x.significand * 5 ^ (-x.scale).toNat, x.scale⟩

/-- The same number without zeros at the end of the coefficient; the first argument bounds how many
are taken off. -/
def dropZeros : Nat → Decimal → Decimal
  | 0, d => d
  | n + 1, d =>
    if d.coefficient % 10 = 0 then dropZeros n ⟨d.coefficient / 10, d.exponent + 1⟩ else d

/-- The shortest decimal that rounds to a finite double without its sign; zero is `0`. -/
def shortest (tie : Tie) (x : Double) : Decimal :=
  if x.isZero then ⟨0, 0⟩
  else
    let x := x.abs
    let k := pointPosition (magnitudeNum x) (magnitudeDen x)
    let hit := (List.range 17).findSome? fun i => onGrid? tie x (k - (i + 1 : Nat))
    let d := hit.getD (exact x)
    dropZeros (digitCount d.coefficient) d

end Decimal

end Bson
