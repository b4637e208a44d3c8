import Bson.Decimal.Basic
import Bson.Text.Numeral

/-!
# Reading a double from text

* `Text.Numeral.toDouble`: the double nearest to a decimal number.
* `Double.ofText?`: a free-standing number. A sign may stand in front, either side of the point may
  be empty, and `inf`, `infinity` and `nan` count in any case of letters.
-/

namespace Bson

/-- The double nearest to a decimal number. -/
def Text.Numeral.toDouble (n : Text.Numeral) : Double :=
  Decimal.toDouble n.isNegative ⟨n.coefficient, n.scale⟩

namespace Double

/-- The double that a word without sign names. -/
def ofName? (negative : Bool) (word : List Char) : Option Double :=
  let lower := String.ofList (word.map Char.toLower)
  if lower = "inf" ∨ lower = "infinity" then some (infinity negative)
  else if lower = "nan" then some (nan negative)
  else none

/-- The double that a text names or spells. -/
def ofText? (s : String) : Option Double :=
  let (sign, word) := Text.splitSign s.toList
  (ofName? (sign = some '-') word).orElse fun _ =>
    (Text.Numeral.ofChars? s.toList).bind fun n =>
      if n.whole.isEmpty ∧ (n.fraction.getD []).isEmpty then none else some n.toDouble

end Double

end Bson
