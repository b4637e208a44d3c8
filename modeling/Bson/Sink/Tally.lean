import Bson.Sink.Basic

/-!
# Counting without writing

A tally takes any bytes and keeps their number only.
-/

namespace Bson

/-- The number of bytes taken. -/
structure Tally where
  count : Nat := 0
  deriving DecidableEq

instance : Sink Tally where
  put bytes t := .ok ⟨t.count + bytes.size⟩
  reserve n t := .ok (t.count, ⟨t.count + n⟩)
  commitTag _ _ t := t
  commitLength _ t := t
  size t := t.count

end Bson
