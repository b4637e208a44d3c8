import Bson.Error

/-!
# Keys of documents

The strict rule for keys: no NUL, no dollar sign in front, no dot. The empty key passes. Of several
faults the first in this order counts.
-/

namespace Bson.Key

/-- What is wrong with a key, if anything. -/
def fault? (key : String) : Option KeyFault :=
  if key.toList.contains '\x00' then some .containsNul
  else if key.toList.head? = some '$' then some .startsWithDollar
  else if key.toList.contains '.' then some .containsDot
  else none

/-- Refuses a key that breaks the rule. -/
def check (key : String) : Except Error Unit :=
  match fault? key with
  | some fault => .error (.keyInvalid key fault)
  | none => .ok ()

end Bson.Key
