import Bson.Error

/-!
# Conversion hooks

What a conversion hook gives when it is called once, and how the value that carries it is shown
while it is being looked into.
-/

namespace Bson.Value

/-- The value that the hook of a convertible value returns; other values are their own result. -/
def resolve : Value → Except Error Value
  | .hook _ result => .ok result
  | .brokenHook slot => .error (.hookInvalid (.notCallable slot.kind))
  | v => .ok v

/-- The text that stands for a hook that can be called. -/
def hookText : String := "Convertible(<fn>)"

end Bson.Value
