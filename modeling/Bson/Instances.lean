/-!
# Instances

The powers of numbers and the comparison of byte arrays that the definitions mean. A library
that gives these types further instances does not change them.
-/

namespace Bson

@[default_instance high]
instance instPowIntNat : Pow Int Nat := ⟨Int.pow⟩

@[default_instance high]
instance instPowNatNat : Pow Nat Nat := ⟨Nat.pow⟩

instance instDecidableEqBytes : DecidableEq ByteArray := ByteArray.instDecidableEq

end Bson
