import Bson.Instances

/-!
# 64-bit numbers in two halves

`Long` is a signed and `Timestamp` an unsigned 64-bit number, each kept as a low and a high
32-bit integer. A number is `high * 2 ^ 32 + low`, the low half counted as unsigned.

* `Long.toInt64_ofInt64`, `Long.ofInt64_toInt64` and the same of `Timestamp`: a number and its
  halves determine each other.
* `Long.toNat_toInt64`, `Timestamp.toNat_toUInt64`: the number, read without a sign.
-/

namespace Bson

/-- The unsigned reading of 32 bits. Powers of two stand as numbers here and below, which is how
`omega` takes them. -/
theorem toNat_toUInt32 (x : Int32) : (x.toUInt32.toNat : Int) = x.toInt % 4294967296 := by
  change (x.toBitVec.toNat : Int) = x.toBitVec.toInt % 4294967296
  have := x.toBitVec.isLt
  rw [BitVec.toInt_eq_toNat_cond]
  split <;> omega

/-- The signed reading of a natural number is a half that reads the same without a sign. -/
theorem toInt32_ofNat {n : Nat} {half : Int32} (h : n % 4294967296 = half.toUInt32.toNat) :
    (UInt32.ofNat n).toInt32 = half :=
  congrArg UInt32.toInt32 ((UInt32.ofNat_eq_iff_mod_eq_toNat n half.toUInt32).2 h)

/-- A signed 64-bit integer in two halves. -/
structure Long where
  low : Int32
  high : Int32
  deriving DecidableEq

namespace Long

/-- The halves of an integer. -/
def ofInt64 (n : Int64) : Long := ⟨Int32.ofInt n.toInt, Int32.ofInt (n.toInt / 2 ^ 32)⟩

/-- The integer with given halves. -/
def toInt64 (l : Long) : Int64 := Int64.ofInt (l.high.toInt * 2 ^ 32 + l.low.toUInt32.toNat)

/-- An integer is put together again from its halves. -/
theorem toInt64_ofInt64 (n : Int64) : (ofInt64 n).toInt64 = n := by
  have hle : -9223372036854775808 ≤ n.toInt := n.le_toInt
  have hlt : n.toInt < 9223372036854775808 := n.toInt_lt
  have hsum : (n.toInt / 4294967296).bmod 4294967296 * 4294967296 +
      n.toInt.bmod 4294967296 % 4294967296 = n.toInt := by
    rw [Int.bmod_def, Int.bmod_def]
    omega
  rw [toInt64, toNat_toUInt32, ofInt64, Int32.toInt_ofInt, Int32.toInt_ofInt]
  exact (congrArg Int64.ofInt hsum).trans (Int64.ofInt_toInt n)

/-- Halves are those of the integer that they make. -/
theorem ofInt64_toInt64 (l : Long) : ofInt64 l.toInt64 = l := by
  obtain ⟨low, high⟩ := l
  have hlow : -2147483648 ≤ low.toInt := low.le_toInt
  have hlow' : low.toInt < 2147483648 := low.toInt_lt
  have hhigh : -2147483648 ≤ high.toInt := high.le_toInt
  have hhigh' : high.toInt < 2147483648 := high.toInt_lt
  have hrange : -9223372036854775808 ≤ high.toInt * 4294967296 + low.toInt % 4294967296 ∧
      high.toInt * 4294967296 + low.toInt % 4294967296 < 9223372036854775808 := by omega
  have hvalue : (toInt64 ⟨low, high⟩).toInt =
      high.toInt * 4294967296 + low.toInt % 4294967296 := by
    rw [toInt64, toNat_toUInt32]
    exact Int64.toInt_ofInt_of_le hrange.1 hrange.2
  have hhighPart : (high.toInt * 4294967296 + low.toInt % 4294967296) / 4294967296 =
      high.toInt := by omega
  have hlowPart : (high.toInt * 4294967296 + low.toInt % 4294967296).bmod 4294967296 =
      low.toInt := by
    rw [Int.bmod_def]
    omega
  rw [ofInt64, hvalue, mk.injEq]
  exact ⟨Int32.toInt_inj.1 (Int32.toInt_ofInt.trans hlowPart),
    (congrArg Int32.ofInt hhighPart).trans (Int32.ofInt_toInt high)⟩

/-- The unsigned reading of the integer that halves make. -/
theorem toNat_toInt64 (l : Long) :
    l.toInt64.toUInt64.toNat = l.high.toUInt32.toNat * 4294967296 + l.low.toUInt32.toNat := by
  have hhigh := toNat_toUInt32 l.high
  have hlow : l.low.toUInt32.toNat < 4294967296 := l.low.toUInt32.toNat_lt
  change (BitVec.ofInt 64 (l.high.toInt * 4294967296 + l.low.toUInt32.toNat)).toNat = _
  rw [BitVec.toNat_ofInt]
  omega

end Long

/-- An internal timestamp: an increment in the low half, seconds in the high half. -/
structure Timestamp where
  low : Int32
  high : Int32
  deriving DecidableEq

namespace Timestamp

/-- The halves of an unsigned number. -/
def ofUInt64 (n : UInt64) : Timestamp :=
  ⟨(UInt32.ofNat n.toNat).toInt32, (UInt32.ofNat (n.toNat / 2 ^ 32)).toInt32⟩

/-- The unsigned number with given halves. -/
def toUInt64 (t : Timestamp) : UInt64 :=
  UInt64.ofNat (t.high.toUInt32.toNat * 2 ^ 32 + t.low.toUInt32.toNat)

/-- The number that halves make. -/
theorem toNat_toUInt64 (t : Timestamp) :
    t.toUInt64.toNat = t.high.toUInt32.toNat * 4294967296 + t.low.toUInt32.toNat := by
  have hhigh : t.high.toUInt32.toNat < 4294967296 := t.high.toUInt32.toNat_lt
  have hlow : t.low.toUInt32.toNat < 4294967296 := t.low.toUInt32.toNat_lt
  have hlt : t.high.toUInt32.toNat * 4294967296 + t.low.toUInt32.toNat < 18446744073709551616 := by
    omega
  exact UInt64.toNat_ofNat_of_lt' hlt

/-- A number is put together again from its halves. -/
theorem toUInt64_ofUInt64 (n : UInt64) : (ofUInt64 n).toUInt64 = n := by
  have hlt : n.toNat < 18446744073709551616 := n.toNat_lt
  have hsum : n.toNat / 4294967296 % 4294967296 * 4294967296 + n.toNat % 4294967296 = n.toNat := by
    omega
  exact (congrArg UInt64.ofNat hsum).trans UInt64.ofNat_toNat

/-- Halves are those of the number that they make. -/
theorem ofUInt64_toUInt64 (t : Timestamp) : ofUInt64 t.toUInt64 = t := by
  obtain ⟨low, high⟩ := t
  have hhigh : high.toUInt32.toNat < 4294967296 := high.toUInt32.toNat_lt
  have hlow : low.toUInt32.toNat < 4294967296 := low.toUInt32.toNat_lt
  have hlowPart : (high.toUInt32.toNat * 4294967296 + low.toUInt32.toNat) % 4294967296 =
      low.toUInt32.toNat := by omega
  have hhighPart : (high.toUInt32.toNat * 4294967296 + low.toUInt32.toNat) / 4294967296 %
      4294967296 = high.toUInt32.toNat := by omega
  rw [ofUInt64, toNat_toUInt64, mk.injEq]
  exact ⟨toInt32_ofNat hlowPart, toInt32_ofNat hhighPart⟩

end Timestamp

end Bson
