import Bson.Instances

/-!
# Little-endian numbers

A natural number as a fixed number of bytes, least significant first, and back.

* `LittleEndian.bytes w n`: the `w` low bytes of `n`; `LittleEndian.value`: the number that bytes
  spell.
* `value_bytes` and `bytes_value`: the two are inverse, up to the bytes that do not fit.
* `bytes_append`: the bytes of two numbers beside each other are those of one number.
* `ofInt32`, `ofInt64`, `ofUInt64` and their readers, on `ByteArray`; for arrays of the right size
  the two are inverse.
-/

namespace Bson.LittleEndian

/-- The `w` low bytes of `n`, least significant first. -/
def bytes : Nat → Nat → List UInt8
  | 0, _ => []
  | w + 1, n => UInt8.ofNat n :: bytes w (n / 256)

/-- The number that bytes spell, least significant first. -/
def value : List UInt8 → Nat
  | [] => 0
  | b :: rest => b.toNat + 256 * value rest

@[simp] theorem length_bytes (w n : Nat) : (bytes w n).length = w := by
  induction w generalizing n with
  | zero => rfl
  | succ w ih => simp [bytes, ih]

theorem value_bytes (w n : Nat) : value (bytes w n) = n % 256 ^ w := by
  induction w generalizing n with
  | zero => simp [bytes, value, Nat.mod_one]
  | succ w ih =>
    rw [bytes, value, ih, UInt8.toNat_ofNat']
    change n % 256 + 256 * (n / 256 % 256 ^ w) = n % 256 ^ (w + 1)
    rw [Nat.pow_succ', Nat.mod_mul]

theorem value_lt (l : List UInt8) : value l < 256 ^ l.length := by
  induction l with
  | nil => exact Nat.one_pos
  | cons b rest ih =>
    have hb := b.toNat_lt
    rw [value, List.length_cons, Nat.pow_succ']
    omega

theorem bytes_value (l : List UInt8) : bytes l.length (value l) = l := by
  induction l with
  | nil => rfl
  | cons b rest ih =>
    have hb := b.toNat_lt
    have hdiv : (b.toNat + 256 * value rest) / 256 = value rest := by omega
    have hmod : UInt8.ofNat (b.toNat + 256 * value rest) = b := by
      apply UInt8.toNat_inj.1
      rw [UInt8.toNat_ofNat']
      omega
    rw [List.length_cons, value, bytes, hdiv, hmod, ih]

/-- The low bytes of a number stand in front of its high bytes. -/
theorem bytes_append {v w m n : Nat} (h : m < 256 ^ v) :
    bytes v m ++ bytes w n = bytes (v + w) (m + 256 ^ v * n) := by
  induction v generalizing m with
  | zero =>
    obtain rfl : m = 0 := Nat.lt_one_iff.1 h
    change bytes w n = bytes (0 + w) (0 + 1 * n)
    rw [Nat.zero_add, Nat.zero_add, Nat.one_mul]
  | succ v ih =>
    rw [Nat.pow_succ'] at h
    have hsplit : m + 256 ^ (v + 1) * n = m + 256 * (256 ^ v * n) := by
      rw [Nat.pow_succ', Nat.mul_assoc]
    have hfirst : UInt8.ofNat (m + 256 * (256 ^ v * n)) = UInt8.ofNat m := by
      apply UInt8.toNat_inj.1
      rw [UInt8.toNat_ofNat', UInt8.toNat_ofNat']
      omega
    have hrest : (m + 256 * (256 ^ v * n)) / 256 = m / 256 + 256 ^ v * n := by omega
    rw [Nat.succ_add, hsplit, bytes, bytes, hfirst, hrest, List.cons_append, ih (by omega)]

/-- The four bytes of a 32-bit integer in two's complement. -/
def ofInt32 (n : Int32) : ByteArray := (bytes 4 n.toUInt32.toNat).toByteArray

/-- The eight bytes of a 64-bit integer in two's complement. -/
def ofInt64 (n : Int64) : ByteArray := (bytes 8 n.toUInt64.toNat).toByteArray

/-- The eight bytes of an unsigned 64-bit number. -/
def ofUInt64 (n : UInt64) : ByteArray := (bytes 8 n.toNat).toByteArray

/-- The number that the bytes of an array spell. -/
def toNat (b : ByteArray) : Nat := value b.data.toList

/-- The 32-bit integer that four bytes spell in two's complement. -/
def toInt32 (b : ByteArray) : Int32 := (UInt32.ofNat (toNat b)).toInt32

/-- The 64-bit integer that eight bytes spell in two's complement. -/
def toInt64 (b : ByteArray) : Int64 := (UInt64.ofNat (toNat b)).toInt64

/-- The unsigned 64-bit number that eight bytes spell. -/
def toUInt64 (b : ByteArray) : UInt64 := UInt64.ofNat (toNat b)

@[simp] theorem size_ofInt32 (n : Int32) : (ofInt32 n).size = 4 := by simp [ofInt32]

@[simp] theorem size_ofInt64 (n : Int64) : (ofInt64 n).size = 8 := by simp [ofInt64]

@[simp] theorem size_ofUInt64 (n : UInt64) : (ofUInt64 n).size = 8 := by simp [ofUInt64]

theorem bytes_toNat {w : Nat} {b : ByteArray} (h : b.size = w) :
    (bytes w (toNat b)).toByteArray = b := by
  apply ByteArray.ext
  apply Array.toList_inj.1
  rw [List.toList_data_toByteArray, ← h]
  exact bytes_value b.data.toList

theorem toNat_lt {w : Nat} {b : ByteArray} (h : b.size = w) : toNat b < 256 ^ w := by
  rw [← h]
  exact value_lt b.data.toList

/-- Four bytes are those of the integer that they spell. -/
theorem ofInt32_toInt32 {b : ByteArray} (h : b.size = 4) : ofInt32 (toInt32 b) = b := by
  have hlt : toNat b < 2 ^ 32 := toNat_lt h
  have hn : (toInt32 b).toUInt32.toNat = toNat b := Nat.mod_eq_of_lt hlt
  rw [ofInt32, hn, bytes_toNat h]

/-- Eight bytes are those of the number that they spell. -/
theorem ofUInt64_toUInt64 {b : ByteArray} (h : b.size = 8) : ofUInt64 (toUInt64 b) = b := by
  have hlt : toNat b < 2 ^ 64 := toNat_lt h
  have hn : (toUInt64 b).toNat = toNat b := Nat.mod_eq_of_lt hlt
  rw [ofUInt64, hn, bytes_toNat h]

theorem ofInt64_toInt64 {b : ByteArray} (h : b.size = 8) : ofInt64 (toInt64 b) = b :=
  ofUInt64_toUInt64 h

theorem toNat_toByteArray (l : List UInt8) : toNat l.toByteArray = value l := by
  simp [toNat]

@[simp] theorem toInt32_ofInt32 (n : Int32) : toInt32 (ofInt32 n) = n := by
  have h : n.toUInt32.toNat % 256 ^ 4 = n.toUInt32.toNat := Nat.mod_eq_of_lt n.toUInt32.toNat_lt
  rw [toInt32, ofInt32, toNat_toByteArray, value_bytes, h, UInt32.ofNat_toNat]
  rfl

@[simp] theorem toUInt64_ofUInt64 (n : UInt64) : toUInt64 (ofUInt64 n) = n := by
  have h : n.toNat % 256 ^ 8 = n.toNat := Nat.mod_eq_of_lt n.toNat_lt
  rw [toUInt64, ofUInt64, toNat_toByteArray, value_bytes, h, UInt64.ofNat_toNat]

@[simp] theorem toInt64_ofInt64 (n : Int64) : toInt64 (ofInt64 n) = n := by
  have h : n.toUInt64.toNat % 256 ^ 8 = n.toUInt64.toNat := Nat.mod_eq_of_lt n.toUInt64.toNat_lt
  rw [toInt64, ofInt64, toNat_toByteArray, value_bytes, h, UInt64.ofNat_toNat]
  rfl

end Bson.LittleEndian
