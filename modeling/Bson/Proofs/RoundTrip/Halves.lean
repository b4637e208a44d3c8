import Bson.Proofs.ExtendedJson.Wrappers
import Bson.Proofs.RoundTrip.Numbers

/-!
# Numbers in halves

A number of 64 bits and its two halves are one thing wherever they are written or read.

* `Long.toBitVec_toInt64`, `Timestamp.toBitVec_toUInt64`: the halves are the upper and the lower
  bits of the number.
* `Long.halves_bytes`, `Timestamp.halves_bytes`: the bytes of the halves, the low one first, are the
  little-endian bytes of the number.
* `Writer.long_writes`, `Writer.timestamp_writes`: a writer appends these bytes.
  `Frame.payload_int64_eq_ok`, `Frame.payload_timestamp_eq_ok`: they are read as the halves.
* `ExtendedJson.timestampJson`: the wrapper of a timestamp, said of its number.
* `halves_agree`: the statement about halves and numbers.
-/

namespace Bson

open Grammar ExtendedJson

/-! ### Bits -/

/-- A number that two halves make has their bits beside each other. -/
theorem toBitVec_eq_append {bits : BitVec 64} {low high : Int32}
    (h : bits.toNat = high.toUInt32.toNat * 4294967296 + low.toUInt32.toNat) :
    bits = high.toBitVec ++ low.toBitVec := by
  have hlow : low.toBitVec.toNat < 2 ^ 32 := low.toBitVec.isLt
  apply BitVec.eq_of_toNat_eq
  rw [BitVec.toNat_append, ← Nat.shiftLeft_add_eq_or_of_lt hlow, Nat.shiftLeft_eq]
  exact h

theorem Long.toBitVec_toInt64 (l : Long) :
    l.toInt64.toBitVec = l.high.toBitVec ++ l.low.toBitVec :=
  toBitVec_eq_append l.toNat_toInt64

theorem Timestamp.toBitVec_toUInt64 (t : Timestamp) :
    t.toUInt64.toBitVec = t.high.toBitVec ++ t.low.toBitVec :=
  toBitVec_eq_append t.toNat_toUInt64

/-! ### Bytes -/

/-- Two halves, the low one first, are written as the number that they make. -/
theorem int32_append_int32 (low high : Int32) :
    Grammar.int32 low ++ Grammar.int32 high =
      LittleEndian.bytes 8 (high.toUInt32.toNat * 4294967296 + low.toUInt32.toNat) := by
  have hlow : low.toUInt32.toNat < 256 ^ 4 := low.toUInt32.toNat_lt
  have hsum : low.toUInt32.toNat + 256 ^ 4 * high.toUInt32.toNat =
      high.toUInt32.toNat * 4294967296 + low.toUInt32.toNat := by
    change low.toUInt32.toNat + 4294967296 * high.toUInt32.toNat = _
    omega
  rw [Grammar.int32, Grammar.int32, LittleEndian.bytes_append hlow, hsum]

theorem Long.halves_bytes (l : Long) :
    Grammar.int32 l.low ++ Grammar.int32 l.high = Grammar.int64 l.toInt64 := by
  rw [int32_append_int32, Grammar.int64, l.toNat_toInt64]

theorem Timestamp.halves_bytes (t : Timestamp) :
    Grammar.int32 t.low ++ Grammar.int32 t.high = LittleEndian.bytes 8 t.toUInt64.toNat := by
  rw [int32_append_int32, t.toNat_toUInt64]

namespace Writer

variable {σ : Type} [Sink σ] {law : Sink.Law σ} {options : WriteOptions}

theorem long_writes (depth : Nat) (l : Long) :
    Writes law depth (value options (.long l)) (.ok (.int64, Grammar.int64 l.toInt64)) := by
  rw [← l.halves_bytes]
  exact halves_writes depth .int64 l.low l.high

theorem timestamp_writes (depth : Nat) (t : Timestamp) :
    Writes law depth (value options (.timestamp t))
      (.ok (.timestamp, LittleEndian.bytes 8 t.toUInt64.toNat)) := by
  rw [← t.halves_bytes]
  exact halves_writes depth .timestamp t.low t.high

end Writer

namespace Frame

variable {r : Region} {pos stop levels : Nat} {promote : Bool}

/-- The bytes of a 64-bit integer are read as its halves, or as the double that stands for them. -/
theorem payload_int64_eq_ok (hr : r.limit < r.data.size) {l : Long} :
    payload promote levels r .int64 pos = .ok (normalLong promote l, stop) ↔
      r.Spans pos stop (Grammar.int64 l.toInt64) := by
  have hread : payload promote levels r .int64 = int64Value promote r := by
    cases levels <;> rfl
  rw [hread, int64Value_eq_ok hr, ← l.halves_bytes]
  constructor
  · rintro ⟨low, high, hvalue, hspans⟩
    have hl : l = ⟨low, high⟩ := normalLong_injective hvalue
    rwa [hl]
  · intro hspans
    exact ⟨l.low, l.high, rfl, hspans⟩

theorem payload_timestamp_eq_ok (hr : r.limit < r.data.size) {t : Timestamp} :
    payload promote levels r .timestamp pos = .ok (.timestamp t, stop) ↔
      r.Spans pos stop (LittleEndian.bytes 8 t.toUInt64.toNat) := by
  have hread : payload promote levels r .timestamp = do
      let low ← Cursor.int32 r
      let high ← Cursor.int32 r
      return .timestamp ⟨low, high⟩ := by
    cases levels <;> rfl
  rw [hread, halves_eq_ok hr, ← t.halves_bytes]
  constructor
  · rintro ⟨low, high, mid, hspans, hvalue⟩
    obtain ⟨hvalue, rfl⟩ := Cursor.pure_eq_ok.1 hvalue
    cases hvalue
    exact hspans
  · intro hspans
    exact ⟨t.low, t.high, stop, hspans, Cursor.pure_eq_ok.2 ⟨rfl, rfl⟩⟩

end Frame

/-! ### JSON -/

namespace ExtendedJson

/-- The wrapper of a timestamp with a given number: its upper and its lower bits as fields. -/
def timestampJson (n : UInt64) : Json :=
  wrap "$timestamp" (.ofPairs [("t", .integer (Int64.ofNat (n.toNat / 4294967296))),
    ("i", .integer (Int64.ofNat (n.toNat % 4294967296)))])

theorem ofTimestamp_eq (t : Timestamp) : ofTimestamp t = timestampJson t.toUInt64 := by
  have hlow : t.low.toUInt32.toNat < 4294967296 := t.low.toUInt32.toNat_lt
  have hupper : (t.high.toUInt32.toNat * 4294967296 + t.low.toUInt32.toNat) / 4294967296 =
      t.high.toUInt32.toNat := by omega
  have hlower : (t.high.toUInt32.toNat * 4294967296 + t.low.toUInt32.toNat) % 4294967296 =
      t.low.toUInt32.toNat := by omega
  have hfield : ∀ half : UInt32, half.toUInt64.toInt64 = Int64.ofNat half.toNat := fun half =>
    congrArg UInt64.toInt64 (UInt64.ofNat_uInt32ToNat half).symm
  rw [timestampJson, t.toNat_toUInt64, hupper, hlower, ofTimestamp, hfield, hfield]

theorem ofValue_timestamp (t : Timestamp) :
    ofValue (.timestamp t) = .ok (timestampJson t.toUInt64) := by
  rw [ofValue, ofTimestamp_eq]

theorem toValue_timestampJson (t : Timestamp) :
    toValue (timestampJson t.toUInt64) = .ok (.timestamp t) := by
  rw [← ofTimestamp_eq, toValue_ofTimestamp]

end ExtendedJson

/-- **Halves agree with whole numbers.** A signed or unsigned number of 64 bits and its halves
determine each other, and the halves are its upper and its lower bits. To any sink a number in
halves is written as the eight little-endian bytes of the whole number, those of a signed one being
what is written for the number itself. Exactly from these bytes the same halves are read, in any
region that ends before its data, as the body of a document does; where safe integers become
doubles, a double that stands for no other halves. The wrapper of a timestamp holds the upper and
the lower bits of its number and is read as the same timestamp. -/
theorem halves_agree {σ : Type} [Sink σ] (law : Sink.Law σ) (options : WriteOptions) (depth : Nat)
    (promote : Bool) (levels : Nat) {r : Region} (hr : r.limit < r.data.size) (pos stop : Nat)
    (n : Int64) (m : UInt64) (l : Long) (t : Timestamp) :
    ((Long.ofInt64 n).toInt64 = n ∧ Long.ofInt64 l.toInt64 = l ∧
      l.toInt64.toBitVec = l.high.toBitVec ++ l.low.toBitVec) ∧
    ((Timestamp.ofUInt64 m).toUInt64 = m ∧ Timestamp.ofUInt64 t.toUInt64 = t ∧
      t.toUInt64.toBitVec = t.high.toBitVec ++ t.low.toBitVec) ∧
    (Writes law depth (Writer.value options (.long l)) (.ok (.int64, Grammar.int64 l.toInt64)) ∧
      Writes law depth (Writer.onSink (Sink.writeInt64 l.toInt64))
        (.ok ((), Grammar.int64 l.toInt64)) ∧
      Writes law depth (Writer.value options (.timestamp t))
        (.ok (.timestamp, LittleEndian.bytes 8 t.toUInt64.toNat))) ∧
    ((Frame.payload promote levels r .int64 pos = .ok (normalLong promote l, stop) ↔
        r.Spans pos stop (Grammar.int64 l.toInt64)) ∧
      (Frame.payload promote levels r .timestamp pos = .ok (.timestamp t, stop) ↔
        r.Spans pos stop (LittleEndian.bytes 8 t.toUInt64.toNat))) ∧
    ofValue (.timestamp t) = .ok (timestampJson t.toUInt64) ∧
      toValue (timestampJson t.toUInt64) = .ok (.timestamp t) :=
  ⟨⟨Long.toInt64_ofInt64 n, l.ofInt64_toInt64, l.toBitVec_toInt64⟩,
    ⟨Timestamp.toUInt64_ofUInt64 m, t.ofUInt64_toUInt64, t.toBitVec_toUInt64⟩,
    ⟨Writer.long_writes depth l, .writeInt64 l.toInt64, Writer.timestamp_writes depth t⟩,
    ⟨Frame.payload_int64_eq_ok hr, Frame.payload_timestamp_eq_ok hr⟩,
    ofValue_timestamp t, toValue_timestampJson t⟩

/-- Eight bytes in front of a terminator, in which both halves are negative. -/
def negativeHalves : Region :=
  ⟨[0xFF, 0xFF, 0xFF, 0xFF, 0xFE, 0xFF, 0xFF, 0xFF, 0x00].toByteArray, 8⟩

/-- They are the bytes of one number with a sign and of another without. -/
theorem halves_agree_negative :
    negativeHalves.limit < negativeHalves.data.size ∧
      (Long.mk (-1) (-2)).toInt64 = -4294967297 ∧
      (Timestamp.mk (-1) (-2)).toUInt64 = 18446744069414584319 ∧
      Frame.payload false 0 negativeHalves .int64 0 = .ok (.long ⟨-1, -2⟩, 8) ∧
      Frame.payload false 0 negativeHalves .timestamp 0 = .ok (.timestamp ⟨-1, -2⟩, 8) ∧
      toValue (timestampJson 18446744069414584319) = .ok (.timestamp ⟨-1, -2⟩) := by
  have hlimit : negativeHalves.limit < negativeHalves.data.size := by decide
  have hlong : (Long.mk (-1) (-2)).toInt64 = -4294967297 := by decide
  have htimestamp : (Timestamp.mk (-1) (-2)).toUInt64 = 18446744069414584319 := by decide
  obtain ⟨-, -, -, ⟨hint64, hstamp⟩, -, hjson⟩ := halves_agree Tally.law {} 0 false 0 hlimit 0 8
    (-4294967297) 18446744069414584319 ⟨-1, -2⟩ ⟨-1, -2⟩
  rw [htimestamp] at hjson
  refine ⟨hlimit, hlong, htimestamp, hint64.2 ?_, hstamp.2 ?_, hjson⟩
  · exact ⟨rfl, by decide, [0], by decide⟩
  · exact ⟨rfl, by decide, [0], by decide⟩

end Bson
