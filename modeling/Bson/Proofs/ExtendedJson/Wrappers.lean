import Bson.ExtendedJson.OfValue
import Bson.ExtendedJson.ToValue
import Bson.Proofs.Calendar.Rfc3339
import Bson.Proofs.Grammar.Texts

/-!
# Wrappers are read back

What JSON cannot say plainly is read back from its wrapper.

* `wrapperKeys`: the keys of wrappers. `wrapped?_eq_none_iff`: the objects that are no wrappers.
* `toValue_wrap`, `toValue_wrap_of_ok`: the value of a wrapper is that of its content.
* `toValue_ofDouble`, `toValue_ofBinary`, `toValue_ofInstant` and their like: one for each wrapper
  that is written.
-/

namespace Bson

/-! ### Object ids -/

theorem ObjectId.ofHex_toHex (id : ObjectId) : ofHex id.toHex = .ok id := by
  rw [ofHex, toHex, Text.Hex.decode_digits]
  exact dif_pos id.size_bytes

namespace ExtendedJson

/-! ### Wrappers -/

/-- The keys that wrap a value if they stand alone in an object. -/
def wrapperKeys : List String :=
  ["$oid", "$date", "$numberInt", "$numberLong", "$numberDouble", "$binary", "$regularExpression",
    "$timestamp", "$symbol", "$minKey", "$maxKey", "$undefined"]

theorem mem_wrapperKeys {key : String} :
    key ∈ wrapperKeys ↔ key = "$oid" ∨ key = "$date" ∨ key = "$numberInt" ∨ key = "$numberLong" ∨
      key = "$numberDouble" ∨ key = "$binary" ∨ key = "$regularExpression" ∨ key = "$timestamp" ∨
      key = "$symbol" ∨ key = "$minKey" ∨ key = "$maxKey" ∨ key = "$undefined" := by
  simp only [wrapperKeys, List.mem_cons, List.not_mem_nil, or_false]

theorem unwrap?_eq_none_iff {key : String} {v : Json} :
    unwrap? key v = none ↔ key ∉ wrapperKeys := by
  constructor
  · intro hnone hkey
    rcases mem_wrapperKeys.1 hkey with
      rfl | rfl | rfl | rfl | rfl | rfl | rfl | rfl | rfl | rfl | rfl | rfl <;> cases hnone
  · intro hkey
    simp only [mem_wrapperKeys, not_or] at hkey
    simp only [unwrap?, hkey, if_false]

theorem mem_wrapperKeys_of_unwrap? {key : String} {v : Json} {result : Except Error Value}
    (h : unwrap? key v = some result) : key ∈ wrapperKeys :=
  Decidable.not_not.1 fun hkey => by
    rw [unwrap?_eq_none_iff.2 hkey] at h
    cases h

/-- An object wraps nothing if it has other keys than the one of a wrapper. -/
theorem wrapped?_eq_none_iff {fields : OrderedMap Json} :
    wrapped? fields = none ↔ ∀ key ∈ wrapperKeys, fields.keys ≠ [key] := by
  constructor
  · intro hnone key hkey hkeys
    rw [← OrderedMap.map_fst_toList] at hkeys
    obtain ⟨⟨_, v⟩, hlist, rfl⟩ := List.map_eq_singleton_iff.1 hkeys
    rw [wrapped?, hlist] at hnone
    exact unwrap?_eq_none_iff.1 hnone hkey
  · intro h
    unfold wrapped?
    split
    · rename_i key v hlist
      have hkeys : fields.keys = [key] := by
        rw [← OrderedMap.map_fst_toList, hlist]
        rfl
      exact unwrap?_eq_none_iff.2 fun hkey => h key hkey hkeys
    · rfl

/-- The value of a wrapper is that of its content. -/
theorem toValue_wrap {key : String} {content : Json} {result : Except Error Value}
    (hcode : key ≠ "$code") (h : unwrap? key content = some result) :
    toValue (wrap key content) = result := by
  have hget : (OrderedMap.ofList [(key, content)]).get? "$code" = none := if_neg hcode
  have hwrapped : wrapped? (.ofList [(key, content)]) = some result := h
  rw [wrap, Json.ofPairs, toValue, hget, hwrapped]

/-- A wrapper whose content is read. -/
theorem toValue_wrap_of_ok {α : Type} (f : α → Value) {key : String} {content : Json}
    {x : Except Error α} {a : α} (hcode : key ≠ "$code") (hx : x = .ok a)
    (h : unwrap? key content = some (do return f (← x))) :
    toValue (wrap key content) = .ok (f a) := by
  rw [toValue_wrap hcode h, hx]
  rfl

/-! ### Numbers -/

/-- The double that is read for a double: a NaN loses its sign and payload. -/
def restoredDouble (x : Double) : Double := if x.isNaN then .nan false else x

theorem toValue_doubleName {name : String} {x : Double} (h : Double.ofText? name = some x) :
    toValue (wrap "$numberDouble" (.string name)) = .ok (.double x) := by
  have hread : wrappedDouble (.string name) = .ok x := by
    simp only [wrappedDouble, expectText, Json.asString?, bind, Except.bind, h]
  exact toValue_wrap_of_ok .double (by decide) hread rfl

theorem toValue_ofDouble (x : Double) :
    toValue (ofDouble x) = .ok (.double (restoredDouble x)) := by
  unfold ofDouble restoredDouble
  by_cases hfinite : x.isFinite
  · rw [if_pos hfinite, if_neg (Double.isNaN_of_isFinite hfinite), toValue]
  · rw [if_neg hfinite]
    by_cases hnan : x.isNaN
    · rw [if_pos hnan, if_pos hnan]
      exact toValue_doubleName (by decide)
    · have hx := Double.eq_infinity hfinite hnan
      rw [if_neg hnan, if_neg hnan]
      cases hsign : x.isNegative with
      | true =>
        rw [hx, hsign]
        exact toValue_doubleName (by decide)
      | false =>
        rw [hx, hsign]
        exact toValue_doubleName (by decide)

theorem ofInteger_toInt64 (n : Int32) : ofInteger n.toInt64 = .int32 n := by
  have hrange : -2 ^ 31 ≤ n.toInt64.toInt ∧ n.toInt64.toInt < 2 ^ 31 := by
    rw [Int32.toInt_toInt64]
    exact ⟨n.le_toInt, n.toInt_lt⟩
  rw [ofInteger, if_pos hrange, Int32.toInt32_toInt64]

/-- The value that is read for a 64-bit integer. -/
def restoredLong (n : Long) : Value :=
  if -2 ^ 31 ≤ n.toInt64.toInt ∧ n.toInt64.toInt < 2 ^ 31 then .int32 n.toInt64.toInt32 else .long n

theorem ofInteger_restoredLong (n : Long) : ofInteger n.toInt64 = restoredLong n := by
  rw [ofInteger, restoredLong, Long.ofInt64_toInt64]

/-! ### The wrappers that are written -/

theorem wrappedBinary_eq {v : Json} {subtype : UInt8} {data : ByteArray}
    (hbase64 : textField v "base64" = .ok (Text.Base64.encode data))
    (hsubtype : textField v "subType" = .ok (String.ofList (Text.Hex.ofByte subtype))) :
    wrappedBinary v = .ok ⟨subtype, data⟩ := by
  simp only [wrappedBinary, hbase64, hsubtype, bind, Except.bind, Text.Base64.decode?_encode,
    Text.Hex.natural?_ofByte, UInt8.ofNat_toNat]

theorem toValue_ofBinary (subtype : UInt8) (data : ByteArray) :
    toValue (ofBinary subtype data) = .ok (.binary ⟨subtype, data⟩) :=
  toValue_wrap_of_ok .binary (by decide) (wrappedBinary_eq rfl rfl) rfl

theorem toValue_objectId (id : ObjectId) :
    toValue (wrap "$oid" (.string id.toHex)) = .ok (.objectId id) := by
  have hread : wrappedObjectId (.string id.toHex) = .ok id := by
    simp only [wrappedObjectId, expectText, Json.asString?, bind, Except.bind,
      ObjectId.ofHex_toHex]
  exact toValue_wrap_of_ok .objectId (by decide) hread rfl

theorem wrappedInt64_toString (n : Int64) : wrappedInt64 (.string (toString n.toInt)) = .ok n := by
  have hdigits : Text.integer? (-2 ^ 63) (2 ^ 63 - 1) (toString n.toInt) = some n.toInt :=
    Text.integer?_toString n.le_toInt (Int.le_sub_one_of_lt n.toInt_lt)
  have hread : boundedInteger "$numberLong" (-2 ^ 63) (2 ^ 63 - 1) (.string (toString n.toInt)) =
      .ok n.toInt := by
    simp only [boundedInteger, expectText, Json.asString?, bind, Except.bind, hdigits]
  rw [wrappedInt64, hread]
  exact congrArg Except.ok (Int64.ofInt_toInt n)

/-- An instant is read back from its date and from its number. -/
theorem toValue_ofInstant (millis : Int64) :
    toValue (ofInstant millis.toInt) = .ok (.dateTime millis) := by
  have hread : wrappedInstant
      (if isDatable millis.toInt then .string (Calendar.Rfc3339.text "Z" millis.toInt)
        else wrap "$numberLong" (.string (toString millis.toInt))) = .ok millis := by
    by_cases h : isDatable millis.toInt
    · obtain ⟨-, -, hleast, hgreatest⟩ := of_decide_eq_true h
      rw [if_pos h, wrappedInstant,
        Calendar.Rfc3339.read?_text (Int.le_trans (by decide) hleast) hgreatest]
      simp only [Int64.ofInt_toInt]
    · rw [if_neg h]
      exact wrappedInt64_toString millis
  exact toValue_wrap_of_ok .dateTime (by decide) hread rfl

theorem toValue_ofRegex (r : Regex) : toValue (ofRegex r) = .ok (.regex r) := by
  have hread : wrappedRegex (.ofPairs [("pattern", .string r.pattern),
      ("options", .string r.flags.toOptions)]) = .ok r := by
    change Except.ok (Regex.mk r.pattern (.ofOptions r.flags.toOptions)) = _
    rw [Grammar.ofOptions_toOptions]
  exact toValue_wrap_of_ok .regex (by decide) hread rfl

theorem expectUInt32_toInt64 (name : String) (n : UInt32) :
    expectUInt32 name (.integer n.toUInt64.toInt64) = .ok n := by
  have hlt : n.toNat < 4294967296 := n.toNat_lt
  have hvalue : n.toUInt64.toInt64.toInt = n.toNat := by
    have hnat : n.toUInt64.toBitVec.toNat = n.toNat := UInt32.toNat_toUInt64 n
    change n.toUInt64.toBitVec.toInt = n.toNat
    rw [BitVec.toInt_eq_toNat_cond, hnat, if_pos (by omega)]
  have hrange : (0 : Int) ≤ n.toNat ∧ (n.toNat : Int) < 4294967296 := by omega
  rw [expectUInt32, hvalue]
  exact (if_pos hrange).trans (congrArg Except.ok (UInt32.ofNat_toNat (x := n)))

theorem toValue_ofTimestamp (t : Timestamp) : toValue (ofTimestamp t) = .ok (.timestamp t) := by
  have hread : wrappedTimestamp (.ofPairs [("t", .integer t.high.toUInt32.toUInt64.toInt64),
      ("i", .integer t.low.toUInt32.toUInt64.toInt64)]) = .ok t := by
    change Except.bind (expectUInt32 "t" _) (fun t => Except.bind (expectUInt32 "i" _) fun i =>
      Except.ok (Timestamp.mk i.toInt32 t.toInt32)) = _
    rw [expectUInt32_toInt64, expectUInt32_toInt64]
    rfl
  exact toValue_wrap_of_ok .timestamp (by decide) hread rfl

end ExtendedJson

end Bson
