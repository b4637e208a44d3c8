import Bson.Proofs.Double.Number
import Bson.Proofs.RoundTrip.Reencode

/-!
# Numbers keep their value

A number may change its kind when it is encoded and decoded, from a double to an integer of 32 bits
or from an integer of 64 bits to a double, but not its value, however often that is done.

* `Value.number?`: the number that a value is. `number?_normal`: its normal form is the same.
* `Value.at?`: what stands in a value at the end of a path.
* `NumbersKept`: what stands at a path of one document is no other number than what stands there in
  another. `numbersKept_normalDocument`: this holds of a document and its normal form.
* `recode`: a document after it has been encoded and decoded. `numbersKept_of_cycles`: it keeps its
  numbers, however often that is done.
* `single`: a document of one field. `cycles_single`: one that holds a number passes if there is
  room.
* `numbers_keep_value`: all of it.
-/

namespace Bson

open Grammar

variable {options : WriteOptions} {promote : Bool}

/-! ### The number of a value -/

namespace Value

/-- The number that a value is. -/
def number? : Value → Option Number
  | .double x => some x.number
  | .boxedDouble x => some x.number
  | .int32 n => some (.finite n.toInt)
  | .long n => some (.finite n.toInt64.toInt)
  | .hook _ result => result.number?
  | _ => none

end Value

theorem number?_normalNumber (x : Double) : (normalNumber x).number? = some x.number := by
  unfold normalNumber
  cases h : x.toInt32? with
  | some n => rw [Value.number?, Double.number_eq_of_int32.2 h]
  | none => rfl

/-- A safe integer of 64 bits is promoted to a double of its value. -/
theorem number_ofInt {n : Int} (h : n.natAbs < 2 ^ 53) : (Double.ofInt n).number = .finite n :=
  Double.number_eq_finite_intCast.2 (Double.ofInt_exact h)

theorem number?_normalLong (n : Long) :
    (normalLong promote n).number? = some (.finite n.toInt64.toInt) := by
  rw [normalLong, int64Value]
  split
  · rename_i h
    exact congrArg some (number_ofInt h.2)
  · rfl

theorem number?_asReference (d : Document) : d.asReference.number? = none := by
  rcases d.asReference_cases with ⟨-, h⟩ | ⟨_, _, _, h, -⟩
  · rw [h]
    rfl
  · rw [h]
    rfl

/-- The normal form of a value is the same number. -/
theorem number?_normal : ∀ v : Value, (normal options promote v).number? = v.number?
  | .double x => number?_normalNumber x
  | .long n => number?_normalLong n
  | .document d => number?_asReference _
  | .scopedCode _ scope => by
    rw [normal]
    split <;> rfl
  | .hook _ result => number?_normal result
  | .boxedDouble _ | .int32 _ | .string _ | .array _ | .binary _ | .bytes _ | .objectId _
  | .boolean _ | .dateTime _ | .null | .undefined | .regex _ | .code _ | .function _ | .symbol _
  | .timestamp _ | .minKey | .maxKey | .dbRef _ _ _ | .brokenHook _ => rfl

/-! ### Paths -/

/-- A step from a value to one that it holds. -/
inductive PathStep
  | key (name : String)
  | index (n : Nat)

namespace Value

/-- What a value holds under a key or at an index. A reference holds the fields that it is written
with. -/
def child? : Value → PathStep → Option Value
  | .document d, .key name => d.get? name
  | .array list, .index n => list[n]?
  | .scopedCode _ scope, .key name => scope.get? name
  | .dbRef collection id database, .key name =>
    if name = refKey then some (.string collection)
    else if name = idKey then some id
    else if name = dbKey then database.map .string
    else none
  | .hook _ result, step => result.child? step
  | _, _ => none

theorem child?_dbRef_key {collection name : String} {id w : Value} {database : Option String} :
    (dbRef collection id database).child? (.key name) = some w ↔
      (name = refKey ∧ w = .string collection) ∨ (name = idKey ∧ w = id) ∨
        (name = dbKey ∧ ∃ text, database = some text ∧ w = .string text) := by
  have hdistinct : idKey ≠ refKey ∧ dbKey ≠ refKey ∧ dbKey ≠ idKey := by decide
  obtain ⟨hid, hdb, hdb'⟩ := hdistinct
  rw [child?]
  constructor
  · intro h
    split at h
    · exact .inl ⟨‹_›, (Option.some.inj h).symm⟩
    · split at h
      · exact .inr (.inl ⟨‹_›, (Option.some.inj h).symm⟩)
      · split at h
        · obtain ⟨text, htext, rfl⟩ := Option.map_eq_some_iff.1 h
          exact .inr (.inr ⟨‹_›, text, htext, rfl⟩)
        · cases h
  · rintro (⟨rfl, rfl⟩ | ⟨rfl, rfl⟩ | ⟨rfl, text, rfl, rfl⟩)
    · rw [if_pos rfl]
    · rw [if_neg hid, if_pos rfl]
    · rw [if_neg hdb, if_neg hdb', if_pos rfl]
      rfl

/-- What stands in a value at the end of a path. -/
def at? (v : Value) (path : List PathStep) : Option Value := path.foldlM child? v

end Value

/-- A document that stands for a reference holds what the reference does. -/
theorem child?_of_asReference {d : Document} {step : PathStep} {w : Value}
    (h : d.asReference.child? step = some w) : (Value.document d).child? step = some w := by
  rcases d.asReference_cases with ⟨-, href⟩ | ⟨_, _, _, href, hcollection, hid, hdatabase⟩
  · rwa [href] at h
  · rw [href] at h
    cases step with
    | index n => cases h
    | key name =>
      change d.get? name = some w
      rcases Value.child?_dbRef_key.1 h with ⟨rfl, rfl⟩ | ⟨rfl, rfl⟩ | ⟨rfl, database, rfl, rfl⟩
      · exact hcollection
      · exact hid
      · exact OrderedMap.get?_dbKey_of_database? hdatabase

theorem child?_of_normalDocument {d : Document} {name : String} {w : Value}
    (h : (normalDocument options promote d).get? name = some w) :
    ∃ v, d.get? name = some v ∧ w = normal options promote v := by
  rw [get?_normalDocument, Option.map_eq_some_iff] at h
  obtain ⟨v, hv, rfl⟩ := h
  exact ⟨v, (Option.filter_eq_some_iff.1 hv).1, rfl⟩

/-- What the normal form of a value holds is the normal form of what the value holds. -/
theorem child?_of_normal : ∀ (v : Value) {step : PathStep} {w : Value},
    (normal options promote v).child? step = some w →
      ∃ u, v.child? step = some u ∧ w = normal options promote u
  | .double x, _, _, h => by
    rw [normal, normalNumber] at h
    split at h <;> cases h
  | .long n, _, _, h => by
    rw [normal, normalLong, int64Value] at h
    split at h <;> cases h
  | .document d, step, _, h => by
    have hdocument := child?_of_asReference (d := normalDocument options promote d) h
    cases step with
    | key name => exact child?_of_normalDocument hdocument
    | index n => cases hdocument
  | .array list, step, w, h => by
    cases step with
    | key name => cases h
    | index n =>
      rw [normal, normalItems_eq] at h
      change (list.map (normal options promote))[n]? = some w at h
      rw [List.getElem?_map, Option.map_eq_some_iff] at h
      obtain ⟨v, hv, rfl⟩ := h
      exact ⟨v, hv, rfl⟩
  | .scopedCode source scope, step, _, h => by
    rw [normal] at h
    split at h
    · cases h
    · cases step with
      | key name => exact child?_of_normalDocument h
      | index n => cases h
  | .dbRef collection id database, step, w, h => by
    cases step with
    | index n => cases h
    | key name =>
      rw [normal, Value.child?_dbRef_key] at h
      simp only [Value.child?_dbRef_key]
      rcases h with ⟨rfl, rfl⟩ | ⟨rfl, rfl⟩ | ⟨rfl, database, rfl, rfl⟩
      · exact ⟨_, .inl ⟨rfl, rfl⟩, rfl⟩
      · exact ⟨_, .inr (.inl ⟨rfl, rfl⟩), rfl⟩
      · exact ⟨_, .inr (.inr ⟨rfl, database, rfl, rfl⟩), rfl⟩
  | .hook _ result, _, _, h => child?_of_normal result h
  | .boxedDouble _, _, _, h | .int32 _, _, _, h | .string _, _, _, h | .binary _, _, _, h
  | .bytes _, _, _, h | .objectId _, _, _, h | .boolean _, _, _, h | .dateTime _, _, _, h
  | .null, _, _, h | .undefined, _, _, h | .regex _, _, _, h | .code _, _, _, h
  | .function _, _, _, h | .symbol _, _, _, h | .timestamp _, _, _, h | .minKey, _, _, h
  | .maxKey, _, _, h | .brokenHook _, _, _, h => by cases h

/-- So it is further down. -/
theorem at?_of_normal (path : List PathStep) {v w : Value}
    (h : (normal options promote v).at? path = some w) :
    ∃ u, v.at? path = some u ∧ w = normal options promote u := by
  induction path generalizing v with
  | nil =>
    cases h
    exact ⟨v, rfl, rfl⟩
  | cons step rest ih =>
    rw [Value.at?, List.foldlM_cons, Option.bind_eq_bind, Option.bind_eq_some_iff] at h
    obtain ⟨child, hchild, hrest⟩ := h
    obtain ⟨u, hu, rfl⟩ := child?_of_normal v hchild
    obtain ⟨u', hu', rfl⟩ := ih hrest
    refine ⟨u', ?_, rfl⟩
    rw [Value.at?, List.foldlM_cons, hu]
    exact hu'

/-! ### Documents -/

/-- What stands at a path of one document is the same number, or none, as what stands there in
another, and under each key of the other where a number stands there is one. -/
def NumbersKept (d e : Document) : Prop :=
  (∀ path w, (Value.document e).at? path = some w →
    ∃ v, (Value.document d).at? path = some v ∧ w.number? = v.number?) ∧
  ∀ key v, d.get? key = some v → v.number?.isSome →
    ∃ w, e.get? key = some w ∧ w.number? = v.number?

theorem NumbersKept.refl (d : Document) : NumbersKept d d :=
  ⟨fun _ w h => ⟨w, h, rfl⟩, fun _ v h _ => ⟨v, h, rfl⟩⟩

theorem NumbersKept.trans {d e f : Document} (h : NumbersKept d e) (h' : NumbersKept e f) :
    NumbersKept d f := by
  constructor
  · intro path w hw
    obtain ⟨v, hv, hnumber⟩ := h'.1 path w hw
    obtain ⟨u, hu, hnumber'⟩ := h.1 path v hv
    exact ⟨u, hu, hnumber.trans hnumber'⟩
  · intro key v hv hsome
    obtain ⟨w, hw, hnumber⟩ := h.2 key v hv hsome
    obtain ⟨u, hu, hnumber'⟩ := h'.2 key w hw (hnumber ▸ hsome)
    exact ⟨u, hu, hnumber'.trans hnumber⟩

/-- A number is never left out. -/
theorem not_isDropped_of_number? {v : Value} (h : v.number?.isSome) :
    Writer.isDropped options v = false := by
  cases v <;> first | rfl | cases h

theorem numbersKept_normalDocument (d : Document) :
    NumbersKept d (normalDocument options promote d) := by
  constructor
  · intro path w h
    cases path with
    | nil =>
      cases h
      exact ⟨_, rfl, rfl⟩
    | cons step rest =>
      rw [Value.at?, List.foldlM_cons, Option.bind_eq_bind, Option.bind_eq_some_iff] at h
      obtain ⟨child, hchild, hrest⟩ := h
      cases step with
      | index n => cases hchild
      | key name =>
        obtain ⟨v, hv, rfl⟩ := child?_of_normalDocument hchild
        obtain ⟨u, hu, rfl⟩ := at?_of_normal rest hrest
        refine ⟨u, ?_, number?_normal u⟩
        rw [Value.at?, List.foldlM_cons]
        change (d.get? name).bind _ = _
        rw [hv]
        exact hu
  · intro key v hv hsome
    refine ⟨normal options promote v, ?_, number?_normal v⟩
    rw [get?_normalDocument, hv, Option.filter_some, not_isDropped_of_number? hsome]
    rfl

/-! ### Cycles -/

/-- A document after it has been encoded and decoded. -/
def recode (d : Document) (cycle : EncodeOptions × DecodeOptions) : Except Error Document := do
  decode (← encode d cycle.1) cycle.2

/-- Encoding and decoding gives the normal form. -/
theorem recode_eq {d e : Document} {cycle : EncodeOptions × DecodeOptions}
    (hmax : cycle.1.maxSize ≤ maxLengthField) (htexts : NulFreeTexts false (.document d))
    (h : recode d cycle = .ok e) :
    e = normalDocument cycle.1.toWriteOptions cycle.2.promoteLongs d ∧
      NulFreeTexts false (.document e) := by
  obtain ⟨b, hb, hd⟩ := Error.bind_eq_ok.1 h
  refine ⟨?_, ReadableFields.nulFreeFields e.entries (readableFields_of_decode hd)⟩
  obtain ⟨p, hp, hsize, rfl⟩ := encode_eq_ok.1 hb
  have hnormal := decode_layout hp (Nat.le_trans hsize hmax) (NulFreeTexts.checked _ htexts) cycle.2
  exact Except.ok.inj (hd.symm.trans hnormal)

/-- Numbers are kept in any number of cycles. -/
theorem numbersKept_of_cycles {cycles : List (EncodeOptions × DecodeOptions)} {d e : Document}
    (hmax : ∀ cycle ∈ cycles, cycle.1.maxSize ≤ maxLengthField)
    (htexts : NulFreeTexts false (.document d)) (h : cycles.foldlM recode d = .ok e) :
    NumbersKept d e := by
  induction cycles generalizing d with
  | nil =>
    cases h
    exact .refl _
  | cons cycle rest ih =>
    obtain ⟨hmax, hrest⟩ := List.forall_mem_cons.1 hmax
    rw [List.foldlM_cons, Error.bind_eq_ok] at h
    obtain ⟨d', hd', h⟩ := h
    obtain ⟨rfl, htexts'⟩ := recode_eq hmax htexts hd'
    exact (numbersKept_normalDocument d).trans (ih hrest htexts' h)

/-! ### Documents of one number -/

/-- The document of one field. -/
def single (key : String) (v : Value) : Document := ⟨.snoc .nil key v List.not_mem_nil⟩

theorem single_injective {key : String} {v w : Value} (h : single key v = single key w) :
    v = w := by
  have hget : ∀ u, (single key u).get? key = some u := fun u => if_pos rfl
  exact Option.some.inj ((hget v).symm.trans ((congrArg (·.get? key) h).trans (hget w)))

/-- Whether a value is a number, and no hook that returns one. -/
def Value.isNumber : Value → Bool
  | .double _ | .boxedDouble _ | .int32 _ | .long _ => true
  | _ => false

theorem normal_isNumber {v : Value} (h : v.isNumber) : (normal options promote v).isNumber := by
  cases v with
  | double x =>
    rw [normal, normalNumber]
    split <;> rfl
  | long n =>
    rw [normal, normalLong, int64Value]
    split <;> rfl
  | boxedDouble _ | int32 _ => rfl
  | _ => cases h

theorem Value.number?_of_isNumber {v : Value} (h : v.isNumber) : v.number?.isSome := by
  cases v <;> first | rfl | cases h

theorem normalDocument_single (key : String) {v : Value} (h : v.isNumber) :
    normalDocument options promote (single key v) = single key (normal options promote v) := by
  change OrderedMap.ofList ([] ++ if Writer.isDropped options v then [] else _) = _
  rw [not_isDropped_of_number? (Value.number?_of_isNumber h)]
  rfl

/-- A document of one number is laid out with its key and the number. -/
theorem layout_single {key : String} {v : Value} (hv : v.isNumber) {p : Payload} :
    Layout.document options (single key v) = .ok p ↔
      Layout.checkKey options key = .ok () ∧ ∃ q, Layout.payload options 1 v = .ok q ∧
        p = .document (Layout.frameLength (Elements.cons key q .nil).bytes) (.cons key q .nil) := by
  have hkept : Writer.isDropped options v = false :=
    not_isDropped_of_number? (Value.number?_of_isNumber hv)
  have hfields : ∀ es, Layout.fields options 1 (single key v).entries = .ok es ↔
      Layout.checkKey options key = .ok () ∧ ∃ q, Layout.payload options 1 v = .ok q ∧
        es = .cons key q .nil := by
    intro es
    refine Layout.fields_snoc_eq_ok.trans ?_
    simp only [hkept, Bool.false_eq_true, if_false]
    constructor
    · rintro ⟨front, hfront, hkey, q, hq, rfl⟩
      cases hfront
      exact ⟨hkey, q, hq, rfl⟩
    · rintro ⟨hkey, q, hq, rfl⟩
      exact ⟨.nil, rfl, hkey, q, hq, rfl⟩
  rw [Layout.document, Layout.frame_eq_ok]
  simp only [hfields]
  constructor
  · rintro ⟨-, es, ⟨hkey, q, hq, rfl⟩, rfl⟩
    exact ⟨hkey, q, hq, rfl⟩
  · rintro ⟨hkey, q, hq, rfl⟩
    exact ⟨by decide, _, ⟨hkey, q, hq, rfl⟩, rfl⟩

theorem length_double (x : Double) : (double x).length = 8 := LittleEndian.length_bytes _ _

/-- A number takes at most eight bytes. -/
theorem payload_isNumber {v : Value} (h : v.isNumber) :
    ∃ q, Layout.payload options 1 v = .ok q ∧ q.bytes.length ≤ 8 := by
  cases v with
  | double x =>
    refine ⟨_, rfl, ?_⟩
    unfold Layout.number
    cases x.toInt32? with
    | some n => exact Nat.le_trans (Nat.le_of_eq (length_int32 n)) (by decide)
    | none => exact Nat.le_of_eq (length_double x)
  | boxedDouble x => exact ⟨_, rfl, Nat.le_of_eq (length_double x)⟩
  | int32 n => exact ⟨_, rfl, Nat.le_trans (Nat.le_of_eq (length_int32 n)) (by decide)⟩
  | long n =>
    refine ⟨_, rfl, Nat.le_of_eq ?_⟩
    rw [Payload.bytes, List.length_append, length_int32, length_int32]
  | _ => cases h

theorem length_single (key : String) (q : Payload) :
    (Payload.document (Layout.frameLength (Elements.cons key q .nil).bytes)
      (.cons key q .nil)).bytes.length = (utf8 key).length + q.bytes.length + 7 := by
  rw [Payload.bytes, length_enclosed, bytes_cons, List.length_cons, List.length_append,
    List.length_append, length_cstring, Elements.bytes, List.length_nil]
  omega

theorem nulFree_single {checked : Bool} {key : String} {v : Value} (hv : v.isNumber)
    (hnul : '\x00' ∉ key.toList) : NulFreeTexts checked (.document (single key v)) := by
  refine ⟨trivial, .inr hnul, ?_⟩
  cases v with
  | double _ | boxedDouble _ | int32 _ | long _ => trivial
  | _ => cases hv

/-- A document of one number with enough room is encoded, and decoded as its normal form. -/
theorem recode_single {key : String} {v : Value} (hv : v.isNumber) (hnul : '\x00' ∉ key.toList)
    {cycle : EncodeOptions × DecodeOptions} (hkey : cycle.1.checkKeys → Key.check key = .ok ())
    (hroom : (utf8 key).length + 15 ≤ cycle.1.maxSize) (hmax : cycle.1.maxSize ≤ maxLengthField) :
    recode (single key v) cycle =
      .ok (single key (normal cycle.1.toWriteOptions cycle.2.promoteLongs v)) := by
  obtain ⟨q, hq, hlength⟩ : ∃ q, Layout.payload cycle.1.toWriteOptions 1 v = .ok q ∧
      q.bytes.length ≤ 8 := payload_isNumber hv
  have hcheck : Layout.checkKey cycle.1.toWriteOptions key = .ok () := by
    unfold Layout.checkKey
    split
    · exact hkey ‹_›
    · rfl
  have hp := (layout_single hv).2 ⟨hcheck, q, hq, rfl⟩
  have hsize := length_single key q
  refine Error.bind_eq_ok.2 ⟨_, encode_eq_ok.2 ⟨_, hp, by omega, rfl⟩, ?_⟩
  rw [decode_layout hp (by omega) (nulFree_single hv hnul) cycle.2, normalDocument_single key hv]

/-- A document of one number with enough room passes any number of cycles. -/
theorem cycles_single {cycles : List (EncodeOptions × DecodeOptions)} {key : String} {v : Value}
    (hv : v.isNumber) (hnul : '\x00' ∉ key.toList)
    (hcycles : ∀ cycle ∈ cycles, (cycle.1.checkKeys → Key.check key = .ok ()) ∧
      (utf8 key).length + 15 ≤ cycle.1.maxSize ∧ cycle.1.maxSize ≤ maxLengthField) :
    ∃ w, cycles.foldlM recode (single key v) = .ok (single key w) ∧ w.number? = v.number? := by
  induction cycles generalizing v with
  | nil => exact ⟨v, rfl, rfl⟩
  | cons cycle rest ih =>
    obtain ⟨⟨hkey, hroom, hmax⟩, hrest⟩ := List.forall_mem_cons.1 hcycles
    have hrecode := recode_single hv hnul hkey hroom hmax
    have hnormal : (normal cycle.1.toWriteOptions cycle.2.promoteLongs v).isNumber :=
      normal_isNumber hv
    obtain ⟨w, hw, hnumber⟩ := ih hnormal hrest
    refine ⟨w, ?_, hnumber.trans (number?_normal v)⟩
    rw [List.foldlM_cons, hrecode]
    exact hw

/-- A double is written behind its key, as the layout has it. -/
theorem bytes_of_encode_single {key : String} {x : Double} {options : EncodeOptions}
    {b : ByteArray} (h : encode (single key (.double x)) options = .ok b) :
    b.data.toList = enclosed (Int32.ofNat b.size)
      ((Layout.number x).tag.toByte :: (cstring key ++ (Layout.number x).bytes)) := by
  obtain ⟨p, hp, -, rfl⟩ := encode_eq_ok.1 h
  obtain ⟨-, q, hq, rfl⟩ := (layout_single rfl).1 hp
  cases hq
  have hsize : ∀ bytes : List UInt8, bytes.toByteArray.size = bytes.length :=
    fun _ => List.size_toByteArray
  rw [List.toList_data_toByteArray, hsize, Payload.bytes, length_enclosed, ← Layout.frameLength,
    bytes_cons, Elements.bytes, List.append_nil]

/-- A 64-bit integer is read as its normal form. -/
theorem recode_single_long {key : String} {l : Long} {cycle : EncodeOptions × DecodeOptions}
    {d : Document} (hnul : '\x00' ∉ key.toList) (hmax : cycle.1.maxSize ≤ maxLengthField)
    (h : recode (single key (.long l)) cycle = .ok d) :
    d = single key (normalLong cycle.2.promoteLongs l) :=
  (recode_eq hmax (nulFree_single rfl hnul) h).1.trans (normalDocument_single key rfl)

/-- No two integers have one normal form. -/
theorem normalLong_injective {l m : Long} (h : normalLong promote l = normalLong promote m) :
    l = m := by
  have hnumber := congrArg Value.number? h
  rw [number?_normalLong, number?_normalLong, Option.some.injEq, Number.finite.injEq,
    Int.cast_inj, Int64.toInt_inj] at hnumber
  rw [← Long.ofInt64_toInt64 l, hnumber, Long.ofInt64_toInt64]

/-- **Numbers keep their value**: in any document, and however often it is encoded and decoded with
whatever options. A document of one number passes if there is room. A double is written as a 32-bit
integer exactly if its value is one, and with its own bytes else; only the two zeros have one value.
A safe integer of 64 bits is read as the double of its value, and no two as one double. -/
theorem numbers_keep_value :
    (∀ (cycles : List (EncodeOptions × DecodeOptions)) (d e : Document),
      (∀ cycle ∈ cycles, cycle.1.maxSize ≤ maxLengthField) →
        NulFreeTexts false (.document d) → cycles.foldlM recode d = .ok e → NumbersKept d e) ∧
    (∀ (cycles : List (EncodeOptions × DecodeOptions)) (key : String) (v : Value),
      v.isNumber → '\x00' ∉ key.toList →
        (∀ cycle ∈ cycles, (cycle.1.checkKeys → Key.check key = .ok ()) ∧
          (utf8 key).length + 15 ≤ cycle.1.maxSize ∧ cycle.1.maxSize ≤ maxLengthField) →
        ∃ w, cycles.foldlM recode (single key v) = .ok (single key w) ∧ w.number? = v.number?) ∧
    (∀ (key : String) (x : Double) (options : EncodeOptions) (b : ByteArray),
      encode (single key (.double x)) options = .ok b →
        (∀ n : Int32, x.number = .finite n.toInt → b.data.toList =
          enclosed (Int32.ofNat b.size) (Tag.int32.toByte :: (cstring key ++ int32 n))) ∧
        ((∀ n : Int32, x.number ≠ .finite n.toInt) → b.data.toList =
          enclosed (Int32.ofNat b.size) (Tag.double.toByte :: (cstring key ++ double x)))) ∧
    (∀ x y : Double, x.number = y.number ↔ x = y ∨ (x.isZero ∧ y.isZero)) ∧
    (∀ (key : String) (l : Long) (cycle : EncodeOptions × DecodeOptions) (w : Value),
      cycle.2.promoteLongs → l.toInt64.toInt.natAbs < 2 ^ 53 → '\x00' ∉ key.toList →
        cycle.1.maxSize ≤ maxLengthField →
        recode (single key (.long l)) cycle = .ok (single key w) →
        ∃ x, w = .double x ∧ x.number = .finite l.toInt64.toInt) ∧
    (∀ (key : String) (l m : Long) (cycle : EncodeOptions × DecodeOptions) (d : Document),
      '\x00' ∉ key.toList → cycle.1.maxSize ≤ maxLengthField →
        recode (single key (.long l)) cycle = .ok d →
        recode (single key (.long m)) cycle = .ok d → l = m) := by
  refine ⟨fun cycles d e hmax htexts h => numbersKept_of_cycles hmax htexts h,
    fun cycles key v hv hnul hcycles => cycles_single hv hnul hcycles,
    fun key x options b h => ?_, fun x y => Double.number_eq_iff, ?_, ?_⟩
  · have hbytes := bytes_of_encode_single h
    constructor
    · intro n hn
      rw [hbytes, Layout.number, Double.number_eq_of_int32.1 hn]
      rfl
    · intro hne
      have hnone : x.toInt32? = none := by
        cases hx : x.toInt32? with
        | none => rfl
        | some n => exact absurd (Double.number_eq_of_int32.2 hx) (hne n)
      rw [hbytes, Layout.number, hnone]
      rfl
  · intro key l cycle w hpromote hsafe hnul hmax h
    have hw : w = normalLong cycle.2.promoteLongs l :=
      single_injective (recode_single_long hnul hmax h)
    rw [normalLong, int64Value, if_pos ⟨hpromote, hsafe⟩] at hw
    exact ⟨_, hw, number_ofInt hsafe⟩
  · intro key l m cycle d hnul hmax hl hm
    have hsame := (recode_single_long hnul hmax hl).symm.trans (recode_single_long hnul hmax hm)
    exact normalLong_injective (single_injective hsame)

/-- The integer five, read as a double and then as an integer of 32 bits. -/
theorem numbers_keep_value_five :
    ∃ w, [({}, {}), ({}, { promoteLongs := false })].foldlM recode (single "n" (.long ⟨5, 0⟩)) =
        .ok (single "n" w) ∧ w.number? = some (.finite 5) := by
  obtain ⟨-, hcycles, -⟩ := numbers_keep_value
  obtain ⟨w, hw, hnumber⟩ := hcycles [({}, {}), ({}, { promoteLongs := false })] "n" (.long ⟨5, 0⟩)
    rfl (by decide) fun cycle hcycle => by
      rcases List.mem_pair.1 hcycle with rfl | rfl
      all_goals exact ⟨fun h => absurd h Bool.false_ne_true, by decide, by decide⟩
  have hfive : (Long.mk 5 0).toInt64.toInt = 5 := by decide
  exact ⟨w, hw, hnumber.trans (by rw [Value.number?, hfive]; rfl)⟩

end Bson
