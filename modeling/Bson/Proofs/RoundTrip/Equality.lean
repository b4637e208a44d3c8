import Bson.Proofs.Double.Fields
import Bson.Proofs.RoundTrip.Decode
import Bson.Proofs.Value.Equality
import Mathlib.Data.Option.NAry

/-!
# Equal documents are encoded alike

Equality ignores the order of fields and the sign of zeros, the encoding keeps both. Still equal
documents are refused together, take equally many bytes, and are read as equal documents.

* `Layout.length?`: how many bytes a value takes. `Layout.fieldsLength?_eq`: those of a document are
  the sum over its fields, whatever their order.
* `Layout.sameLength_congruent`: equal values take equally many bytes, or neither has a layout.
* `normal_congruent`: equal values have equal normal forms.
* `encode_respects_equality`: the statement about documents.
-/

namespace Bson

open Grammar

variable {options : WriteOptions} {promote : Bool}

/-- Equal values are left out alike. -/
theorem isDropped_of_beq {v w : Value} (h : v.beq w) :
    Writer.isDropped options v = Writer.isDropped options w := by
  cases v <;> cases w <;> first | rfl | cases h

/-! ### Lengths -/

namespace Layout

variable {depth : Nat}

/-- The number of bytes of a payload, if there is one. -/
def payloadLength? (p : Except Error Payload) : Option Nat := p.toOption.map fun p => p.bytes.length

/-- The number of bytes of elements, if there are any. -/
def elementsLength? (es : Except Error Elements) : Option Nat :=
  es.toOption.map fun es => es.bytes.length

/-- The number of bytes that a value takes. -/
def length? (options : WriteOptions) (depth : Nat) (v : Value) : Option Nat :=
  payloadLength? (payload options depth v)

/-- The number of bytes that a field takes. -/
def fieldLength? (options : WriteOptions) (depth : Nat) (p : String × Value) : Option Nat :=
  match checkKey options p.1 with
  | .error _ => none
  | .ok _ =>
    if Writer.isDropped options p.2 then some 0
    else (length? options depth p.2).map ((cstring p.1).length + 1 + ·)

/-- The sum of numbers, if all of them are there. -/
def total (lengths : List (Option Nat)) : Option Nat := lengths.foldl (Option.map₂ (· + ·)) (some 0)

instance rightCommutative_add : RightCommutative (Option.map₂ (· + · : Nat → Nat → Nat)) :=
  ⟨fun _ _ _ => Option.map₂_right_comm Nat.add_right_comm⟩

theorem total_perm {xs ys : List (Option Nat)} (h : xs.Perm ys) : total xs = total ys :=
  h.foldl_eq (some 0)

/-- A frame takes a fixed number of bytes more than what is in it. -/
theorem payloadLength?_frame {make : Int32 → Elements → Payload} {k : Nat}
    (hmake : ∀ es, (make (frameLength es.bytes) es).bytes.length = es.bytes.length + k)
    (body : Except Error Elements) :
    payloadLength? (frame make depth body) =
      if maxDepth ≤ depth then none else (elementsLength? body).map (· + k) := by
  unfold frame
  split
  · rfl
  · cases body with
    | error e => rfl
    | ok es => exact congrArg some (hmake es)

theorem fieldsLength?_snoc {keys : List String} (init : Entries Value keys) (key : String)
    (v : Value) (fresh : key ∉ keys) :
    elementsLength? (fields options depth (init.snoc key v fresh)) =
      Option.map₂ (· + ·) (elementsLength? (fields options depth init))
        (fieldLength? options depth (key, v)) := by
  rw [fields, fieldLength?, length?]
  cases fields options depth init with
  | error e => rfl
  | ok front =>
    cases checkKey options key with
    | error e => rfl
    | ok u =>
      by_cases hdropped : Writer.isDropped options v
      · simp only [if_pos hdropped]
        rfl
      · simp only [if_neg hdropped]
        cases payload options depth v with
        | error e => rfl
        | ok p =>
          refine congrArg some ?_
          change (front.snoc key p).bytes.length =
            front.bytes.length + ((cstring key).length + 1 + p.bytes.length)
          rw [Elements.bytes_snoc, List.length_append, List.length_cons, List.length_append]
          omega

/-- The fields of a document take what each of them takes, in whatever order. -/
theorem fieldsLength?_eq {keys : List String} (entries : Entries Value keys) :
    elementsLength? (fields options depth entries) =
      total (entries.toList.map (fieldLength? options depth)) := by
  induction entries with
  | nil => rfl
  | snoc init key v fresh ih =>
    rw [fieldsLength?_snoc, ih, Entries.toList_snoc, List.map_append, total, total,
      List.foldl_append]
    rfl

theorem itemsLength?_cons (index : Nat) (v : Value) (rest : List Value) :
    elementsLength? (items options depth index (v :: rest)) =
      Option.map₂ (fun a b => (cstring (toString index)).length + 1 + (a + b))
        (length? options depth v) (elementsLength? (items options depth (index + 1) rest)) := by
  rw [items, length?]
  cases payload options depth v with
  | error e => rfl
  | ok p =>
    cases items options depth (index + 1) rest with
    | error e => rfl
    | ok es =>
      refine congrArg some ?_
      change (Elements.cons (toString index) p es).bytes.length =
        (cstring (toString index)).length + 1 + (p.bytes.length + es.bytes.length)
      rw [bytes_cons, List.length_cons, List.length_append, List.length_append]
      omega

/-! ### Equal values -/

/-- Values that take equally many bytes, however many frames are open around them. -/
def SameLength (options : WriteOptions) (v w : Value) : Prop :=
  ∀ depth, length? options depth v = length? options depth w

/-- The fields of documents take equally many bytes if equal ones under each key do. -/
theorem fieldsLength?_congr {d e : Document}
    (h : d.Rel (fun v w => v.beq w ∧ SameLength options v w) e) :
    elementsLength? (fields options depth d.entries) =
      elementsLength? (fields options depth e.entries) := by
  rw [fieldsLength?_eq, fieldsLength?_eq]
  refine total_perm (h.perm_map fun key v w hvw => ?_)
  rw [fieldLength?, fieldLength?, isDropped_of_beq hvw.1, hvw.2 depth]

theorem itemsLength?_congr {xs ys : List Value}
    (h : List.Forall₂ (fun v w => v.beq w ∧ SameLength options v w) xs ys) (index : Nat) :
    elementsLength? (items options depth index xs) =
      elementsLength? (items options depth index ys) := by
  induction h generalizing index with
  | nil => rfl
  | cons hvw _ ih => rw [itemsLength?_cons, itemsLength?_cons, hvw.2 depth, ih]

theorem frame_congr {make : Int32 → Elements → Payload} {k : Nat}
    (hmake : ∀ es, (make (frameLength es.bytes) es).bytes.length = es.bytes.length + k)
    {body body' : Except Error Elements} (h : elementsLength? body = elementsLength? body') :
    payloadLength? (frame make depth body) = payloadLength? (frame make depth body') := by
  rw [payloadLength?_frame hmake, payloadLength?_frame hmake, h]

theorem number_congr {x y : Double} (h : x.ieeeEq y) :
    (number x).bytes.length = (number y).bytes.length := by
  rw [number, number, Double.toInt32?_of_ieeeEq h]
  cases y.toInt32? with
  | some n => rfl
  | none =>
    change (LittleEndian.bytes 8 _).length = (LittleEndian.bytes 8 _).length
    rw [LittleEndian.length_bytes, LittleEndian.length_bytes]

theorem elementsLength?_reference (collection : String) (database : Option String)
    {p q : Except Error Payload} (h : payloadLength? p = payloadLength? q) :
    elementsLength? (p.map fun p => reference collection p database) =
      elementsLength? (q.map fun q => reference collection q database) := by
  cases p with
  | error e => cases q with
    | error e' => rfl
    | ok q => cases h
  | ok p => cases q with
    | error e' => cases h
    | ok q =>
      refine congrArg some ?_
      have hpq : p.bytes.length = q.bytes.length := Option.some.inj h
      change (reference collection p database).bytes.length =
        (reference collection q database).bytes.length
      rw [length_reference collection p, length_reference collection q, hpq]

/-- Equal values take equally many bytes. -/
theorem sameLength_congruent : Value.Congruent (SameLength options) where
  plain _ _ := fun _ => rfl
  double x y h depth := congrArg some (number_congr h)
  boxedDouble x y h depth := by
    refine congrArg some ?_
    change (LittleEndian.bytes 8 _).length = (LittleEndian.bytes 8 _).length
    rw [LittleEndian.length_bytes, LittleEndian.length_bytes]
  document d e h depth := frame_congr length_document (fieldsLength?_congr h)
  array xs ys h depth := frame_congr length_array (itemsLength?_congr h 0)
  scopedCode source d e h depth := by
    rw [length?, length?, payload, payload, h.isEmpty_eq]
    split
    · rfl
    · refine frame_congr (k := (utf8 source).length + 14) (fun es => ?_) (fieldsLength?_congr h)
      rw [length_codeWithScope]
      omega
  dbRef collection id id' database _ h depth :=
    frame_congr length_document (elementsLength?_reference collection database (h (depth + 1)))

end Layout

/-! ### Normal forms of equal values -/

/-- Equal values are the same text, if they are one. -/
theorem asString?_of_beq {v w : Value} (h : v.beq w) : v.asString? = w.asString? := by
  cases v <;> cases w <;> first | rfl | cases h | exact congrArg some (of_decide_eq_true h)

theorem normalDocument_rel {d e : Document}
    (h : d.Rel (fun v w => v.beq w ∧ (normal options promote v).beq (normal options promote w)) e) :
    (normalDocument options promote d).Rel (fun v w => v.beq w)
      (normalDocument options promote e) := by
  intro key
  rw [get?_normalDocument, get?_normalDocument]
  rcases h.cases key with ⟨hv, hw⟩ | ⟨v, w, hv, hw, hvw, hnormal⟩
  · rw [hv, hw]
    exact .none
  · rw [hv, hw, Option.filter_some, Option.filter_some, isDropped_of_beq hvw]
    split
    · exact .some hnormal
    · exact .none

/-- Documents that are equal stand for references alike. -/
theorem asReference_beq {d e : Document} (h : d.Rel (fun v w => v.beq w) e) :
    d.asReference.beq e.asReference := by
  rw [OrderedMap.asReference, OrderedMap.asReference]
  rcases OrderedMap.reference?_rel (fun _ _ _ _ _ => asString?_of_beq) h with
    ⟨hd, he⟩ | ⟨collection, id, id', database, hd, he, hid⟩
  · rw [hd, he]
    exact Value.beq_document_iff.2 h
  · rw [hd, he]
    change (decide (collection = collection) && id.beq id' && decide (database = database)) = true
    rw [hid, decide_eq_true rfl, decide_eq_true rfl]
    rfl

/-- A promoted integer is no NaN, so it equals itself. -/
theorem normalLong_beq (n : Long) : (normalLong promote n).beq (normalLong promote n) := by
  rw [normalLong, int64Value]
  split
  · exact Double.ieeeEq_iff.2 (.inl ⟨rfl, Double.isNaN_ofRatio _ _ _⟩)
  · exact decide_eq_true rfl

/-- Equal values have equal normal forms. -/
theorem normal_congruent : Value.Congruent fun v w =>
    (normal options promote v).beq (normal options promote w) where
  plain v hv := by
    cases v with
    | long n => exact normalLong_beq n
    | double _ | boxedDouble _ | document _ | array _ | scopedCode _ _ | dbRef _ _ _ | hook _ _
    | brokenHook _ => cases hv
    | _ => exact Value.beq_self_of_isPlain rfl
  double x y h := by
    rw [normal, normal, normalNumber, normalNumber, Double.toInt32?_of_ieeeEq h]
    cases y.toInt32? with
    | some n => exact decide_eq_true rfl
    | none => exact h
  boxedDouble x y h := h
  document d e h := asReference_beq (normalDocument_rel h)
  array xs ys h := by
    rw [normal, normal, normalItems_eq, normalItems_eq, Value.beq_array_iff]
    exact List.forall₂_map_left_iff.2 (List.forall₂_map_right_iff.2 (h.imp fun _ _ h => h.2))
  scopedCode source d e h := by
    rw [normal, normal, h.isEmpty_eq]
    split
    · exact decide_eq_true rfl
    · exact Value.beq_scopedCode_iff.2 ⟨rfl, normalDocument_rel h⟩
  dbRef collection id id' database _ h := by
    change (decide (collection = collection) && (normal options promote id).beq _ &&
      decide (database = database)) = true
    rw [h, decide_eq_true rfl, decide_eq_true rfl]
    rfl

theorem nulFreeFields_of_rel {checked : Bool} {d e : Document}
    (h : d.Rel (fun v w => v.beq w ∧ (NulFreeTexts checked v → NulFreeTexts checked w)) e)
    (hd : NulFreeFields checked d.entries) : NulFreeFields checked e.entries := by
  refine (nulFreeFields_iff _).2 fun q hq => ?_
  obtain ⟨key, w⟩ := q
  have hw : e.get? key = some w := OrderedMap.mem_toList_iff.1 hq
  rcases h.cases key with ⟨-, hnone⟩ | ⟨v, w', hv, hw', -, hvw⟩
  · cases hw.symm.trans hnone
  · cases hw.symm.trans hw'
    obtain ⟨hkey, hfree⟩ := (nulFreeFields_iff _).1 hd _ (OrderedMap.mem_toList_of_get? hv)
    exact ⟨hkey, hvw hfree⟩

/-- The texts of equal values are free of NUL together. -/
theorem nulFreeTexts_congruent {checked : Bool} : Value.Congruent fun v w =>
    NulFreeTexts checked v → NulFreeTexts checked w where
  plain _ _ := id
  double _ _ _ := id
  boxedDouble _ _ _ := id
  document _ _ h := nulFreeFields_of_rel h
  array xs ys h hxs := by
    change NulFreeItems checked xs at hxs
    change NulFreeItems checked ys
    induction h with
    | nil => exact hxs
    | cons hvw _ ih => exact ⟨hvw.2 hxs.1, ih hxs.2⟩
  scopedCode _ _ _ h := nulFreeFields_of_rel h
  dbRef _ _ _ _ _ h := h

/-! ### Documents -/

/-- The number of bytes of an encoding is that of the layout. -/
theorem length?_of_encode {d : Document} {options : EncodeOptions} {x : ByteArray}
    (h : encode d options = .ok x) :
    Layout.length? options.toWriteOptions 0 (.document d) = some x.size ∧
      x.size ≤ options.maxSize := by
  obtain ⟨p, hp, hsize, rfl⟩ := encode_eq_ok.1 h
  have hlength : p.bytes.toByteArray.size = p.bytes.length := List.size_toByteArray
  have hpayload : Layout.payload options.toWriteOptions 0 (.document d) = .ok p := hp
  rw [Layout.length?, hpayload, hlength]
  exact ⟨rfl, hsize⟩

/-- A document is encoded if its layout has few enough bytes. -/
theorem exists_encode_iff {d : Document} {options : EncodeOptions} :
    (∃ x, encode d options = .ok x) ↔
      ∃ n, Layout.length? options.toWriteOptions 0 (.document d) = some n ∧
        n ≤ options.maxSize := by
  constructor
  · rintro ⟨x, hx⟩
    exact ⟨x.size, length?_of_encode hx⟩
  · rintro ⟨n, hn, hsize⟩
    rw [Layout.length?] at hn
    cases hp : Layout.payload options.toWriteOptions 0 (.document d) with
    | error e =>
      rw [hp] at hn
      cases hn
    | ok p =>
      rw [hp] at hn
      cases hn
      exact ⟨_, encode_eq_ok.2 ⟨p, hp, hsize, rfl⟩⟩

/-- **The codec respects equality.** Of two equal documents without hooks, in which no unchecked key
and no pattern of a regular expression holds a NUL, one is encoded if the other is, to as many
bytes, and what is read from one encoding equals what is read from the other. -/
theorem encode_respects_equality (a b : Document) (options : EncodeOptions)
    (hmax : options.maxSize ≤ maxLengthField) (hhooks : (Value.document a).HookFree)
    (htexts : NulFreeTexts options.checkKeys (.document a)) (h : a == b) :
    ((∃ x, encode a options = .ok x) ↔ ∃ y, encode b options = .ok y) ∧
      ∀ x y, encode a options = .ok x → encode b options = .ok y →
        x.size = y.size ∧
          ∀ read, ∃ d e, decode x read = .ok d ∧ decode y read = .ok e ∧ d == e := by
  have hbeq : (Value.document a).beq (.document b) := h
  have hlength : Layout.length? options.toWriteOptions 0 (.document a) =
      Layout.length? options.toWriteOptions 0 (.document b) :=
    Layout.sameLength_congruent.of_beq _ hhooks _ hbeq 0
  have htexts' : NulFreeTexts options.checkKeys (.document b) :=
    nulFreeTexts_congruent.of_beq _ hhooks _ hbeq htexts
  refine ⟨by rw [exists_encode_iff, exists_encode_iff, hlength], fun x y hx hy => ?_⟩
  have hsize : some x.size = some y.size := by
    rw [← (length?_of_encode hx).1, ← (length?_of_encode hy).1, hlength]
  refine ⟨Option.some.inj hsize, fun read => ?_⟩
  obtain ⟨p, hp, hpmax, rfl⟩ := encode_eq_ok.1 hx
  obtain ⟨q, hq, hqmax, rfl⟩ := encode_eq_ok.1 hy
  refine ⟨_, _, decode_layout hp (Nat.le_trans hpmax hmax) htexts read,
    decode_layout hq (Nat.le_trans hqmax hmax) htexts' read, Value.beq_document_iff.2 ?_⟩
  refine normalDocument_rel ((Value.beq_document_iff.1 hbeq).mono fun key v w hv _ hvw => ⟨hvw, ?_⟩)
  exact normal_congruent.of_beq_field a.entries hhooks (key, v)
    (OrderedMap.mem_toList_of_get? hv) w hvw

/-- A document with a zero, a document that stands for a reference and has a field too many, and
code with a scope. -/
def orderedDocument : Document :=
  .ofList [("z", .boxedDouble ⟨0⟩),
    ("r", .document (.ofList [("$ref", .string "t"), ("$id", .int32 1), ("e", .null)])),
    ("c", .scopedCode "f" (.ofList [("x", .minKey), ("y", .boolean true)]))]

/-- The same in another order, with the other zero. -/
def reorderedDocument : Document :=
  .ofList [("c", .scopedCode "f" (.ofList [("y", .boolean true), ("x", .minKey)])),
    ("z", .boxedDouble ⟨0x8000000000000000⟩),
    ("r", .document (.ofList [("e", .null), ("$id", .int32 1), ("$ref", .string "t")]))]

/-- The two have encodings of one size that are read as equal documents. -/
theorem encode_respects_equality_reordered :
    defaultMaxSize ≤ maxLengthField ∧ (Value.document orderedDocument).HookFree ∧
      NulFreeTexts false (.document orderedDocument) ∧ orderedDocument == reorderedDocument ∧
      ∃ x y, encode orderedDocument {} = .ok x ∧ encode reorderedDocument {} = .ok y ∧
        x.size = y.size ∧ ∃ d e, decode x {} = .ok d ∧ decode y {} = .ok e ∧ d == e := by
  have hmax : defaultMaxSize ≤ maxLengthField := by decide
  have hhooks : (Value.document orderedDocument).HookFree :=
    ⟨⟨⟨trivial, trivial⟩, ⟨⟨⟨trivial, trivial⟩, trivial⟩, trivial⟩⟩, ⟨⟨trivial, trivial⟩, trivial⟩⟩
  have htexts : NulFreeTexts false (.document orderedDocument) := by
    refine ⟨⟨⟨trivial, .inr ?_, trivial⟩, .inr ?_, ⟨⟨trivial, .inr ?_, trivial⟩, .inr ?_, trivial⟩,
      .inr ?_, trivial⟩, .inr ?_, ⟨trivial, .inr ?_, trivial⟩, .inr ?_, trivial⟩
    all_goals decide
  have heq : orderedDocument == reorderedDocument := by rfl
  obtain ⟨hiff, hsame⟩ := encode_respects_equality orderedDocument reorderedDocument
    { maxSize := defaultMaxSize } hmax hhooks htexts heq
  have hlength : Layout.length? {} 0 (.document orderedDocument) = some 73 := by rfl
  obtain ⟨x, hx⟩ : ∃ x, encode orderedDocument { maxSize := defaultMaxSize } = .ok x :=
    exists_encode_iff.2 ⟨73, hlength, by decide⟩
  obtain ⟨y, hy⟩ := hiff.1 ⟨x, hx⟩
  obtain ⟨hsize, hread⟩ := hsame x y hx hy
  exact ⟨hmax, hhooks, htexts, heq, x, y, hx, hy, hsize, hread {}⟩

end Bson
