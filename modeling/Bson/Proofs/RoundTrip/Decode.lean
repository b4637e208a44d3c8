import Bson.Proofs.Grammar.Reading
import Bson.Proofs.Grammar.Texts
import Bson.Proofs.RoundTrip.Normal
import Bson.Proofs.Writing.Encode

/-!
# Decoding what was encoded

The layout of a value is well formed and stands for the normal form of the value, so what is
written by the layout is read as the normal form.

* `StandsFor`: what the layout of a value has to do with the value. `FieldsStandFor`,
  `ItemsStandFor`: the same of fields and items.
* `payload_standsFor`: the layout of a value stands for it.
* `decode_encode`: the statement about documents.
-/

namespace Bson

open Grammar Layout

variable {options : WriteOptions} {promote : Bool} {depth : Nat}

/-- A payload is clean, nests no more frames than may be open, and stands for the normal form of a
value. -/
structure StandsFor (options : WriteOptions) (promote : Bool) (depth : Nat) (p : Payload)
    (v : Value) : Prop where
  clean : p.Clean
  depth_le : p.depth ≤ maxDepth - depth
  value_eq : p.value promote = normal options promote v

/-- The same of elements and the fields of a document, which are stored behind others. -/
structure FieldsStandFor (options : WriteOptions) (promote : Bool) (depth : Nat) (es : Elements)
    {keys : List String} (entries : Entries Value keys) : Prop where
  clean : es.Clean
  depth_le : es.depth ≤ maxDepth - depth
  document_eq (d : Document) :
    es.document promote d = d.insertMany (normalFields options promote entries)

/-- The same of elements and the items of an array from an index on. -/
structure ItemsStandFor (options : WriteOptions) (promote : Bool) (depth index : Nat)
    (es : Elements) (list : List Value) : Prop where
  clean : es.Clean
  indexed : es.Indexed index
  depth_le : es.depth ≤ maxDepth - depth
  items_eq (vs : List Value) : vs.length = index →
    es.items promote vs = vs ++ normalItems options promote list

/-! ### Payloads without frames -/

theorem number_standsFor (x : Double) :
    StandsFor options promote depth (number x) (.double x) := by
  have hvalue : normal options promote (.double x) = normalNumber x := rfl
  unfold number normalNumber at *
  cases h : x.toInt32? with
  | none => exact ⟨trivial, Nat.zero_le _, by rw [hvalue, h]; rfl⟩
  | some n => exact ⟨trivial, Nat.zero_le _, by rw [hvalue, h]; rfl⟩

theorem binary_standsFor {b : Binary} {v : Value}
    (hv : normal options promote v = .binary b) :
    StandsFor options promote depth (binary b.subtype b.data) v := by
  unfold binary
  by_cases hold : b.subtype = oldBinarySubtype
  · simp only [if_pos hold]
    refine ⟨trivial, Nat.zero_le _, ?_⟩
    rw [hv, Payload.value, ← hold]
  · simp only [if_neg hold]
    exact ⟨hold, Nat.zero_le _, hv.symm⟩

theorem regex_standsFor {r : Regex} (h : '\x00' ∉ r.pattern.toList) :
    StandsFor options promote depth (.regex r.pattern r.flags.toOptions) (.regex r) := by
  refine ⟨⟨nulFree_iff.2 h, nulFree_toOptions r.flags⟩, Nat.zero_le _, ?_⟩
  rw [Payload.value, ofOptions_toOptions, normal]

/-! ### Fields and items -/

theorem checkKey_nulFree {key : String} (h : checkKey options key = .ok ())
    (hkey : options.checkKeys ∨ '\x00' ∉ key.toList) : NulFree key := by
  unfold checkKey at h
  split at h
  · exact nulFree_of_check h
  · rename_i hchecked
    exact nulFree_iff.2 (hkey.resolve_left hchecked)

theorem FieldsStandFor.snoc {front : Elements} {keys : List String} {init : Entries Value keys}
    (h : FieldsStandFor options promote depth front init) {key : String} (hkey : NulFree key)
    {p : Payload} {v : Value} (hp : StandsFor options promote depth p v)
    (hkept : ¬Writer.isDropped options v) {fresh : key ∉ keys} :
    FieldsStandFor options promote depth (front.snoc key p) (init.snoc key v fresh) := by
  refine ⟨(Elements.clean_snoc key p front).2 ⟨h.clean, hkey, hp.clean⟩, ?_, fun d => ?_⟩
  · rw [Elements.depth_snoc]
    exact Nat.max_le.2 ⟨h.depth_le, hp.depth_le⟩
  · rw [Elements.document_snoc, h.document_eq, hp.value_eq, normalFields, if_neg hkept,
      OrderedMap.insertMany_append]
    rfl

theorem FieldsStandFor.skip {front : Elements} {keys : List String} {init : Entries Value keys}
    (h : FieldsStandFor options promote depth front init) {key : String} {v : Value}
    (hdropped : Writer.isDropped options v) {fresh : key ∉ keys} :
    FieldsStandFor options promote depth front (init.snoc key v fresh) := by
  refine ⟨h.clean, h.depth_le, fun d => ?_⟩
  rw [h.document_eq, normalFields, if_pos hdropped, List.append_nil]

theorem ItemsStandFor.cons {index : Nat} {p : Payload} {v : Value}
    (hp : StandsFor options promote depth p v) {tail : Elements} {rest : List Value}
    (h : ItemsStandFor options promote depth (index + 1) tail rest) (hindex : index < 2 ^ 32) :
    ItemsStandFor options promote depth index (.cons (toString index) p tail) (v :: rest) := by
  have hat := indexOf_toString index
  refine ⟨⟨nulFree_toString index, hp.clean, h.clean⟩, ⟨isIndex_toString hindex, ?_, ?_⟩, ?_,
    fun vs hvs => ?_⟩
  · omega
  · rw [hat, Nat.max_eq_right (Nat.le_succ index)]
    exact h.indexed
  · exact Nat.max_le.2 ⟨hp.depth_le, h.depth_le⟩
  · -- the item is placed right behind the ones before it
    have hplaced : placed vs index (p.value promote) = vs ++ [p.value promote] := by
      rw [placed, if_neg (by omega), hvs, Nat.sub_self]
      rfl
    rw [Elements.items, hat, hplaced,
      h.items_eq _ (by rw [List.length_append, List.length_singleton, hvs]), hp.value_eq,
      normalItems, List.append_assoc]
    rfl

/-! ### Frames -/

theorem FieldsStandFor.document {es : Elements} {d : Document} {length : Int32}
    (h : FieldsStandFor options promote (depth + 1) es d.entries) (hdepth : depth < maxDepth) :
    StandsFor options promote depth (.document length es) (.document d) := by
  refine ⟨h.clean, ?_, ?_⟩
  · have := h.depth_le
    rw [Payload.depth]
    omega
  · rw [Payload.value, h.document_eq, normal]
    rfl

theorem FieldsStandFor.scopedCode {es : Elements} {source : String} {scope : Document}
    {length : Int32} (h : FieldsStandFor options promote (depth + 1) es scope.entries)
    (hdepth : depth < maxDepth) (hscope : ¬scope.isEmpty) :
    StandsFor options promote depth (codeWithScope source length es)
      (.scopedCode source scope) := by
  refine ⟨h.clean, ?_, ?_⟩
  · have := h.depth_le
    rw [codeWithScope, Payload.depth]
    omega
  · rw [codeWithScope, Payload.value, h.document_eq, normal, if_neg hscope]
    rfl

theorem ItemsStandFor.array {es : Elements} {list : List Value} {length : Int32}
    (h : ItemsStandFor options promote (depth + 1) 0 es list) (hdepth : depth < maxDepth) :
    StandsFor options promote depth (.array length es) (.array list) := by
  refine ⟨⟨h.clean, h.indexed⟩, ?_, ?_⟩
  · have := h.depth_le
    rw [Payload.depth]
    omega
  · rw [Payload.value, h.items_eq [] rfl, normal, List.nil_append]

theorem StandsFor.reference {p : Payload} {id : Value} {collection : String}
    {database : Option String} {length : Int32} (h : StandsFor options promote (depth + 1) p id)
    (hdepth : depth < maxDepth) :
    StandsFor options promote depth (.document length (reference collection p database))
      (.dbRef collection id database) := by
  have hkeys : NulFree refKey ∧ NulFree idKey ∧ NulFree dbKey := by
    simp only [nulFree_iff]
    decide
  have hdepthId := h.depth_le
  cases database with
  | none =>
    refine ⟨⟨hkeys.1, trivial, hkeys.2.1, h.clean, trivial⟩, ?_, ?_⟩
    · change max 0 (max p.depth 0) + 1 ≤ maxDepth - depth
      omega
    · rw [normal, ← h.value_eq]
      rfl
  | some database =>
    refine ⟨⟨hkeys.1, trivial, hkeys.2.1, h.clean, hkeys.2.2, trivial, trivial⟩, ?_, ?_⟩
    · change max 0 (max p.depth (max 0 0)) + 1 ≤ maxDepth - depth
      omega
    · rw [normal, ← h.value_eq]
      rfl

/-! ### Values -/

mutual

/-- The layout of a value stands for it. -/
theorem payload_standsFor : ∀ (v : Value) {depth : Nat} {p : Payload},
    payload options depth v = .ok p → p.bytes.length ≤ maxLengthField →
      NulFreeTexts options.checkKeys v → StandsFor options promote depth p v
  | .double x, _, _, h, _, _ => by
    cases h
    exact number_standsFor x
  | .boxedDouble _, _, _, h, _, _ | .int32 _, _, _, h, _, _ | .long _, _, _, h, _, _
  | .string _, _, _, h, _, _ | .objectId _, _, _, h, _, _
  | .dateTime _, _, _, h, _, _ | .null, _, _, h, _, _ | .undefined, _, _, h, _, _
  | .code _, _, _, h, _, _ | .function _, _, _, h, _, _ | .symbol _, _, _, h, _, _
  | .timestamp _, _, _, h, _, _ | .minKey, _, _, h, _, _ | .maxKey, _, _, h, _, _ => by
    cases h
    exact ⟨trivial, Nat.zero_le _, rfl⟩
  | .boolean b, _, _, h, _, _ => by
    cases h
    refine ⟨trivial, Nat.zero_le _, ?_⟩
    cases b <;> rfl
  | .document d, _, _, h, hl, hs => by
    obtain ⟨hdepth, es, hes, rfl⟩ := frame_eq_ok.1 h
    rw [Payload.bytes, length_enclosed] at hl
    exact (fields_standFor d.entries hes (by omega) hs).document hdepth
  | .array list, _, _, h, hl, hs => by
    obtain ⟨hdepth, es, hes, rfl⟩ := frame_eq_ok.1 h
    rw [Payload.bytes, length_enclosed] at hl
    exact (items_standFor list hes (by omega) hs).array hdepth
  | .binary b, _, _, h, _, _ => by
    cases h
    exact binary_standsFor rfl
  | .bytes data, _, _, h, _, _ => by
    cases h
    exact binary_standsFor (b := ⟨genericSubtype, data⟩) rfl
  | .regex r, _, _, h, _, hs => by
    cases h
    exact regex_standsFor hs
  | .scopedCode source scope, _, _, h, hl, hs => by
    rw [payload] at h
    split at h
    · rename_i hempty
      cases h
      exact ⟨trivial, Nat.zero_le _, by rw [normal, if_pos hempty]; rfl⟩
    · rename_i hscope
      obtain ⟨hdepth, es, hes, rfl⟩ := frame_eq_ok.1 h
      have hlen := length_codeWithScope source es
      exact (fields_standFor scope.entries hes (by omega) hs).scopedCode hdepth hscope
  | .dbRef collection id database, _, _, h, hl, hs => by
    obtain ⟨hdepth, es, hes, rfl⟩ := frame_eq_ok.1 h
    obtain ⟨p, hp, hes⟩ := Error.bind_eq_ok.1 hes
    cases hes
    -- the bytes of the id are among those of the reference
    simp only [Payload.bytes, length_enclosed, reference, bytes_cons, List.length_cons,
      List.length_append] at hl
    exact (payload_standsFor id hp (by omega) hs).reference hdepth
  | .hook _ result, _, _, h, hl, hs => by
    rw [payload] at h
    split at h
    · cases h
    · obtain ⟨hclean, hdepth, hvalue⟩ := payload_standsFor result h hl hs
      exact ⟨hclean, hdepth, by rw [hvalue, normal]⟩
  | .brokenHook _, _, _, h, _, _ => nomatch h

/-- The layout of the fields of a document stands for them. -/
theorem fields_standFor : ∀ {keys : List String} (entries : Entries Value keys) {depth : Nat}
    {es : Elements}, fields options depth entries = .ok es → es.bytes.length ≤ maxLengthField →
      NulFreeFields options.checkKeys entries → FieldsStandFor options promote depth es entries
  | _, .nil, _, _, h, _, _ => by
    cases h
    exact ⟨trivial, Nat.zero_le _, fun _ => rfl⟩
  | _, .snoc init key v _, _, _, h, hl, hs => by
    obtain ⟨front, hfront, hkey, hes⟩ := fields_snoc_eq_ok.1 h
    split at hes
    · subst hes
      exact (fields_standFor init hfront hl hs.1).skip ‹_›
    · obtain ⟨p, hp, rfl⟩ := hes
      rw [Elements.bytes_snoc, List.length_append, List.length_cons, List.length_append] at hl
      exact (fields_standFor init hfront (by omega) hs.1).snoc (checkKey_nulFree hkey hs.2.1)
        (payload_standsFor v hp (by omega) hs.2.2) ‹_›

/-- The layout of the items of an array stands for them. -/
theorem items_standFor : ∀ (list : List Value) {depth index : Nat} {es : Elements},
    items options depth index list = .ok es → index + es.bytes.length ≤ maxLengthField →
      NulFreeItems options.checkKeys list → ItemsStandFor options promote depth index es list
  | [], _, _, _, h, _, _ => by
    cases h
    exact ⟨trivial, trivial, Nat.zero_le _, fun vs _ => (List.append_nil vs).symm⟩
  | v :: rest, _, _, _, h, hl, hs => by
    obtain ⟨p, hp, tail, htail, rfl⟩ := items_cons_eq_ok.1 h
    rw [bytes_cons, List.length_cons, List.length_append, List.length_append] at hl
    -- each item takes a byte at least, so an index cannot pass the length of the frame
    refine .cons (payload_standsFor v hp (by omega) hs.1)
      (items_standFor rest htail (by omega) hs.2) ?_
    rw [maxLengthField] at hl
    omega

end

/-! ### Documents -/

/-- A well-formed frame is read as what it stands for, to its last byte. -/
theorem readDocument_enclosed {length : Int32} {es : Elements} {d : Document}
    (hm : MeasuresFrame length es.bytes) (hd : Frame.MeansDocument promote maxDepth es d)
    {b : ByteArray} (hb : b.data.toList = enclosed length es.bytes) :
    minDocumentSize ≤ b.size ∧ ∃ r, Reader.ofBytes b 0 promote = .ok r ∧
      r.readDocument = (.ok d, { r with position := b.size }) := by
  have hlen := length_enclosed length es.bytes
  have hsize : b.size = (enclosed length es.bytes).length := by
    rw [← hb]
    rfl
  have hlast : b.data.toList.getLast? = some 0 := by
    rw [hb, enclosed, ← List.append_assoc, List.getLast?_concat]
  refine ⟨by rw [minDocumentSize]; omega, _, Reader.ofBytes_eq_ok.2 ⟨by omega, hlast, rfl⟩, ?_⟩
  have hstarts : enclosed length es.bytes <+: b.data.toList.drop 0 :=
    ⟨[], (List.append_nil _).trans hb.symm⟩
  rw [Reader.readDocument_eq (show b.size - 1 < b.size by omega) hm hd
    (show 0 + _ ≤ b.size - 1 + 1 by omega) hstarts, ← hsize]
  simp only [Nat.zero_add]

/-- The layout of a document is read as its normal form, to its last byte. -/
theorem readDocument_layout {d : Document} {p : Payload}
    (hp : Layout.document options d = .ok p) (hl : p.bytes.length ≤ maxLengthField)
    (htexts : NulFreeFields options.checkKeys d.entries) {b : ByteArray}
    (hb : b.data.toList = p.bytes) :
    minDocumentSize ≤ b.size ∧ ∃ r, Reader.ofBytes b 0 promote = .ok r ∧
      r.readDocument =
        (.ok (normalDocument options promote d), { r with position := b.size }) := by
  have hmeasured : p.Measured false := payload_measured (.document d) hp hl
  obtain ⟨hdepth, es, hes, rfl⟩ := frame_eq_ok.1 hp
  rw [Payload.bytes] at hl hb
  have hlen := length_enclosed (frameLength es.bytes) es.bytes
  have hstands : FieldsStandFor options promote 1 es d.entries :=
    fields_standFor d.entries hes (by omega) htexts
  refine readDocument_enclosed hmeasured.1 ⟨⟨hmeasured.2, hstands.clean⟩, ?_, ?_⟩ hb
  · have := hstands.depth_le
    rw [maxDepth] at this ⊢
    omega
  · exact hstands.document_eq .empty

/-- So it is decoded. -/
theorem decode_layout {d : Document} {p : Payload} (hp : Layout.document options d = .ok p)
    (hl : p.bytes.length ≤ maxLengthField)
    (htexts : NulFreeFields options.checkKeys d.entries) (read : DecodeOptions) :
    decode p.bytes.toByteArray read = .ok (normalDocument options read.promoteLongs d) := by
  obtain ⟨hmin, r, hr, hread⟩ := readDocument_layout hp hl htexts List.toList_data_toByteArray
  exact decode_eq_ok.2 ⟨hmin, r, hr, by rw [hread]⟩

/-- **Decoding undoes encoding.** What was encoded with a greatest size that a length field holds
is decoded as the normal form of the document, whatever the options, if no pattern of a regular
expression holds a NUL and no unchecked key does. The keys that are not left out keep their order,
in the document as in every other, and the reader ends behind the last byte. -/
theorem decode_encode (d : Document) (written : EncodeOptions) (read : DecodeOptions)
    (b : ByteArray) (hmax : written.maxSize ≤ maxLengthField)
    (htexts : NulFreeTexts written.checkKeys (.document d)) (h : encode d written = .ok b) :
    decode b read =
        .ok (normalDocument written.toWriteOptions read.promoteLongs d) ∧
      (∀ d' : Document, (normalDocument written.toWriteOptions read.promoteLongs d').keys =
        (d'.toList.filter fun p => !Writer.isDropped written.toWriteOptions p.2).map Prod.fst) ∧
      ∃ r, Reader.ofBytes b 0 read.promoteLongs = .ok r ∧
        r.readDocument.2.position = b.size := by
  obtain ⟨p, hp, hl, rfl⟩ := encode_eq_ok.1 h
  obtain ⟨hmin, r, hr, hread⟩ := readDocument_layout hp (Nat.le_trans hl hmax) htexts
    List.toList_data_toByteArray
  exact ⟨decode_eq_ok.2 ⟨hmin, r, hr, by rw [hread]⟩, keys_normalDocument, r, hr, by rw [hread]⟩

/-- A document with a field that is left out, a whole number, a scope that becomes empty and a
document that stands for a reference. -/
def mixedDocument : Document :=
  .ofList [("u", .undefined), ("n", .double ⟨0x3FF0000000000000⟩),
    ("c", .scopedCode "f" (.ofList [("x", .undefined)])),
    ("r", .document (.ofList [("$ref", .string "t"), ("$id", .hook 7 .undefined)]))]

/-- Each of these comes back in its normal form. -/
theorem decode_encode_mixed :
    defaultMaxSize ≤ maxLengthField ∧ NulFreeTexts false (.document mixedDocument) ∧
      ∃ b, encode mixedDocument {} = .ok b ∧
        decode b {} = .ok (.ofList [("n", .int32 1), ("c", .scopedCode "f" .empty),
          ("r", .dbRef "t" .null none)]) ∧
        ∃ r, Reader.ofBytes b 0 true = .ok r ∧ r.readDocument.2.position = b.size := by
  have hmax : defaultMaxSize ≤ maxLengthField := by decide
  have htexts : NulFreeTexts false (.document mixedDocument) := by
    refine ⟨⟨⟨⟨trivial, .inr ?_, trivial⟩, .inr ?_, trivial⟩, .inr ?_,
      ⟨trivial, .inr ?_, trivial⟩⟩, .inr ?_, ⟨⟨trivial, .inr ?_, trivial⟩, .inr ?_, trivial⟩⟩
    all_goals decide
  have hp : Layout.document {} mixedDocument = .ok (.document 55 (.cons "n" (.int32 1)
      (.cons "c" (.scopedCode 15 2 "f" 5 .nil) (.cons "r" (.document 22
        (.cons "$ref" (.string 2 "t") (.cons "$id" .null .nil))) .nil)))) := by
    rfl
  have henc : encode mixedDocument { maxSize := defaultMaxSize } = .ok _ :=
    encode_eq_ok.2 ⟨_, hp, by decide, rfl⟩
  obtain ⟨hdec, -, hposition⟩ :=
    decode_encode mixedDocument { maxSize := defaultMaxSize } {} _ hmax htexts henc
  exact ⟨hmax, htexts, _, henc, hdec, hposition⟩

end Bson
