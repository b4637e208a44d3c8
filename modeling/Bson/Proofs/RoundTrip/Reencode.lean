import Bson.Proofs.RoundTrip.Decode
import Bson.Proofs.RoundTrip.Readable

/-!
# Encoding what was decoded

What was read can be written again, and writes as its normal form does. So the bytes that are
written are kept by every further round of reading and writing.

* `Layout.payload_of_readable`: a readable value has a layout.
* `normalDocument_eq_map`: its normal form has the same fields in the same order.
* `Layout.payload_normal`: and the same layout.
* `readableFields_of_decode`: what was decoded is readable.
* `encode_decode_stable`: the statement about encoded documents.
-/

namespace Bson

open Grammar Layout

variable {options : WriteOptions} {promote : Bool} {levels : Nat}

/-! ### Readable values have a layout -/

theorem Readable.not_dropped {v : Value} (h : Readable promote levels v) :
    Writer.isDropped options v = false := by
  cases v with
  | undefined => exact h.elim
  | function source => exact h.elim
  | _ => rfl

theorem Layout.exists_frame {make : Int32 → Elements → Payload} {depth : Nat}
    {body : Except Error Elements} (hdepth : depth < maxDepth) (hbody : ∃ es, body = .ok es) :
    ∃ p, frame make depth body = .ok p := by
  obtain ⟨es, hes⟩ := hbody
  exact ⟨_, frame_eq_ok.2 ⟨hdepth, es, hes, rfl⟩⟩

mutual

/-- A readable value has a layout if its frames may be opened. -/
theorem Layout.payload_of_readable (hkeys : options.checkKeys = false) :
    ∀ (v : Value) {levels depth : Nat}, Readable promote levels v → levels + depth ≤ maxDepth →
      ∃ p, payload options depth v = .ok p
  | .double _, _, _, _, _ | .int32 _, _, _, _, _ | .long _, _, _, _, _ | .string _, _, _, _, _
  | .binary _, _, _, _, _ | .objectId _, _, _, _, _ | .boolean _, _, _, _, _
  | .dateTime _, _, _, _, _ | .null, _, _, _, _ | .regex _, _, _, _, _ | .code _, _, _, _, _
  | .symbol _, _, _, _, _ | .timestamp _, _, _, _, _ | .minKey, _, _, _, _
  | .maxKey, _, _, _, _ => ⟨_, rfl⟩
  | .document d, levels, depth, h, hdepth => by
    obtain ⟨hlevels, -, hfields⟩ := h
    exact exists_frame (by omega) (fields_of_readable hkeys d.entries hfields (by omega))
  | .array list, levels, depth, h, hdepth => by
    obtain ⟨hlevels, hitems⟩ := h
    exact exists_frame (by omega) (items_of_readable hkeys list 0 hitems (by omega))
  | .scopedCode source scope, levels, depth, h, hdepth => by
    obtain ⟨hlevels, hfields⟩ := h
    rw [payload]
    split
    · exact ⟨_, rfl⟩
    · exact exists_frame (by omega) (fields_of_readable hkeys scope.entries hfields (by omega))
  | .dbRef collection id database, levels, depth, h, hdepth => by
    obtain ⟨hlevels, hid⟩ := h
    obtain ⟨p, hp⟩ : ∃ p, payload options (depth + 1) id = .ok p :=
      payload_of_readable hkeys id hid (by omega)
    exact exists_frame (by omega) ⟨_, Error.bind_eq_ok.2 ⟨p, hp, rfl⟩⟩

/-- So have readable fields. -/
theorem Layout.fields_of_readable (hkeys : options.checkKeys = false) :
    ∀ {keys : List String} (entries : Entries Value keys) {levels depth : Nat},
      ReadableFields promote levels entries → levels + depth ≤ maxDepth →
        ∃ es, fields options depth entries = .ok es
  | _, .nil, _, _, _, _ => ⟨_, rfl⟩
  | _, .snoc init key v _, _, _, h, hdepth => by
    obtain ⟨front, hfront⟩ := fields_of_readable hkeys init h.1 hdepth
    obtain ⟨p, hp⟩ := payload_of_readable hkeys v h.2.2 hdepth
    refine ⟨front.snoc key p,
      fields_snoc_eq_ok.2 ⟨front, hfront, checkKey_of_unchecked hkeys key, ?_⟩⟩
    rw [if_neg (Bool.eq_false_iff.1 h.2.2.not_dropped)]
    exact ⟨p, hp, rfl⟩

/-- So have readable items. -/
theorem Layout.items_of_readable (hkeys : options.checkKeys = false) :
    ∀ (list : List Value) (index : Nat) {levels depth : Nat},
      ReadableItems promote levels list → levels + depth ≤ maxDepth →
        ∃ es, items options depth index list = .ok es
  | [], _, _, _, _, _ => ⟨_, rfl⟩
  | v :: rest, index, _, _, h, hdepth => by
    obtain ⟨tail, htail⟩ := items_of_readable hkeys rest (index + 1) h.2 hdepth
    rcases h.1 with rfl | hv
    · -- a place that was passed over is written as null
      exact ⟨_, items_cons_eq_ok.2 ⟨.null, rfl, tail, htail, rfl⟩⟩
    · obtain ⟨p, hp⟩ := payload_of_readable hkeys v hv hdepth
      exact ⟨_, items_cons_eq_ok.2 ⟨p, hp, tail, htail, rfl⟩⟩

end

/-! ### The normal form of a readable value -/

/-- A document stands for no reference as long as its strings stay. -/
theorem OrderedMap.reference?_map_eq_none {d : Document} {f : String → Value → Value}
    (hf : ∀ key v, d.get? key = some v → (f key v).asString? = v.asString?)
    (h : d.reference? = none) : (d.map f).reference? = none :=
  reference?_eq_none_of_rel (.of_get?_eq_map (fun key => get?_map f d key) hf) h

/-- The normal form of a readable value is a string only if the value is, and is not left out. -/
theorem Readable.normal_keeps {v : Value} (h : Readable promote levels v) :
    (normal options promote v).asString? = v.asString? ∧
      Writer.isDropped options (normal options promote v) = false := by
  cases v with
  | double x =>
    rw [normal, normalNumber]
    split <;> exact ⟨rfl, rfl⟩
  | long n =>
    rw [normal, normalLong, show int64Value promote n.low n.high = .long n from h]
    exact ⟨rfl, rfl⟩
  | document d =>
    change (normalDocument options promote d).asReference.asString? = none ∧
      Writer.isDropped options (normalDocument options promote d).asReference = false
    rcases (normalDocument options promote d).asReference_cases with ⟨-, h⟩ | ⟨_, _, _, h, -⟩
    · rw [h]
      exact ⟨rfl, rfl⟩
    · rw [h]
      exact ⟨rfl, rfl⟩
  | scopedCode source scope =>
    rw [normal]
    split <;> exact ⟨rfl, rfl⟩
  | boxedDouble _ | bytes _ | undefined | function _ | hook _ _ | brokenHook _ => exact h.elim
  | _ => exact ⟨rfl, rfl⟩

/-- No field of a readable document is left out. -/
theorem normalDocument_eq_map {d : Document} (h : ReadableFields promote levels d.entries) :
    normalDocument options promote d = d.map fun _ v => normal options promote v := by
  refine OrderedMap.ext_toList ?_
  rw [toList_normalDocument, OrderedMap.toList_map, List.filter_eq_self.2]
  intro q hq
  rw [((readableFields_iff _).1 h q hq).2.not_dropped]
  rfl

/-- A readable document that stands for no reference stands for none in its normal form. -/
theorem normal_document {d : Document} (h : ReadableFields promote levels d.entries)
    (href : d.reference? = none) :
    normal options promote (.document d) =
      .document (d.map fun _ v => normal options promote v) := by
  change (normalDocument options promote d).asReference = _
  rw [normalDocument_eq_map h]
  refine OrderedMap.asReference_of_none (OrderedMap.reference?_map_eq_none ?_ href)
  intro key v hv
  exact ((readableFields_iff _).1 h _ (OrderedMap.mem_toList_of_get? hv)).2.normal_keeps.1

mutual

/-- A readable value is laid out as its normal form. -/
theorem Layout.payload_normal : ∀ (v : Value) {levels : Nat} (depth : Nat),
    Readable promote levels v →
      payload options depth (normal options promote v) = payload options depth v
  | .double x, _, depth, _ => by
    rw [normal, normalNumber]
    cases hx : x.toInt32? with
    | none => rfl
    | some n =>
      change Except.ok _ = Except.ok (number x)
      rw [number, hx]
  | .long n, _, depth, h => by rw [normal, normalLong, show int64Value _ _ _ = .long n from h]
  | .int32 _, _, _, _ | .string _, _, _, _ | .binary _, _, _, _ | .objectId _, _, _, _
  | .boolean _, _, _, _ | .dateTime _, _, _, _ | .null, _, _, _ | .regex _, _, _, _
  | .code _, _, _, _ | .symbol _, _, _, _ | .timestamp _, _, _, _ | .minKey, _, _, _
  | .maxKey, _, _, _ => rfl
  | .document d, _, depth, h => by
    obtain ⟨-, href, hfields⟩ := h
    rw [normal_document hfields href, payload, payload]
    exact congrArg (frame .document depth) (fields_normal d.entries (depth + 1) hfields)
  | .array list, _, depth, h => by
    rw [normal, payload, payload, items_normal list 0 (depth + 1) h.2]
  | .scopedCode source scope, _, depth, h => by
    obtain ⟨-, hfields⟩ := h
    by_cases hempty : scope.isEmpty
    · rw [normal, if_pos hempty, payload, payload, if_pos hempty]
    · have hmap : normal options promote (.scopedCode source scope) =
          .scopedCode source (scope.map fun _ v => normal options promote v) := by
        rw [normal, if_neg hempty]
        exact congrArg _ (normalDocument_eq_map hfields)
      rw [hmap, payload, payload, if_neg hempty]
      refine (if_neg hempty).trans ?_
      exact congrArg (frame (codeWithScope source) depth)
        (fields_normal scope.entries (depth + 1) hfields)
  | .dbRef collection id database, _, depth, h => by
    rw [normal, payload, payload, payload_normal id (depth + 1) h.2]

/-- So are readable fields. -/
theorem Layout.fields_normal : ∀ {keys : List String} (entries : Entries Value keys)
    {levels : Nat} (depth : Nat), ReadableFields promote levels entries →
      fields options depth (entries.map fun _ v => normal options promote v) =
        fields options depth entries
  | _, .nil, _, _, _ => rfl
  | _, .snoc init key v _, _, depth, h => by
    obtain ⟨hinit, -, hv⟩ := h
    rw [Entries.map, fields, fields, fields_normal init depth hinit, payload_normal v depth hv,
      hv.not_dropped, hv.normal_keeps.2]

/-- So are readable items. -/
theorem Layout.items_normal : ∀ (list : List Value) {levels : Nat} (index depth : Nat),
    ReadableItems promote levels list →
      items options depth index (normalItems options promote list) = items options depth index list
  | [], _, _, _, _ => rfl
  | v :: rest, _, index, depth, h => by
    rw [normalItems, items, items, items_normal rest (index + 1) depth h.2]
    rcases h.1 with rfl | hv
    · rfl
    · rw [payload_normal v depth hv]

end

/-! ### Texts of a readable value -/

mutual

/-- The texts of a readable value hold no NUL where a zero byte ends them. -/
theorem Readable.nulFreeTexts {checked : Bool} : ∀ (v : Value) {levels : Nat},
    Readable promote levels v → NulFreeTexts checked v
  | .double _, _, _ | .int32 _, _, _ | .long _, _, _ | .string _, _, _ | .binary _, _, _
  | .objectId _, _, _ | .boolean _, _, _ | .dateTime _, _, _ | .null, _, _ | .code _, _, _
  | .symbol _, _, _ | .timestamp _, _, _ | .minKey, _, _ | .maxKey, _, _ => trivial
  | .regex _, _, h => nulFree_iff.1 h
  | .document d, _, h => ReadableFields.nulFreeFields d.entries h.2.2
  | .array list, _, h => ReadableItems.nulFreeItems list h.2
  | .scopedCode _ scope, _, h => ReadableFields.nulFreeFields scope.entries h.2
  | .dbRef _ id _, _, h => Readable.nulFreeTexts id h.2

theorem ReadableFields.nulFreeFields {checked : Bool} :
    ∀ {keys : List String} (entries : Entries Value keys) {levels : Nat},
      ReadableFields promote levels entries → NulFreeFields checked entries
  | _, .nil, _, _ => trivial
  | _, .snoc init _ v _, _, h =>
    ⟨ReadableFields.nulFreeFields init h.1, .inr (nulFree_iff.1 h.2.1),
      Readable.nulFreeTexts v h.2.2⟩

theorem ReadableItems.nulFreeItems {checked : Bool} : ∀ (list : List Value) {levels : Nat},
    ReadableItems promote levels list → NulFreeItems checked list
  | [], _, _ => trivial
  | v :: rest, _, h => by
    refine ⟨?_, ReadableItems.nulFreeItems rest h.2⟩
    rcases h.1 with rfl | hv
    · trivial
    · exact Readable.nulFreeTexts v hv

end

/-! ### Documents that were decoded -/

/-- The fields of a document that was decoded are readable. -/
theorem readableFields_of_decode {b : ByteArray} {read : DecodeOptions} {d : Document}
    (h : decode b read = .ok d) :
    ReadableFields read.promoteLongs (maxDepth - 1) d.entries := by
  obtain ⟨_, es, -, ⟨hvalid, hdepth, rfl⟩, -⟩ := frame_of_decode h
  exact es.document_readable (d := .empty) hvalid.2 (Nat.le_sub_one_of_lt hdepth) trivial

/-- Readable fields have a layout, the same as those of their normal forms. -/
theorem layout_of_readableFields {d : Document}
    (h : ReadableFields promote (maxDepth - 1) d.entries) (hkeys : options.checkKeys = false) :
    ∃ p, Layout.document options d = .ok p ∧
      Layout.document options (normalDocument options promote d) = .ok p := by
  obtain ⟨es, hes⟩ : ∃ es, fields options 1 d.entries = .ok es :=
    fields_of_readable hkeys d.entries h (by decide)
  have hp : Layout.document options d = .ok (.document (frameLength es.bytes) es) :=
    frame_eq_ok.2 ⟨by decide, es, hes, rfl⟩
  refine ⟨_, hp, ?_⟩
  rw [normalDocument_eq_map h]
  exact (congrArg (frame .document 0) (fields_normal d.entries 1 h)).trans hp

/-- **Encoding what was decoded is stable.** A document that was decoded from any bytes can be
encoded again unless its bytes are too many, and what is then encoded is decoded, and encoded to
the very same bytes. -/
theorem encode_decode_stable (b : ByteArray) (read : DecodeOptions) (d : Document)
    (h : decode b read = .ok d) (maxSize : Nat) :
    (∀ e, encode d { maxSize } = .error e → e = .sizeExceeded maxSize) ∧
      ∀ b₁, maxSize ≤ maxLengthField → encode d { maxSize } = .ok b₁ →
        ∃ d₁, decode b₁ read = .ok d₁ ∧ encode d₁ { maxSize } = .ok b₁ := by
  have hfields := readableFields_of_decode h
  obtain ⟨p, hp, hnormal⟩ : ∃ p, Layout.document {} d = .ok p ∧
      Layout.document {} (normalDocument {} read.promoteLongs d) = .ok p :=
    layout_of_readableFields hfields rfl
  refine ⟨fun e he => ?_, fun b₁ hmax henc => ?_⟩
  · rw [encode_eq, hp] at he
    change (if p.bytes.length ≤ maxSize then _ else _) = Except.error e at he
    split at he
    · cases he
    · cases he
      rfl
  · -- the second reading gives the normal form, which is laid out as the document was
    obtain ⟨p', hp', hsize, rfl⟩ := encode_eq_ok.1 henc
    cases hp.symm.trans hp'
    exact ⟨_, decode_layout hp (Nat.le_trans hsize hmax)
      (ReadableFields.nulFreeFields d.entries hfields) read,
      encode_eq_ok.2 ⟨p, hnormal, hsize, rfl⟩⟩

/-- Elements that no document has: a key that comes twice, a safe number of 64 bits, an array out
of order and with a gap, a reference out of order and with a field too many, an empty scope, options
out of order and old binary data with a wrong length. -/
def looseElements : Elements :=
  .cons "n" .null (.cons "n" (.int64 5 0)
    (.cons "a" (.array 11 (.cons "2" .undefined (.cons "1" .undefined .nil)))
      (.cons "r" (.document 25 (.cons "$id" .undefined (.cons "e" .null
        (.cons "$ref" (.string 2 "t") .nil))))
        (.cons "s" (.scopedCode 15 2 "f" 5 .nil) (.cons "p" (.regex "a" "mi")
          (.cons "b" (.oldBinary 9 1 [7].toByteArray) .nil))))))

/-- What they stand for. -/
def looseDocument : Document :=
  .ofList [("n", .double (.ofInt 5)), ("a", .array [.undefined, .null, .null]),
    ("r", .dbRef "t" .null none), ("s", .scopedCode "f" .empty),
    ("p", .regex ⟨"a", { ignoreCase := true, multiline := true }⟩),
    ("b", .binary ⟨oldBinarySubtype, [7].toByteArray⟩)]

theorem looseElements_means :
    Frame.MeansDocument true maxDepth looseElements looseDocument := by
  have hmeasured : looseElements.Measured false :=
    ⟨trivial, trivial, ⟨rfl, trivial, trivial, trivial⟩, ⟨rfl, trivial, trivial, rfl, trivial⟩,
      ⟨rfl, rfl, rfl, trivial⟩, trivial, ⟨rfl, fun h => by cases h⟩, trivial⟩
  have hindexed : (Elements.cons "2" .undefined (.cons "1" .undefined .nil)).Indexed 0 :=
    ⟨isIndex_toString (n := 2) (by decide), by decide, isIndex_toString (n := 1) (by decide),
      by decide, trivial⟩
  have hclean : looseElements.Clean := by
    simp only [looseElements, Elements.Clean, Payload.Clean, nulFree_iff, hindexed, and_true,
      true_and]
    decide
  exact ⟨⟨hmeasured, hclean⟩, by decide, by rfl⟩

theorem decode_looseElements :
    decode (enclosed 100 looseElements.bytes).toByteArray {} = .ok looseDocument := by
  have hmeasures : MeasuresFrame 100 looseElements.bytes := by rfl
  obtain ⟨hmin, r, hr, hread⟩ :=
    readDocument_enclosed hmeasures looseElements_means List.toList_data_toByteArray
  exact decode_eq_ok.2 ⟨hmin, r, hr, by rw [hread]⟩

/-- Their encoding is shorter when it is encoded again, and stays so. -/
theorem encode_decode_stable_loose :
    ∃ b, decode (enclosed 100 looseElements.bytes).toByteArray {} = .ok looseDocument ∧
      defaultMaxSize ≤ maxLengthField ∧
      encode looseDocument { maxSize := defaultMaxSize } = .ok b ∧ b.size = 84 ∧
        ∃ d₁, decode b {} = .ok d₁ ∧ encode d₁ { maxSize := defaultMaxSize } = .ok b := by
  have hmax : defaultMaxSize ≤ maxLengthField := by decide
  have hp : Layout.document {} looseDocument = .ok (.document 84 (.cons "n" (.int32 5)
      (.cons "a" (.array 14 (.cons "0" .null (.cons "1" .null (.cons "2" .null .nil))))
        (.cons "r" (.document 22 (.cons "$ref" (.string 2 "t") (.cons "$id" .null .nil)))
          (.cons "s" (.code 2 "f") (.cons "p" (.regex "a" "im")
            (.cons "b" (.oldBinary 1 1 [7].toByteArray) .nil))))))) := by
    rfl
  have henc : encode looseDocument { maxSize := defaultMaxSize } = .ok _ :=
    encode_eq_ok.2 ⟨_, hp, by decide, rfl⟩
  obtain ⟨-, hstable⟩ := encode_decode_stable _ _ _ decode_looseElements defaultMaxSize
  exact ⟨_, decode_looseElements, hmax, henc, by rfl, hstable _ hmax henc⟩

end Bson
