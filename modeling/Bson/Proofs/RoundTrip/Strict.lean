import Bson.Proofs.RoundTrip.Reencode

/-!
# Strict encodings

Keys that are checked hold no NUL, but nothing checks the patterns of regular expressions, which a
zero byte ends as well. So a strict encoding means what was encoded exactly if no pattern holds one.

* `Layout.reference?_normalDocument`: a document with checked keys does not become a reference.
* `nulFreeTexts_of_normal`: if the texts of the normal form hold no NUL, those of the value do not.
* `decode_strict_iff`: when a strict encoding is decoded as what was encoded.
* `decode_strict_forged`: a pattern that is decoded as a field.
-/

namespace Bson

open Grammar Layout

variable {options : WriteOptions} {promote : Bool}

/-! ### Checked keys -/

/-- The keys of fields that have a layout pass. -/
theorem Layout.checkKey_of_fields : ∀ {keys : List String} {entries : Entries Value keys}
    {depth : Nat} {es : Elements}, fields options depth entries = .ok es →
      ∀ key ∈ keys, checkKey options key = .ok ()
  | _, .nil, _, _, _, _, hkey => absurd hkey List.not_mem_nil
  | _, .snoc init key v _, _, _, h, k, hk => by
    obtain ⟨front, hfront, hkey, -⟩ := fields_snoc_eq_ok.1 h
    rcases List.mem_cons.1 hk with rfl | hk
    · exact hkey
    · exact checkKey_of_fields hfront k hk

/-- A document whose keys are checked does not become a reference. -/
theorem Layout.reference?_normalDocument (hstrict : options.checkKeys = true) {d : Document}
    {depth : Nat} {es : Elements} (hes : fields options depth d.entries = .ok es) :
    (normalDocument options promote d).reference? = none := by
  refine Option.eq_none_iff_forall_ne_some.2 fun v hv => ?_
  obtain ⟨collection, _, _, hcollection, -, -, -⟩ := OrderedMap.reference?_eq_some.1 hv
  have hget := OrderedMap.bind_asString?_eq_some.1 hcollection
  have hmem := List.mem_map_of_mem (f := Prod.fst) (OrderedMap.mem_toList_of_get? hget)
  rw [OrderedMap.map_fst_toList, keys_normalDocument, List.mem_map] at hmem
  obtain ⟨q, hq, hkey⟩ := hmem
  have hold : refKey ∈ d.keys := by
    rw [← OrderedMap.map_fst_toList]
    exact List.mem_map.2 ⟨q, (List.mem_filter.1 hq).1, hkey⟩
  have hcheck := checkKey_of_fields hes refKey (OrderedMap.mem_keys.1 hold)
  rw [Layout.checkKey, if_pos hstrict] at hcheck
  -- the key starts with a dollar sign
  cases hcheck

/-! ### Texts of the normal form -/

/-- The fields of the normal form of a document are the normal forms of its fields. -/
theorem nulFreeFields_normalDocument {d : Document}
    (h : NulFreeFields true (normalDocument options promote d).entries) :
    ∀ q ∈ normalFields options promote d.entries, NulFreeTexts true q.2 := by
  intro q hq
  have htoList : (normalDocument options promote d).entries.toList =
      normalFields options promote d.entries := by
    rw [normalFields_eq]
    exact toList_normalDocument d
  exact ((nulFreeFields_iff _).1 h q (htoList ▸ hq)).2

mutual

/-- If the texts of the normal form of a value hold no NUL, those of the value do not. -/
theorem nulFreeTexts_of_normal (hstrict : options.checkKeys = true) : ∀ (v : Value) {depth : Nat}
    {p : Payload}, payload options depth v = .ok p →
      NulFreeTexts true (normal options promote v) → NulFreeTexts true v
  | .double _, _, _, _, _ | .boxedDouble _, _, _, _, _ | .int32 _, _, _, _, _
  | .long _, _, _, _, _ | .string _, _, _, _, _ | .binary _, _, _, _, _ | .bytes _, _, _, _, _
  | .objectId _, _, _, _, _ | .boolean _, _, _, _, _ | .dateTime _, _, _, _, _
  | .null, _, _, _, _ | .undefined, _, _, _, _ | .code _, _, _, _, _ | .function _, _, _, _, _
  | .symbol _, _, _, _, _ | .timestamp _, _, _, _, _ | .minKey, _, _, _, _
  | .maxKey, _, _, _, _ | .brokenHook _, _, _, _, _ => trivial
  | .regex _, _, _, _, h => h
  | .document d, depth, _, hp, h => by
    obtain ⟨-, es, hes, -⟩ := frame_eq_ok.1 hp
    have hnormal : normal options promote (.document d) =
        .document (normalDocument options promote d) :=
      OrderedMap.asReference_of_none (reference?_normalDocument hstrict hes)
    rw [hnormal] at h
    exact nulFreeFields_of_normal hstrict d.entries hes (nulFreeFields_normalDocument h)
  | .array list, _, _, hp, h => by
    obtain ⟨-, es, hes, -⟩ := frame_eq_ok.1 hp
    rw [normal] at h
    exact nulFreeItems_of_normal hstrict list hes h
  | .scopedCode source scope, _, _, hp, h => by
    rw [payload] at hp
    rw [normal] at h
    split at hp
    · rename_i hempty
      obtain ⟨entries⟩ := scope
      cases entries with
      | nil => trivial
      | snoc init key v fresh => cases hempty
    · rename_i hscope
      obtain ⟨-, es, hes, -⟩ := frame_eq_ok.1 hp
      rw [if_neg hscope] at h
      exact nulFreeFields_of_normal hstrict scope.entries hes (nulFreeFields_normalDocument h)
  | .dbRef _ id _, _, _, hp, h => by
    obtain ⟨-, es, hes, -⟩ := frame_eq_ok.1 hp
    obtain ⟨p, hid, -⟩ := Error.bind_eq_ok.1 hes
    rw [normal] at h
    exact nulFreeTexts_of_normal hstrict id hid h
  | .hook _ result, _, _, hp, h => by
    rw [payload] at hp
    rw [normal] at h
    split at hp
    · cases hp
    · exact nulFreeTexts_of_normal hstrict result hp h

/-- The same of fields. -/
theorem nulFreeFields_of_normal (hstrict : options.checkKeys = true) : ∀ {keys : List String}
    (entries : Entries Value keys) {depth : Nat} {es : Elements},
      fields options depth entries = .ok es →
        (∀ q ∈ normalFields options promote entries, NulFreeTexts true q.2) →
          NulFreeFields true entries
  | _, .nil, _, _, _, _ => trivial
  | _, .snoc init key v _, _, _, hes, h => by
    obtain ⟨front, hfront, -, hlast⟩ := fields_snoc_eq_ok.1 hes
    rw [normalFields] at h
    refine ⟨nulFreeFields_of_normal hstrict init hfront fun q hq =>
      h q (List.mem_append_left _ hq), .inl rfl, ?_⟩
    split at hlast
    · rename_i hdropped
      cases v with
      | undefined => trivial
      | function source => trivial
      | _ => cases hdropped
    · rename_i hkept
      obtain ⟨p, hp, -⟩ := hlast
      refine nulFreeTexts_of_normal hstrict v hp (h (key, _) (List.mem_append_right _ ?_))
      rw [if_neg hkept]
      exact List.mem_singleton.2 rfl

/-- The same of items. -/
theorem nulFreeItems_of_normal (hstrict : options.checkKeys = true) : ∀ (list : List Value)
    {depth index : Nat} {es : Elements}, items options depth index list = .ok es →
      NulFreeItems true (normalItems options promote list) → NulFreeItems true list
  | [], _, _, _, _, _ => trivial
  | v :: rest, _, _, _, hes, h => by
    obtain ⟨p, hp, tail, htail, -⟩ := items_cons_eq_ok.1 hes
    exact ⟨nulFreeTexts_of_normal hstrict v hp h.1, nulFreeItems_of_normal hstrict rest htail h.2⟩

end

/-! ### Documents -/

/-- **A strict encoding means what was encoded exactly if no pattern holds a NUL.** Where keys are
checked, what was encoded is decoded, to its last byte, as the normal form of the document exactly
if no pattern of a regular expression in it holds a NUL. The keys of the normal form are those that
are not left out. -/
theorem decode_strict_iff (d : Document) (written : EncodeOptions) (read : DecodeOptions)
    (b : ByteArray) (hstrict : written.checkKeys = true) (hmax : written.maxSize ≤ maxLengthField)
    (h : encode d written = .ok b) :
    ((decode b read = .ok (normalDocument written.toWriteOptions read.promoteLongs d) ∧
        ∃ r, Reader.ofBytes b 0 read.promoteLongs = .ok r ∧
          r.readDocument.2.position = b.size) ↔
      NulFreeTexts true (.document d)) ∧
      (normalDocument written.toWriteOptions read.promoteLongs d).keys =
        (d.toList.filter fun p => !Writer.isDropped written.toWriteOptions p.2).map Prod.fst := by
  obtain ⟨p, hp, hl, rfl⟩ := encode_eq_ok.1 h
  have hl : p.bytes.length ≤ maxLengthField := Nat.le_trans hl hmax
  refine ⟨⟨fun hdec => ?_, fun htexts => ?_⟩, keys_normalDocument d⟩
  · -- what was read holds no NUL where a zero byte ends a text
    have hread : NulFreeFields true
        (normalDocument written.toWriteOptions read.promoteLongs d).entries :=
      ReadableFields.nulFreeFields _ (readableFields_of_decode hdec.1)
    obtain ⟨-, es, hes, -⟩ := frame_eq_ok.1 hp
    exact nulFreeFields_of_normal hstrict d.entries hes (nulFreeFields_normalDocument hread)
  · have htexts : NulFreeFields written.checkKeys d.entries := hstrict ▸ htexts
    obtain ⟨-, r, hr, hread⟩ := readDocument_layout hp hl htexts List.toList_data_toByteArray
    exact ⟨decode_layout hp hl htexts read, r, hr, by rw [hread]⟩

/-- A document with a field that is left out and a NUL in every kind of text but a pattern. -/
def nulDocument : Document :=
  .ofList [("u", .undefined), ("s", .string "a\x00"), ("c", .code "\x00b"),
    ("r", .regex ⟨"a", {}⟩), ("d", .dbRef "t\x00" .null none)]

/-- It comes back whole. -/
theorem decode_strict_iff_nul :
    defaultMaxSize ≤ maxLengthField ∧ NulFreeTexts true (.document nulDocument) ∧
      ∃ b, encode nulDocument { checkKeys := true, maxSize := defaultMaxSize } = .ok b ∧
        decode b {} = .ok (.ofList [("s", .string "a\x00"), ("c", .code "\x00b"),
          ("r", .regex ⟨"a", {}⟩), ("d", .dbRef "t\x00" .null none)]) := by
  have hmax : defaultMaxSize ≤ maxLengthField := by decide
  have hpattern : '\x00' ∉ "a".toList := by decide
  have htexts : NulFreeTexts true (.document nulDocument) :=
    ⟨⟨⟨⟨⟨trivial, .inl rfl, trivial⟩, .inl rfl, trivial⟩, .inl rfl, trivial⟩, .inl rfl, hpattern⟩,
      .inl rfl, trivial⟩
  have hp : Layout.document { checkKeys := true } nulDocument = .ok (.document 57
      (.cons "s" (.string 3 "a\x00") (.cons "c" (.code 3 "\x00b") (.cons "r" (.regex "a" "")
        (.cons "d" (.document 23 (.cons "$ref" (.string 3 "t\x00") (.cons "$id" .null .nil)))
          .nil))))) := by
    rfl
  have henc : encode nulDocument { checkKeys := true, maxSize := defaultMaxSize } = .ok _ :=
    encode_eq_ok.2 ⟨_, hp, by decide, rfl⟩
  have hdec := ((decode_strict_iff nulDocument
    { checkKeys := true, maxSize := defaultMaxSize } {} _ rfl hmax henc).1.2 htexts).1
  exact ⟨hmax, htexts, _, henc, hdec⟩

/-- The pattern of a regular expression that is read as the end of a pattern and a field. -/
def forgingDocument : Document := .ofList [("r", .regex ⟨"a\x00\x00\x08x", {}⟩)]

/-- **Strict encoding can emit bytes that mean something else.** Not for every document do checked
keys give an encoding that is decoded as a document with the same keys: here one with a further key
is decoded. -/
theorem decode_strict_forged :
    ∃ b, encode forgingDocument { checkKeys := true } = .ok b ∧
      decode b {} = .ok (.ofList [("r", .regex ⟨"a", {}⟩), ("x", .boolean false)]) ∧
      ¬∀ (d : Document) (written : EncodeOptions) (b : ByteArray),
        written.checkKeys = true → written.maxSize ≤ maxLengthField → encode d written = .ok b →
          ∃ d', decode b {} = .ok d' ∧
            d'.keys = (d.toList.filter fun p =>
              !Writer.isDropped written.toWriteOptions p.2).map Prod.fst := by
  have hp : Layout.document { checkKeys := true } forgingDocument =
      .ok (.document 15 (.cons "r" (.regex "a\x00\x00\x08x" "") .nil)) := by
    rfl
  have henc : encode forgingDocument { checkKeys := true } = .ok _ :=
    encode_eq_ok.2 ⟨_, hp, by decide, rfl⟩
  have hdec : decode [15, 0, 0, 0, 11, 114, 0, 97, 0, 0, 8, 120, 0, 0, 0].toByteArray {} =
      .ok (.ofList [("r", .regex ⟨"a", {}⟩), ("x", .boolean false)]) := by
    rfl
  refine ⟨_, henc, hdec, fun h => ?_⟩
  obtain ⟨d', hd', hkeys⟩ := h forgingDocument { checkKeys := true } _ rfl (by decide) henc
  cases hdec.symm.trans hd'
  exact absurd hkeys (by decide)

end Bson
