import Bson.ExtendedJson.OfValue
import Bson.Proofs.RoundTrip.Reencode
import Bson.Proofs.Writing.Relaxed

/-!
# What decoded documents hold

The values that occur in a document that was decoded, however deep, are in a normal form: each could
be read where it stands, and nothing is left that reading replaces.

* `Occurs d n place v`: the value `v` occurs in the document `d`, with `n` frames around it.
  `OccursAsDocument d e`: so does the document `e`, or it is `d`.
* `InNormalForm`: what holds of a value that occurs in a decoded document.
* `Occurs.readable`: what occurs in readable fields is readable.
* `ExtendedJson.ofValue_of_readable`: readable values have a JSON.
* `encode_error_of_readable`: readable fields are encoded unless a key or the size is refused.
* `decoded_inNormalForm`: all of it, for documents that were decoded.
-/

namespace Bson

open Grammar

/-! ### Occurrences -/

/-- How a value stands in what holds it. -/
inductive Place
  /-- Under a key of a document. -/
  | field
  /-- At an index of an array. -/
  | item
  /-- As the id of a reference. -/
  | id

/-- A value occurs in a document, with a number of frames around it; the frame of the document is
the first. -/
inductive Occurs (d : Document) : Nat → Place → Value → Prop
  | field {key : String} {v : Value} (mem : (key, v) ∈ d.toList) : Occurs d 1 .field v
  | inner {n : Nat} {place : Place} {fields : Document} {key : String} {v : Value}
      (outer : Occurs d n place (.document fields)) (mem : (key, v) ∈ fields.toList) :
      Occurs d (n + 1) .field v
  | scope {n : Nat} {place : Place} {source : String} {fields : Document} {key : String} {v : Value}
      (outer : Occurs d n place (.scopedCode source fields)) (mem : (key, v) ∈ fields.toList) :
      Occurs d (n + 1) .field v
  | item {n : Nat} {place : Place} {list : List Value} {v : Value}
      (outer : Occurs d n place (.array list)) (mem : v ∈ list) : Occurs d (n + 1) .item v
  | id {n : Nat} {place : Place} {collection : String} {v : Value} {database : Option String}
      (outer : Occurs d n place (.dbRef collection v database)) : Occurs d (n + 1) .id v

/-- A document is the given one, or occurs in it as a value or as the scope of code. -/
def OccursAsDocument (d e : Document) : Prop :=
  e = d ∨ ∃ n place, Occurs d n place (.document e) ∨
    ∃ source, Occurs d n place (.scopedCode source e)

/-- Whether a document has the fields of a reference: a text under `$ref`, a value under `$id` and
nothing but a text under `$db`. -/
def OrderedMap.LooksLikeReference (d : Document) : Prop :=
  (∃ collection, d.get? refKey = some (.string collection)) ∧ (∃ id, d.get? idKey = some id) ∧
    (d.get? dbKey = none ∨ ∃ database, d.get? dbKey = some (.string database))

/-- Whether a value is written with a frame of its own. -/
def Value.isFramed : Value → Bool
  | .document _ | .array _ | .scopedCode _ _ | .dbRef _ _ _ => true
  | _ => false

/-- What holds of a value that occurs in a decoded document with `n` frames around it. -/
structure InNormalForm (promote : Bool) (n : Nat) (place : Place) (v : Value) : Prop where
  not_boxed : ∀ x, v ≠ .boxedDouble x
  not_bytes : ∀ data, v ≠ .bytes data
  not_function : ∀ source, v ≠ .function source
  not_convertible : ¬v.isConvertible
  /-- Only places of an array that were passed over are undefined. -/
  item_of_undefined : v = .undefined → place = .item
  nulFree_pattern : ∀ r, v = .regex r → '\x00' ∉ r.pattern.toList
  not_reference : ∀ d, v = .document d → ¬d.LooksLikeReference
  /-- Safe 64-bit integers are read as numbers if they are promoted. -/
  unsafe_long : promote → ∀ l, v = .long l → 2 ^ 53 ≤ l.toInt64.toInt.natAbs
  /-- The frames around the value and its own are not more than may nest. -/
  depth_lt : v.isFramed → n < maxDepth

theorem OrderedMap.not_looksLikeReference {d : Document} (h : d.reference? = none) :
    ¬d.LooksLikeReference := by
  rintro ⟨⟨collection, hcollection⟩, ⟨id, hid⟩, hdatabase⟩
  have hname : ∃ database, d.database? = some database := by
    unfold OrderedMap.database?
    rcases hdatabase with hnone | ⟨database, hsome⟩
    · exact ⟨none, by rw [hnone]⟩
    · exact ⟨some database, by rw [hsome]; rfl⟩
  obtain ⟨database, hdatabase⟩ := hname
  have hsome : d.reference? = some (.dbRef collection id database) :=
    OrderedMap.reference?_eq_some.2
      ⟨collection, id, database, by rw [hcollection]; rfl, hid, hdatabase, rfl⟩
  rw [h] at hsome
  cases hsome

/-! ### Readable values -/

section Readable

variable {promote : Bool} {d : Document} {n : Nat} {place : Place} {v : Value}

/-- What occurs in readable fields is readable, or a place of an array that was passed over. -/
theorem Occurs.readable (hd : ReadableFields promote (maxDepth - 1) d.entries)
    (h : Occurs d n place v) :
    (v = .undefined ∧ place = .item) ∨ Readable promote (maxDepth - n) v := by
  have hfield : ∀ {levels : Nat} {fields : Document} {key : String} {v : Value},
      ReadableFields promote levels fields.entries → (key, v) ∈ fields.toList →
        Readable promote levels v :=
    fun hfields hmem => ((readableFields_iff _).1 hfields _ hmem).2
  induction h with
  | field mem => exact .inr (hfield hd mem)
  | inner _ mem ih =>
    obtain ⟨-, -, hfields⟩ := ih.resolve_left nofun
    exact .inr (hfield hfields mem)
  | scope _ mem ih =>
    obtain ⟨-, hfields⟩ := ih.resolve_left nofun
    exact .inr (hfield hfields mem)
  | item _ mem ih =>
    obtain ⟨-, hitems⟩ := ih.resolve_left nofun
    exact ((readableItems_iff _).1 hitems _ mem).imp_left fun hu => ⟨hu, rfl⟩
  | id _ ih => exact .inr (ih.resolve_left nofun).2

/-- So are the fields of the documents that occur. -/
theorem OccursAsDocument.readableFields (hd : ReadableFields promote (maxDepth - 1) d.entries)
    {e : Document} (h : OccursAsDocument d e) :
    ∃ levels, ReadableFields promote levels e.entries := by
  rcases h with rfl | ⟨n, place, hvalue | ⟨source, hscope⟩⟩
  · exact ⟨_, hd⟩
  · obtain ⟨-, -, hfields⟩ := (hvalue.readable hd).resolve_left nofun
    exact ⟨_, hfields⟩
  · obtain ⟨-, hfields⟩ := (hscope.readable hd).resolve_left nofun
    exact ⟨_, hfields⟩

/-- Their keys hold no NUL. -/
theorem ReadableFields.nul_notMem_key {levels : Nat} {e : Document}
    (h : ReadableFields promote levels e.entries) {key : String} (hkey : key ∈ e.keys) :
    '\x00' ∉ key.toList := by
  rw [← OrderedMap.map_fst_toList] at hkey
  obtain ⟨q, hmem, rfl⟩ := List.mem_map.1 hkey
  exact nulFree_iff.1 ((readableFields_iff _).1 h q hmem).1

/-- A readable value is in normal form. -/
theorem Readable.inNormalForm (h : Readable promote (maxDepth - n) v) :
    InNormalForm promote n place v where
  not_boxed x := by
    rintro rfl
    exact h
  not_bytes data := by
    rintro rfl
    exact h
  not_function source := by
    rintro rfl
    exact h
  not_convertible hc := by
    cases v with
    | hook token result => exact h
    | brokenHook slot => exact h
    | _ => cases hc
  item_of_undefined := by
    rintro rfl
    exact h.elim
  nulFree_pattern r := by
    rintro rfl
    exact nulFree_iff.1 h
  not_reference d := by
    rintro rfl
    exact OrderedMap.not_looksLikeReference h.2.1
  unsafe_long hp l := by
    rintro rfl
    refine Nat.le_of_not_lt fun hsafe => ?_
    have hlong : int64Value promote l.low l.high = .long l := h
    have hdouble : int64Value promote l.low l.high = .double (.ofInt l.toInt64.toInt) :=
      if_pos ⟨hp, hsafe⟩
    cases hdouble.symm.trans hlong
  depth_lt hframed := by
    have hlevels : 0 < maxDepth - n := by
      cases v with
      | document fields => exact h.1
      | array list => exact h.1
      | scopedCode source scope => exact h.1
      | dbRef collection id database => exact h.1
      | _ => cases hframed
    exact Nat.lt_of_sub_pos hlevels

/-- A place of an array that was passed over is in normal form. -/
theorem inNormalForm_undefined : InNormalForm promote n .item .undefined where
  not_boxed := nofun
  not_bytes := nofun
  not_function := nofun
  not_convertible := nofun
  item_of_undefined _ := rfl
  nulFree_pattern := nofun
  not_reference := nofun
  unsafe_long := nofun
  depth_lt := nofun

end Readable

/-! ### Extended JSON -/

namespace ExtendedJson

variable {promote : Bool}

mutual

/-- A readable value has a JSON. -/
theorem ofValue_of_readable : ∀ (v : Value) {levels : Nat}, Readable promote levels v →
    ∃ j, ofValue v = .ok j
  | .double _, _, _ | .int32 _, _, _ | .long _, _, _ | .string _, _, _ | .binary _, _, _
  | .objectId _, _, _ | .boolean _, _, _ | .dateTime _, _, _ | .null, _, _ | .regex _, _, _
  | .code _, _, _ | .symbol _, _, _ | .timestamp _, _, _ | .minKey, _, _ | .maxKey, _, _ =>
    ⟨_, rfl⟩
  | .document d, _, h => by
    obtain ⟨entries, hentries⟩ := ofEntries_of_readable d.entries h.2.2
    exact ⟨_, Error.bind_eq_ok.2 ⟨entries, hentries, rfl⟩⟩
  | .array list, _, h => by
    obtain ⟨items, hitems⟩ := ofItems_of_readable list h.2
    exact ⟨_, Error.bind_eq_ok.2 ⟨items, hitems, rfl⟩⟩
  | .scopedCode source scope, _, h => by
    obtain ⟨entries, hentries⟩ := ofEntries_of_readable scope.entries h.2
    exact ⟨_, Error.bind_eq_ok.2 ⟨entries, hentries, rfl⟩⟩
  | .dbRef collection id database, _, h => by
    obtain ⟨j, hj⟩ := ofValue_of_readable id h.2
    exact ⟨_, Error.bind_eq_ok.2 ⟨j, hj, rfl⟩⟩

/-- So have readable fields. -/
theorem ofEntries_of_readable : ∀ {keys : List String} (entries : Entries Value keys)
    {levels : Nat}, ReadableFields promote levels entries → ∃ js, ofEntries entries = .ok js
  | _, .nil, _, _ => ⟨_, rfl⟩
  | _, .snoc init key v _, _, h => by
    obtain ⟨front, hfront⟩ := ofEntries_of_readable init h.1
    obtain ⟨j, hj⟩ := ofValue_of_readable v h.2.2
    exact ⟨_, Error.bind_eq_ok.2 ⟨front, hfront, Error.bind_eq_ok.2 ⟨j, hj, rfl⟩⟩⟩

/-- So have readable items. -/
theorem ofItems_of_readable : ∀ (list : List Value) {levels : Nat},
    ReadableItems promote levels list → ∃ js, ofItems list = .ok js
  | [], _, _ => ⟨_, rfl⟩
  | v :: rest, _, h => by
    obtain ⟨tail, htail⟩ := ofItems_of_readable rest h.2
    obtain ⟨j, hj⟩ : ∃ j, ofValue v = .ok j := by
      rcases h.1 with rfl | hv
      · exact ⟨_, rfl⟩
      · exact ofValue_of_readable v hv
    exact ⟨_, Error.bind_eq_ok.2 ⟨j, hj, Error.bind_eq_ok.2 ⟨tail, htail, rfl⟩⟩⟩

end

end ExtendedJson

/-! ### Encoding -/

/-- The encoding of readable fields fails for the number of the bytes or for a key. -/
theorem encode_error_of_readable {promote : Bool} {d : Document} {options : EncodeOptions}
    (hd : ReadableFields promote (maxDepth - 1) d.entries) {e : Error}
    (h : encode d options = .error e) :
    e = .sizeExceeded options.maxSize ∨ ∃ key fault, e = .keyInvalid key fault := by
  obtain ⟨p, hp, -⟩ :
      ∃ p, Layout.document (Layout.unchecked options.toWriteOptions) d = .ok p ∧ _ :=
    layout_of_readableFields hd rfl
  have hkeys : UpTo (fun e => ∃ key fault, e = .keyInvalid key fault)
      (Layout.document options.toWriteOptions d) (.ok p) := by
    rw [← hp]
    exact Layout.payload_upToKeys options.toWriteOptions (.document d) 0
  rw [encode_eq] at h
  rcases hkeys with hok | ⟨_, ⟨key, fault, rfl⟩, herror⟩
  · rw [hok] at h
    change (if p.bytes.length ≤ options.maxSize then _ else _) = Except.error e at h
    split at h
    · cases h
    · cases h
      exact .inl rfl
  · rw [herror] at h
    cases h
    exact .inr ⟨key, fault, rfl⟩

/-! ### Decoded documents -/

/-- **Decoded documents are in normal form.** In a document that was decoded from any bytes, the
keys of every document are distinct and hold no NUL, every value is in normal form, and so the
document has a JSON text, and its encoding does not fail for a hook or for its nesting. -/
theorem decoded_inNormalForm (b : ByteArray) (read : DecodeOptions) (d : Document)
    (h : decode b read = .ok d) :
    (∀ e, OccursAsDocument d e → e.keys.Nodup ∧ ∀ key ∈ e.keys, '\x00' ∉ key.toList) ∧
      (∀ n place v, Occurs d n place v → InNormalForm read.promoteLongs n place v) ∧
      (∃ text, ExtendedJson.documentText d = .ok text) ∧
      ∀ (options : EncodeOptions) (e : Error), encode d options = .error e →
        (∀ fault, e ≠ .hookInvalid fault) ∧ ∀ limit, e ≠ .nestingTooDeep limit := by
  have hd := readableFields_of_decode h
  refine ⟨fun e he => ⟨e.nodup_keys, fun key hkey => ?_⟩, fun n place v hv => ?_, ?_,
    fun options e he => ?_⟩
  · obtain ⟨levels, hfields⟩ := he.readableFields hd
    exact hfields.nul_notMem_key hkey
  · rcases hv.readable hd with ⟨rfl, rfl⟩ | hread
    · exact inNormalForm_undefined
    · exact hread.inNormalForm
  · obtain ⟨entries, hentries⟩ := ExtendedJson.ofEntries_of_readable d.entries hd
    exact ⟨_, Error.bind_eq_ok.2 ⟨_, Error.bind_eq_ok.2 ⟨entries, hentries, rfl⟩, rfl⟩⟩
  · rcases encode_error_of_readable hd he with rfl | ⟨key, fault, rfl⟩
    · exact ⟨nofun, nofun⟩
    · exact ⟨nofun, nofun⟩

/-- Of bytes that no encoder writes, an array with a place that was passed over remains. -/
theorem decoded_inNormalForm_loose :
    decode (enclosed 100 looseElements.bytes).toByteArray {} = .ok looseDocument ∧
      Occurs looseDocument 2 .item .undefined ∧ InNormalForm true 2 .item .undefined ∧
        ∃ text, ExtendedJson.documentText looseDocument = .ok text := by
  obtain ⟨-, hvalues, htext, -⟩ := decoded_inNormalForm _ _ _ decode_looseElements
  have harray : Occurs looseDocument 1 .field (.array [.undefined, .null, .null]) :=
    .field (OrderedMap.mem_toList_of_get? (show looseDocument.get? "a" = some _ from rfl))
  have hitem : Occurs looseDocument 2 .item .undefined := .item harray List.mem_cons_self
  exact ⟨decode_looseElements, hitem, hvalues _ _ _ hitem, htext⟩

end Bson
