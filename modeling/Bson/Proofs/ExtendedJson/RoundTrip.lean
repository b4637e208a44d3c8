import Bson.Proofs.ExtendedJson.Wrappers

/-!
# Values are read back from extended JSON

What is left of a value after it has been written as extended JSON and read again. Only a document
in the shape of something else is mistaken for it.

* `restored`: what is read for a value. `restoredDocument`: the same of the fields of a document.
* `Unmistakable`: values all of whose hooks can be called and that hold no document in the shape of
  code or of a wrapper.
* `toValue_ofValue`: every such value is written, and read as what is restored of it.
-/

namespace Bson.ExtendedJson

/-! ### What is restored -/

mutual

/-- What is read for a value. -/
def restored : Value → Value
  | .double x => .double (restoredDouble x)
  | .boxedDouble x => .double (restoredDouble x)
  | .int32 n => .int32 n
  | .long n => restoredLong n
  | .string s => .string s
  | .document d => OrderedMap.asReference ⟨restoredEntries d.entries⟩
  | .array items => .array (restoredItems items)
  | .binary b => .binary b
  | .bytes data => .binary ⟨genericSubtype, data⟩
  | .objectId id => .objectId id
  | .boolean b => .boolean b
  | .dateTime millis => .dateTime millis
  | .null => .null
  | .undefined => .undefined
  | .regex r => .regex r
  | .code source => .code source
  | .scopedCode source scope => .scopedCode source ⟨restoredEntries scope.entries⟩
  | .function source => .code source
  | .symbol s => .symbol s
  | .timestamp t => .timestamp t
  | .minKey => .minKey
  | .maxKey => .maxKey
  | .dbRef collection id database => .dbRef collection (restored id) database
  | .hook _ result => restored result
  -- such a value is not written
  | .brokenHook slot => .brokenHook slot

/-- What is read for fields, under the same keys. -/
def restoredEntries : {keys : List String} → Entries Value keys → Entries Value keys
  | _, .nil => .nil
  | _, .snoc init key v fresh => .snoc (restoredEntries init) key (restored v) fresh

/-- What is read for items. -/
def restoredItems : List Value → List Value
  | [] => []
  | v :: rest => restored v :: restoredItems rest

end

/-- The fields of a document as they are read. -/
def restoredDocument (d : Document) : Document := ⟨restoredEntries d.entries⟩

/-- Every field stays in its place. -/
theorem toList_restoredDocument (d : Document) :
    (restoredDocument d).toList = d.toList.map fun p => (p.1, restored p.2) := by
  obtain ⟨entries⟩ := d
  change (restoredEntries entries).toList = entries.toList.map _
  induction entries with
  | nil => rfl
  | snoc init key v fresh ih =>
    rw [restoredEntries, Entries.toList_snoc, Entries.toList_snoc, ih, List.map_append]
    rfl

/-! ### Documents that are not mistaken -/

/-- An object is read field by field: it holds no code, and it is not just the field of a
wrapper. -/
structure IsOrdinary {α : Type} (fields : OrderedMap α) : Prop where
  no_code : "$code" ∉ fields.keys
  no_wrapper : ∀ key ∈ wrapperKeys, fields.keys ≠ [key]

mutual

/-- Whether every hook in a value can be called and no document in it, but for the scope of code,
has the shape of code or of a wrapper. -/
def Unmistakable : Value → Prop
  | .document d => IsOrdinary d ∧ UnmistakableFields d.entries
  | .array items => UnmistakableItems items
  | .scopedCode _ scope => UnmistakableFields scope.entries
  | .dbRef _ id _ => Unmistakable id
  | .hook _ result => Unmistakable result
  | .brokenHook _ => False
  | _ => True

/-- The same of fields. -/
def UnmistakableFields : {keys : List String} → Entries Value keys → Prop
  | _, .nil => True
  | _, .snoc init _ v _ => UnmistakableFields init ∧ Unmistakable v

/-- The same of items. -/
def UnmistakableItems : List Value → Prop
  | [] => True
  | v :: rest => Unmistakable v ∧ UnmistakableItems rest

end

/-- An ordinary object is what its fields are. -/
theorem toValue_object {fields : OrderedMap Json} (h : IsOrdinary fields)
    {values : Entries Value fields.newestFirst} (hvalues : toEntries fields.entries = .ok values) :
    toValue (.object fields) = .ok (OrderedMap.asReference ⟨values⟩) := by
  rw [toValue, OrderedMap.get?_eq_none_iff.2 h.no_code, wrapped?_eq_none_iff.2 h.no_wrapper,
    hvalues]
  rfl

/-! ### Fields and items one by one -/

theorem ofItems_cons {v : Value} {rest : List Value} {j : Json} {js : List Json}
    (hv : ofValue v = .ok j) (hrest : ofItems rest = .ok js) :
    ofItems (v :: rest) = .ok (j :: js) := by
  rw [ofItems, hv, hrest]
  rfl

theorem toItems_cons {j : Json} {js : List Json} {v : Value} {rest : List Value}
    (hj : toValue j = .ok v) (hjs : toItems js = .ok rest) :
    toItems (j :: js) = .ok (v :: rest) := by
  rw [toItems, hj, hjs]
  rfl

theorem ofEntries_snoc {keys : List String} {init : Entries Value keys} {js : Entries Json keys}
    {key : String} {v : Value} {j : Json} {fresh : key ∉ keys} (hinit : ofEntries init = .ok js)
    (hv : ofValue v = .ok j) :
    ofEntries (init.snoc key v fresh) = .ok (js.snoc key j fresh) := by
  rw [ofEntries, hinit, hv]
  rfl

theorem toEntries_snoc {keys : List String} {js : Entries Json keys} {init : Entries Value keys}
    {key : String} {j : Json} {v : Value} {fresh : key ∉ keys} (hjs : toEntries js = .ok init)
    (hj : toValue j = .ok v) :
    toEntries (js.snoc key j fresh) = .ok (init.snoc key v fresh) := by
  rw [toEntries, hjs, hj]
  rfl

theorem toValue_string (s : String) : toValue (.string s) = .ok (.string s) := by
  rw [toValue]

/-! ### Writing and reading -/

/-- A value is written and read as what is restored of it. -/
def Restores (v : Value) : Prop := ∃ j, ofValue v = .ok j ∧ toValue j = .ok (restored v)

/-- So are all items. -/
def RestoresItems (items : List Value) : Prop :=
  ∃ js, ofItems items = .ok js ∧ toItems js = .ok (restoredItems items)

/-- So are all fields, under the same keys. -/
def RestoresEntries {keys : List String} (entries : Entries Value keys) : Prop :=
  ∃ js : Entries Json keys, ofEntries entries = .ok js ∧
    toEntries js = .ok (restoredEntries entries)

theorem RestoresItems.cons {v : Value} {rest : List Value} (hv : Restores v)
    (hrest : RestoresItems rest) : RestoresItems (v :: rest) := by
  obtain ⟨j, hj, hback⟩ := hv
  obtain ⟨js, hjs, hbacks⟩ := hrest
  exact ⟨j :: js, ofItems_cons hj hjs, toItems_cons hback hbacks⟩

theorem RestoresEntries.snoc {keys : List String} {init : Entries Value keys} {key : String}
    {v : Value} {fresh : key ∉ keys} (hinit : RestoresEntries init) (hv : Restores v) :
    RestoresEntries (init.snoc key v fresh) := by
  obtain ⟨js, hjs, hbacks⟩ := hinit
  obtain ⟨j, hj, hback⟩ := hv
  exact ⟨js.snoc key j fresh, ofEntries_snoc hjs hj, toEntries_snoc hbacks hback⟩

theorem restores_array {items : List Value} (h : RestoresItems items) :
    Restores (.array items) := by
  obtain ⟨js, hjs, hback⟩ := h
  refine ⟨.array js, ?_, ?_⟩
  · rw [ofValue, hjs]
    rfl
  · rw [toValue, hback]
    rfl

theorem restores_document {d : Document} (hordinary : IsOrdinary d)
    (h : RestoresEntries d.entries) : Restores (.document d) := by
  obtain ⟨js, hjs, hback⟩ := h
  refine ⟨.object ⟨js⟩, ?_, ?_⟩
  · rw [ofValue, hjs]
    rfl
  · exact toValue_object ⟨hordinary.no_code, hordinary.no_wrapper⟩ hback

/-- An object with a text under `$code` is code. -/
theorem toValue_codeObject (fields : OrderedMap Json) {source : String} {scope : Option Document}
    (hcode : fields.get? "$code" = some (.string source))
    (hscope : toScope fields.entries = .ok scope) :
    toValue (.object fields) = .ok (codeWith source scope) := by
  rw [toValue, hcode]
  change Except.bind (toScope fields.entries) _ = _
  rw [hscope]
  rfl

theorem toValue_code (source : String) :
    toValue (wrap "$code" (.string source)) = .ok (.code source) := by
  have hscope : toScope (.snoc .nil "$code" (.string source) List.not_mem_nil) = .ok none := by
    rw [toScope.eq_def]
    exact if_neg (by decide)
  exact toValue_codeObject (.ofList [("$code", .string source)]) rfl hscope

/-- A scope is read as a document whatever its shape. -/
theorem restores_scopedCode (source : String) {scope : Document}
    (h : RestoresEntries scope.entries) : Restores (.scopedCode source scope) := by
  obtain ⟨js, hjs, hback⟩ := h
  have hscope : toScope (.snoc (.snoc .nil "$code" (.string source) List.not_mem_nil) "$scope"
      (.object ⟨js⟩) (by decide)) = .ok (some (restoredDocument scope)) := by
    rw [toScope, if_pos rfl, hback]
    rfl
  refine ⟨.ofPairs [("$code", .string source), ("$scope", .object ⟨js⟩)], ?_, ?_⟩
  · rw [ofValue, hjs]
    rfl
  · exact toValue_codeObject (.ofList [("$code", .string source), ("$scope", .object ⟨js⟩)]) rfl
      hscope

/-- The object of a reference is read as that reference. -/
theorem restores_dbRef (collection : String) {id : Value} (database : Option String)
    (h : Restores id) : Restores (.dbRef collection id database) := by
  obtain ⟨j, hj, hback⟩ := h
  have hpair : toEntries (.snoc (.snoc .nil "$ref" (.string collection) List.not_mem_nil) "$id" j
      (by decide)) = .ok (.snoc (.snoc .nil "$ref" (.string collection) List.not_mem_nil) "$id"
        (restored id) (by decide)) :=
    toEntries_snoc (toEntries_snoc rfl (toValue_string collection)) hback
  refine ⟨ofReference collection j database, ?_, ?_⟩
  · rw [ofValue, hj]
    rfl
  · cases database with
    | none =>
      have hordinary : IsOrdinary
          (OrderedMap.ofList [("$ref", Json.string collection), ("$id", j)]) :=
        ⟨show "$code" ∉ ["$ref", "$id"] by decide,
          show ∀ key ∈ wrapperKeys, ["$ref", "$id"] ≠ [key] by decide⟩
      exact toValue_object hordinary hpair
    | some database =>
      have hordinary : IsOrdinary (OrderedMap.ofList
          [("$ref", Json.string collection), ("$id", j), ("$db", .string database)]) :=
        ⟨show "$code" ∉ ["$ref", "$id", "$db"] by decide,
          show ∀ key ∈ wrapperKeys, ["$ref", "$id", "$db"] ≠ [key] by decide⟩
      exact toValue_object hordinary (toEntries_snoc hpair (toValue_string database))

mutual

/-- An unmistakable value is written and read as what is restored of it. -/
theorem value_restores : ∀ (v : Value), Unmistakable v → Restores v
  | .null, _ => ⟨_, rfl, by rw [toValue, restored]⟩
  | .boolean _, _ => ⟨_, rfl, by rw [toValue, restored]⟩
  | .string _, _ => ⟨_, rfl, by rw [toValue, restored]⟩
  | .undefined, _ => ⟨_, rfl, toValue_wrap (by decide) rfl⟩
  | .minKey, _ => ⟨_, rfl, toValue_wrap (by decide) rfl⟩
  | .maxKey, _ => ⟨_, rfl, toValue_wrap (by decide) rfl⟩
  | .symbol _, _ => ⟨_, rfl, toValue_wrap (by decide) rfl⟩
  | .int32 n, _ => ⟨_, rfl, by rw [toValue, ofInteger_toInt64, restored]⟩
  | .long n, _ => ⟨_, rfl, by rw [toValue, ofInteger_restoredLong, restored]⟩
  | .double x, _ => ⟨_, rfl, toValue_ofDouble x⟩
  | .boxedDouble x, _ => ⟨_, rfl, toValue_ofDouble x⟩
  | .binary b, _ => ⟨_, rfl, toValue_ofBinary b.subtype b.data⟩
  | .bytes data, _ => ⟨_, rfl, toValue_ofBinary genericSubtype data⟩
  | .objectId id, _ => ⟨_, rfl, toValue_objectId id⟩
  | .dateTime millis, _ => ⟨_, rfl, toValue_ofInstant millis⟩
  | .regex r, _ => ⟨_, rfl, toValue_ofRegex r⟩
  | .timestamp t, _ => ⟨_, rfl, toValue_ofTimestamp t⟩
  | .code source, _ => ⟨_, rfl, toValue_code source⟩
  | .function source, _ => ⟨_, rfl, toValue_code source⟩
  | .document d, h => restores_document h.1 (entries_restore d.entries h.2)
  | .array items, h => restores_array (items_restore items h)
  -- of a scope only the fields are values, so its own shape is free
  | .scopedCode source scope, h => restores_scopedCode source (entries_restore scope.entries h)
  | .dbRef collection id database, h => restores_dbRef collection database (value_restores id h)
  | .hook _ result, h => value_restores result h

/-- So are fields. -/
theorem entries_restore : ∀ {keys : List String} (entries : Entries Value keys),
    UnmistakableFields entries → RestoresEntries entries
  | _, .nil, _ => ⟨.nil, rfl, rfl⟩
  | _, .snoc init _ v _, h => RestoresEntries.snoc (entries_restore init h.1) (value_restores v h.2)

/-- So are items. -/
theorem items_restore : ∀ (items : List Value), UnmistakableItems items → RestoresItems items
  | [], _ => ⟨[], rfl, rfl⟩
  | v :: rest, h => RestoresItems.cons (value_restores v h.1) (items_restore rest h.2)

end

/-- **Values are read back from extended JSON.** A value is written if its hooks can be called and
its documents are not mistaken for something else, and what is read is what is restored of it. The
object of a document has the keys of the document in their order, and so has what is restored of
it. -/
theorem toValue_ofValue (v : Value) (h : Unmistakable v) :
    ∃ j, ofValue v = .ok j ∧ toValue j = .ok (restored v) ∧ ∀ d, v = .document d →
      (∃ fields, j = .object fields ∧ fields.keys = d.keys) ∧
        restored v = (restoredDocument d).asReference ∧
        (restoredDocument d).toList = d.toList.map fun p => (p.1, restored p.2) := by
  obtain ⟨j, hj, hback⟩ := value_restores v h
  refine ⟨j, hj, hback, ?_⟩
  rintro d rfl
  refine ⟨?_, rfl, toList_restoredDocument d⟩
  obtain ⟨js, hjs, -⟩ := entries_restore d.entries h.2
  rw [ofValue, hjs] at hj
  exact ⟨⟨js⟩, (Except.ok.inj hj).symm, rfl⟩

/-- A document with a small long, a hook that returns a document with the fields of a reference and
more, and code whose scope has the shape of a wrapper. -/
def mixedDocument : Document :=
  .ofList [("n", .long ⟨5, 0⟩),
    ("r", .hook 0 (.document (.ofList [("$ref", .string "c"), ("$id", .boxedDouble ⟨-1⟩),
      ("more", .null)]))),
    ("f", .scopedCode "x" (.ofList [("$oid", .bytes ⟨#[1]⟩)]))]

/-- It is read back as an integer, a reference to a NaN and code with the same scope. -/
theorem toValue_ofValue_mixed :
    Unmistakable (.document mixedDocument) ∧ ∃ j, ofValue (.document mixedDocument) = .ok j ∧
      toValue j = .ok (.document (.ofList [("n", .int32 5), ("r", .dbRef "c" (.double (.nan false))
        none), ("f", .scopedCode "x" (.ofList [("$oid", .binary ⟨0, ⟨#[1]⟩⟩)]))])) := by
  have hinner : IsOrdinary (OrderedMap.ofList [("$ref", Value.string "c"),
      ("$id", .boxedDouble ⟨-1⟩), ("more", .null)]) := ⟨by decide, by decide⟩
  have houter : IsOrdinary mixedDocument := ⟨by decide, by decide⟩
  have h : Unmistakable (.document mixedDocument) :=
    ⟨houter, ⟨⟨⟨trivial, trivial⟩, hinner, ⟨⟨trivial, trivial⟩, trivial⟩, trivial⟩,
      ⟨trivial, trivial⟩⟩⟩
  obtain ⟨j, hj, hback, -⟩ := toValue_ofValue (.document mixedDocument) h
  exact ⟨h, j, hj, hback⟩

end Bson.ExtendedJson
