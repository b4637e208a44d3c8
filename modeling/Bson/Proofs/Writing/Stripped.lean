import Bson.Proofs.Writing.Encode

/-!
# Fields that are left out

Leaving fields out while a document is written is deleting them from it first, in the document
itself and in all that it holds. One thing is decided before any field is left out: whether code is
written with its scope. So a scope that has fields and would lose all of them is still written, with
nothing in it, and takes nine bytes more than code without a scope.

* `Value.stripped`: a value without the fields that are left out. `strippedDocument`: the same of a
  document.
* `emptiedScopes`: how many scopes have fields and would lose them all.
* `Layout.payload_stripped`: a value is laid out as without the fields that are left out.
* `Layout.payload_strippedWhole`: what it takes to delete the fields of all scopes.
* `encode_stripped`: the statement about encodings.
-/

namespace Bson

open Grammar

/-- Whether a document has fields and all of them are left out. -/
def losesAll (options : WriteOptions) (d : Document) : Bool :=
  !d.isEmpty && d.toList.all fun p => Writer.isDropped options p.2

mutual

/-- A value with the fields deleted that are left out when it is written. A scope that would lose
all its fields stays as it is unless `whole` is set. -/
def Value.stripped (options : WriteOptions) (whole : Bool) : Value → Value
  | .document d => .document (strippedEntries options whole d.entries).1
  | .array list => .array (strippedItems options whole list)
  | .scopedCode source scope =>
    if losesAll options scope && !whole then .scopedCode source scope
    else .scopedCode source (strippedEntries options whole scope.entries).1
  | .dbRef collection id database => .dbRef collection (id.stripped options whole) database
  | .hook token result => .hook token (result.stripped options whole)
  | v => v

/-- The same of the fields of a document; the keys that are left stay in their order. -/
def strippedEntries (options : WriteOptions) (whole : Bool) :
    {keys : List String} → Entries Value keys → { m : Document // m.newestFirst.Sublist keys }
  | _, .nil => ⟨.empty, .slnil⟩
  | _, .snoc init key v fresh =>
    let kept := strippedEntries options whole init
    if Writer.isDropped options v then ⟨kept.1, kept.2.cons key⟩
    else
      ⟨⟨.snoc kept.1.entries key (v.stripped options whole) fun h => fresh (kept.2.subset h)⟩,
        kept.2.cons_cons key⟩

/-- The same of the items of an array, which all stay. -/
def strippedItems (options : WriteOptions) (whole : Bool) : List Value → List Value
  | [] => []
  | v :: rest => v.stripped options whole :: strippedItems options whole rest

end

/-- A document without the fields that are left out, in it and in its values. -/
def strippedDocument (options : WriteOptions) (whole : Bool) (d : Document) : Document :=
  (strippedEntries options whole d.entries).1

mutual

/-- How many scopes of code in a value have fields and would lose them all. -/
def emptiedScopes (options : WriteOptions) : Value → Nat
  | .document d => emptiedScopesFields options d.entries
  | .array list => emptiedScopesItems options list
  | .scopedCode _ scope =>
    if losesAll options scope then 1 else emptiedScopesFields options scope.entries
  | .dbRef _ id _ => emptiedScopes options id
  | .hook _ result => emptiedScopes options result
  | _ => 0

/-- The same in the fields of a document. -/
def emptiedScopesFields (options : WriteOptions) : {keys : List String} → Entries Value keys → Nat
  | _, .nil => 0
  | _, .snoc init _ v _ => emptiedScopesFields options init + emptiedScopes options v

/-- The same in the items of an array. -/
def emptiedScopesItems (options : WriteOptions) : List Value → Nat
  | [] => 0
  | v :: rest => emptiedScopes options v + emptiedScopesItems options rest

end

/-! ### Documents without fields -/

section Entries

variable {options : WriteOptions} {whole : Bool}

theorem strippedEntries_of_dropped {keys : List String} (init : Entries Value keys) {key : String}
    {v : Value} (fresh : key ∉ keys) (h : Writer.isDropped options v) :
    (strippedEntries options whole (init.snoc key v fresh)).1 =
      (strippedEntries options whole init).1 := by
  rw [strippedEntries, if_pos h]

theorem strippedEntries_of_kept (whole : Bool) {keys : List String} (init : Entries Value keys)
    {key : String} {v : Value} (fresh : key ∉ keys) (h : ¬Writer.isDropped options v) :
    ∃ fresh', (strippedEntries options whole (init.snoc key v fresh)).1 =
      ⟨.snoc (strippedEntries options whole init).1.entries key (v.stripped options whole)
        fresh'⟩ := by
  refine ⟨fun hkey => fresh ((strippedEntries options whole init).2.subset hkey), ?_⟩
  rw [strippedEntries, if_neg h]

theorem toList_strippedEntries_snoc {keys : List String} (init : Entries Value keys) (key : String)
    (v : Value) (fresh : key ∉ keys) :
    (strippedEntries options whole (init.snoc key v fresh)).1.toList =
      (strippedEntries options whole init).1.toList ++
        if Writer.isDropped options v then [] else [(key, v.stripped options whole)] := by
  by_cases h : Writer.isDropped options v
  · rw [strippedEntries_of_dropped init fresh h, if_pos h, List.append_nil]
  · obtain ⟨fresh', hkept⟩ := strippedEntries_of_kept whole init fresh h
    rw [hkept, if_neg h]
    exact Entries.toList_snoc _ _ _ fresh'

/-- The fields that are not left out stay in their order. -/
theorem toList_strippedDocument (d : Document) :
    (strippedDocument options whole d).toList =
      (d.toList.filter fun p => !Writer.isDropped options p.2).map fun p =>
        (p.1, p.2.stripped options whole) := by
  obtain ⟨entries⟩ := d
  change (strippedEntries options whole entries).1.toList = (entries.toList.filter _).map _
  induction entries with
  | nil => rfl
  | snoc init key v fresh ih =>
    rw [toList_strippedEntries_snoc, ih, Entries.toList_snoc, List.filter_append, List.map_append]
    cases h : Writer.isDropped options v <;> simp [h]

theorem isEmpty_strippedDocument (d : Document) :
    (strippedDocument options whole d).isEmpty =
      d.toList.all fun p => Writer.isDropped options p.2 := by
  rw [OrderedMap.isEmpty_eq, toList_strippedDocument, List.isEmpty_map, Bool.eq_iff_iff,
    List.isEmpty_iff, List.filter_eq_nil_iff, List.all_eq_true]
  simp

theorem losesAll_eq (whole : Bool) (d : Document) :
    losesAll options d = (!d.isEmpty && (strippedDocument options whole d).isEmpty) := by
  rw [losesAll, isEmpty_strippedDocument]

/-- A document that does not lose all its fields is left with some, if it has any. -/
theorem isEmpty_strippedDocument_of_not_losesAll {d : Document} (h : losesAll options d = false) :
    (strippedDocument options whole d).isEmpty = d.isEmpty := by
  cases hempty : d.isEmpty with
  | true =>
    have hlist : d.toList = [] := List.isEmpty_iff.1 (by rw [← OrderedMap.isEmpty_eq, hempty])
    rw [isEmpty_strippedDocument, hlist, List.all_nil]
  | false => rwa [losesAll_eq whole, hempty, Bool.not_false, Bool.true_and] at h

theorem isDropped_stripped (v : Value) :
    Writer.isDropped options (v.stripped options whole) = Writer.isDropped options v := by
  cases v with
  | scopedCode source scope =>
    rw [Value.stripped]
    split <;> rfl
  | _ => rfl

theorem emptiedScopes_of_dropped {v : Value} (h : Writer.isDropped options v) :
    emptiedScopes options v = 0 := by
  cases v <;> first | rfl | cases h

theorem isConvertible_stripped (v : Value) :
    (v.stripped options whole).isConvertible = v.isConvertible := by
  cases v with
  | scopedCode source scope =>
    rw [Value.stripped]
    split <;> rfl
  | _ => rfl

theorem stripped_of_losesAll {source : String} {scope : Document} (h : losesAll options scope) :
    (Value.scopedCode source scope).stripped options false = .scopedCode source scope := by
  rw [Value.stripped, h]
  rfl

theorem stripped_of_not_losesAll {source : String} {scope : Document}
    (h : losesAll options scope = false ∨ whole) :
    (Value.scopedCode source scope).stripped options whole =
      .scopedCode source (strippedDocument options whole scope) := by
  have hkept : (losesAll options scope && !whole) = false := by
    rcases h with h | h <;> simp [h]
  rw [Value.stripped, hkept]
  rfl

end Entries

variable {options : WriteOptions}

mutual

/-- Where no scope would lose all its fields, no scope keeps any that is left out. -/
theorem stripped_eq : ∀ v : Value, emptiedScopes options v = 0 →
    v.stripped options true = v.stripped options false
  | .document d, h => congrArg Value.document (strippedEntries_eq d.entries h)
  | .array list, h => congrArg Value.array (strippedItems_eq list h)
  | .scopedCode source scope, h => by
    rw [emptiedScopes] at h
    split at h
    · cases h
    · rename_i hloses
      rw [stripped_of_not_losesAll (.inr rfl),
        stripped_of_not_losesAll (.inl (Bool.eq_false_iff.2 hloses))]
      exact congrArg (Value.scopedCode source) (strippedEntries_eq scope.entries h)
  | .dbRef collection id database, h => by
    rw [Value.stripped, Value.stripped, stripped_eq id h]
  | .hook token result, h => by
    rw [Value.stripped, Value.stripped, stripped_eq result h]
  | .double _, _ | .boxedDouble _, _ | .int32 _, _ | .long _, _ | .string _, _ | .binary _, _
  | .bytes _, _ | .objectId _, _ | .boolean _, _ | .dateTime _, _ | .null, _ | .undefined, _
  | .regex _, _ | .code _, _ | .function _, _ | .symbol _, _ | .timestamp _, _ | .minKey, _
  | .maxKey, _ | .brokenHook _, _ => rfl

/-- The same of the fields of a document. -/
theorem strippedEntries_eq : ∀ {keys : List String} (entries : Entries Value keys),
    emptiedScopesFields options entries = 0 →
      (strippedEntries options true entries).1 = (strippedEntries options false entries).1
  | _, .nil, _ => rfl
  | _, .snoc init key v fresh, h => by
    obtain ⟨hinit, hv⟩ := Nat.add_eq_zero_iff.1 h
    refine OrderedMap.ext_toList ?_
    rw [toList_strippedEntries_snoc, toList_strippedEntries_snoc, strippedEntries_eq init hinit,
      stripped_eq v hv]

/-- The same of the items of an array. -/
theorem strippedItems_eq : ∀ list : List Value, emptiedScopesItems options list = 0 →
    strippedItems options true list = strippedItems options false list
  | [], _ => rfl
  | v :: rest, h => by
    obtain ⟨hv, hrest⟩ := Nat.add_eq_zero_iff.1 h
    rw [strippedItems, strippedItems, stripped_eq v hv, strippedItems_eq rest hrest]

end

/-! ### Layouts -/

namespace Layout

section Same

mutual

/-- A value is laid out as without the fields that are left out. -/
theorem payload_stripped (hkeys : options.checkKeys = false) : ∀ (v : Value) (depth : Nat),
    payload options depth (v.stripped options false) = payload options depth v
  | .document d, depth =>
    congrArg (frame .document depth) (fields_stripped hkeys d.entries (depth + 1))
  | .array list, depth =>
    congrArg (frame .array depth) (items_stripped hkeys list (depth + 1) 0)
  | .scopedCode source scope, depth => by
    cases hloses : losesAll options scope with
    | true => rw [stripped_of_losesAll hloses]
    | false =>
      rw [stripped_of_not_losesAll (.inl hloses), payload, payload,
        isEmpty_strippedDocument_of_not_losesAll hloses]
      split
      · rfl
      · exact congrArg (frame (codeWithScope source) depth)
          (fields_stripped hkeys scope.entries (depth + 1))
  | .dbRef collection id database, depth => by
    rw [Value.stripped, payload, payload, payload_stripped hkeys id]
  | .hook token result, depth => by
    rw [Value.stripped, payload, payload, isConvertible_stripped, payload_stripped hkeys result]
  | .double _, _ | .boxedDouble _, _ | .int32 _, _ | .long _, _ | .string _, _ | .binary _, _
  | .bytes _, _ | .objectId _, _ | .boolean _, _ | .dateTime _, _ | .null, _ | .undefined, _
  | .regex _, _ | .code _, _ | .function _, _ | .symbol _, _ | .timestamp _, _ | .minKey, _
  | .maxKey, _ | .brokenHook _, _ => rfl

/-- So are fields. -/
theorem fields_stripped (hkeys : options.checkKeys = false) :
    ∀ {keys : List String} (entries : Entries Value keys) (depth : Nat),
      fields options depth (strippedEntries options false entries).1.entries =
        fields options depth entries
  | _, .nil, _ => rfl
  | _, .snoc init key v fresh, depth => by
    have hinit := fields_stripped hkeys init depth
    by_cases hdropped : Writer.isDropped options v
    · rw [strippedEntries_of_dropped init fresh hdropped, hinit, fields,
        checkKey_of_unchecked hkeys]
      simp only [if_pos hdropped]
      cases fields options depth init <;> rfl
    · obtain ⟨_, hkept⟩ := strippedEntries_of_kept false init fresh hdropped
      rw [hkept, fields, fields, hinit, isDropped_stripped, payload_stripped hkeys v]

/-- So are items. -/
theorem items_stripped (hkeys : options.checkKeys = false) :
    ∀ (list : List Value) (depth index : Nat),
      items options depth index (strippedItems options false list) =
        items options depth index list
  | [], _, _ => rfl
  | v :: rest, depth, index => by
    rw [strippedItems, items, items, payload_stripped hkeys v, items_stripped hkeys rest]

end

end Same

/-! ### Lengths -/

/-- What is laid out first takes a number of bytes more than what is laid out then. -/
def LongerBy {α : Type} (bytes : α → List UInt8) (n : Nat) (x y : Except Error α) : Prop :=
  ∀ a, x = .ok a → ∃ b, y = .ok b ∧ (bytes a).length = (bytes b).length + n

theorem LongerBy.frame {make : Int32 → Elements → Payload} {depth n k : Nat}
    (hmake : ∀ es, (make (frameLength es.bytes) es).bytes.length = es.bytes.length + k)
    {body body' : Except Error Elements} (h : LongerBy Elements.bytes n body body') :
    LongerBy Payload.bytes n (frame make depth body) (frame make depth body') := by
  intro p hp
  obtain ⟨hdepth, es, hes, rfl⟩ := frame_eq_ok.1 hp
  obtain ⟨es', hes', hlength⟩ := h es hes
  refine ⟨_, frame_eq_ok.2 ⟨hdepth, es', hes', rfl⟩, ?_⟩
  rw [hmake, hmake]
  omega

/-- Code with a scope that is left with nothing takes nine bytes more than code without one: a total
length, and the length and the end of the scope. -/
theorem payload_longerBy_of_losesAll (hkeys : options.checkKeys = false) {source : String}
    {scope : Document} (hloses : losesAll options scope) (depth : Nat) :
    LongerBy Payload.bytes 9 (payload options depth (.scopedCode source scope))
      (payload options depth (.scopedCode source (strippedDocument options true scope))) := by
  have hparts := fun whole => losesAll_eq whole scope ▸ hloses
  simp only [Bool.and_eq_true, Bool.not_eq_true'] at hparts
  have hempty : strippedDocument options false scope = .empty :=
    OrderedMap.eq_empty_of_isEmpty (hparts false).2
  intro p hp
  rw [payload, (hparts true).1, if_neg Bool.false_ne_true] at hp
  obtain ⟨-, es, hes, rfl⟩ := frame_eq_ok.1 hp
  rw [← fields_stripped hkeys, ← strippedDocument, hempty] at hes
  cases hes
  refine ⟨text .code source, by rw [payload, if_pos (hparts true).2], ?_⟩
  rw [length_codeWithScope]
  exact congrArg (· + 9) (length_enclosed _ (utf8 source)).symm

mutual

/-- Nine bytes are saved for each scope whose fields are all deleted. -/
theorem payload_strippedWhole (hkeys : options.checkKeys = false) : ∀ (v : Value) (depth : Nat),
    LongerBy Payload.bytes (9 * emptiedScopes options v) (payload options depth v)
      (payload options depth (v.stripped options true))
  | .document d, depth => .frame length_document (fields_strippedWhole hkeys d.entries (depth + 1))
  | .array list, depth => .frame length_array (items_strippedWhole hkeys list (depth + 1) 0)
  | .scopedCode source scope, depth => by
    rw [stripped_of_not_losesAll (.inr rfl), emptiedScopes]
    cases hloses : losesAll options scope with
    | true => exact payload_longerBy_of_losesAll hkeys hloses depth
    | false =>
      rw [payload, payload, isEmpty_strippedDocument_of_not_losesAll hloses]
      cases hempty : scope.isEmpty with
      | true =>
        obtain rfl := OrderedMap.eq_empty_of_isEmpty hempty
        exact fun p hp => ⟨p, hp, rfl⟩
      | false =>
        refine .frame (k := (utf8 source).length + 14) (fun es => ?_)
          (fields_strippedWhole hkeys scope.entries (depth + 1))
        rw [length_codeWithScope]
        omega
  | .dbRef collection id database, depth => by
    refine .frame length_document fun es hes => ?_
    obtain ⟨p, hp, hes⟩ := Error.bind_eq_ok.1 hes
    cases hes
    obtain ⟨q, hq, hid⟩ := payload_strippedWhole hkeys id (depth + 1) p hp
    refine ⟨_, Error.bind_eq_ok.2 ⟨q, hq, rfl⟩, ?_⟩
    rw [length_reference collection p, length_reference collection q, hid, emptiedScopes]
    omega
  | .hook token result, depth => by
    rw [Value.stripped, payload, payload, isConvertible_stripped]
    split
    · exact fun _ h => nomatch h
    · exact payload_strippedWhole hkeys result depth
  | .double _, _ | .boxedDouble _, _ | .int32 _, _ | .long _, _ | .string _, _ | .binary _, _
  | .bytes _, _ | .objectId _, _ | .boolean _, _ | .dateTime _, _ | .null, _ | .undefined, _
  | .regex _, _ | .code _, _ | .function _, _ | .symbol _, _ | .timestamp _, _ | .minKey, _
  | .maxKey, _ | .brokenHook _, _ => fun p hp => ⟨p, hp, rfl⟩

/-- The same for the fields of a document. -/
theorem fields_strippedWhole (hkeys : options.checkKeys = false) :
    ∀ {keys : List String} (entries : Entries Value keys) (depth : Nat),
      LongerBy Elements.bytes (9 * emptiedScopesFields options entries)
        (fields options depth entries)
        (fields options depth (strippedEntries options true entries).1.entries)
  | _, .nil, _ => fun es hes => ⟨es, hes, rfl⟩
  | _, .snoc init key v fresh, depth => by
    intro es hes
    obtain ⟨front, hfront, hkey, hes⟩ := fields_snoc_eq_ok.1 hes
    obtain ⟨front', hfront', hinit⟩ := fields_strippedWhole hkeys init depth front hfront
    rw [emptiedScopesFields]
    by_cases hdropped : Writer.isDropped options v
    · rw [if_pos hdropped] at hes
      rw [strippedEntries_of_dropped init fresh hdropped, emptiedScopes_of_dropped hdropped, hes]
      exact ⟨front', hfront', hinit⟩
    · obtain ⟨_, hkept⟩ := strippedEntries_of_kept true init fresh hdropped
      rw [if_neg hdropped] at hes
      obtain ⟨p, hp, rfl⟩ := hes
      obtain ⟨q, hq, hv⟩ := payload_strippedWhole hkeys v depth p hp
      rw [hkept]
      refine ⟨front'.snoc key q, fields_snoc_eq_ok.2 ⟨front', hfront', hkey, ?_⟩, ?_⟩
      · rw [isDropped_stripped, if_neg hdropped]
        exact ⟨q, hq, rfl⟩
      · rw [Elements.bytes_snoc, Elements.bytes_snoc]
        simp only [List.length_append, List.length_cons]
        omega

/-- The same for the items of an array. -/
theorem items_strippedWhole (hkeys : options.checkKeys = false) :
    ∀ (list : List Value) (depth index : Nat),
      LongerBy Elements.bytes (9 * emptiedScopesItems options list)
        (items options depth index list)
        (items options depth index (strippedItems options true list))
  | [], _, _ => fun es hes => ⟨es, hes, rfl⟩
  | v :: rest, depth, index => by
    intro es hes
    obtain ⟨p, hp, tail, htail, rfl⟩ := items_cons_eq_ok.1 hes
    obtain ⟨q, hq, hv⟩ := payload_strippedWhole hkeys v depth p hp
    obtain ⟨tail', htail', hrest⟩ := items_strippedWhole hkeys rest depth (index + 1) tail htail
    refine ⟨_, items_cons_eq_ok.2 ⟨q, hq, tail', htail', rfl⟩, ?_⟩
    rw [bytes_cons, bytes_cons, emptiedScopesItems]
    simp only [List.length_append, List.length_cons]
    omega

end

/-- The tag for code with a scope stands in front of code whose scope has a field, be it left out
or not. -/
theorem tag_eq_scopedCode_iff {v : Value} {depth : Nat} {p : Payload}
    (hv : v.isConvertible = false) (hp : payload options depth v = .ok p) :
    p.tag = .scopedCode ↔ v.hasScope := by
  cases v with
  | scopedCode source scope =>
    rw [payload] at hp
    rw [Value.hasScope]
    split at hp
    · rename_i hempty
      cases hp
      exact ⟨nofun, fun h => by simp [hempty] at h⟩
    · rename_i hscope
      obtain ⟨-, es, -, rfl⟩ := frame_eq_ok.1 hp
      exact ⟨fun _ => by simpa using hscope, fun _ => rfl⟩
  | document _ | array _ | dbRef _ _ _ =>
    obtain ⟨-, es, -, rfl⟩ := frame_eq_ok.1 hp
    exact ⟨nofun, nofun⟩
  | double x =>
    cases hp
    unfold number
    split <;> exact ⟨nofun, nofun⟩
  | binary _ | bytes _ =>
    cases hp
    unfold binary
    dsimp only
    split <;> exact ⟨nofun, nofun⟩
  | hook _ _ | brokenHook _ => cases hv
  | _ =>
    cases hp
    exact ⟨nofun, nofun⟩

end Layout

/-! ### Encodings -/

/-- **Leaving fields out is deleting them first.** With unchecked keys a document is encoded as the
document without the fields that are left out, where a scope that would lose all its fields keeps
them; if there is no such scope, that is the document without any field that is left out, and each
such scope takes nine bytes more than it would if it lost its fields. Code is written with a scope
exactly if the scope has a field, be it left out or not. -/
theorem encode_stripped (d : Document) (options : EncodeOptions)
    (hkeys : options.checkKeys = false) :
    encode d options = encode (strippedDocument options.toWriteOptions false d) options ∧
      (emptiedScopes options.toWriteOptions (.document d) = 0 →
        strippedDocument options.toWriteOptions false d =
          strippedDocument options.toWriteOptions true d) ∧
      (∀ b, encode d options = .ok b →
        ∃ c, encode (strippedDocument options.toWriteOptions true d) options = .ok c ∧
          b.size = c.size + 9 * emptiedScopes options.toWriteOptions (.document d)) ∧
      ∀ (v : Value) (depth : Nat) (p : Payload), v.isConvertible = false →
        Layout.payload options.toWriteOptions depth v = .ok p →
          (p.tag = .scopedCode ↔ v.hasScope) := by
  refine ⟨encode_congr (Layout.payload_stripped hkeys (.document d) 0).symm,
    fun h => (strippedEntries_eq d.entries h).symm, fun b hb => ?_,
    fun v depth p => Layout.tag_eq_scopedCode_iff⟩
  obtain ⟨p, hp, hsize, rfl⟩ := encode_eq_ok.1 hb
  obtain ⟨q, hq, hlength⟩ := Layout.payload_strippedWhole hkeys (.document d) 0 p hp
  refine ⟨_, encode_eq_ok.2 ⟨q, hq, by omega, rfl⟩, ?_⟩
  rw [List.size_toByteArray, List.size_toByteArray, hlength]

/-- A document in which fields are left out of the document, of what a hook returns, and of two
scopes, one of which has no other. -/
def scopesDocument : Document :=
  .ofList [("u", .undefined), ("h", .hook 0 (.document (.ofList [("g", .function "g")]))),
    ("c", .scopedCode "c" (.ofList [("x", .undefined), ("y", .minKey)])),
    ("e", .scopedCode "e" (.ofList [("x", .function "x")]))]

/-- Its second scope takes nine bytes more than if it lost its field. -/
theorem encode_stripped_scopes :
    ({} : EncodeOptions).checkKeys = false ∧
      encode scopesDocument {} = encode (strippedDocument {} false scopesDocument) {} ∧
      (strippedDocument {} false scopesDocument).keys = ["h", "c", "e"] ∧
      emptiedScopes {} (.document scopesDocument) = 1 ∧
      ∃ b c, encode scopesDocument {} = .ok b ∧
        encode (strippedDocument {} true scopesDocument) {} = .ok c ∧ b.size = c.size + 9 * 1 := by
  have hkeys : ({} : EncodeOptions).checkKeys = false := rfl
  have hp : Layout.document {} scopesDocument = .ok (.document 52 (.cons "h" (.document 5 .nil)
      (.cons "c" (.scopedCode 18 2 "c" 8 (.cons "y" .minKey .nil))
        (.cons "e" (.scopedCode 15 2 "e" 5 .nil) .nil)))) := by
    rfl
  obtain ⟨hsame, -, hlength, -⟩ := encode_stripped scopesDocument {} hkeys
  have henc : encode scopesDocument {} = .ok _ := encode_eq_ok.2 ⟨_, hp, by decide, rfl⟩
  obtain ⟨c, hc, hsize⟩ := hlength _ henc
  exact ⟨hkeys, hsame, rfl, rfl, _, c, henc, hc, hsize⟩

/-- Code with a scope in which nothing stands but a field that is left out. -/
def emptiedScopeDocument : Document :=
  .ofList [("c", .scopedCode "f" (.ofList [("u", .undefined)]))]

/-- **A scope that loses all its fields is still written.** Deleting every field that is left out
before a document is encoded does not always give the same bytes: here it gives those of code
without a scope. -/
theorem encode_stripped_emptied :
    encode emptiedScopeDocument {} = .ok [23, 0, 0, 0, 15, 99, 0, 15, 0, 0, 0, 2, 0, 0, 0, 102, 0,
        5, 0, 0, 0, 0, 0].toByteArray ∧
      strippedDocument {} true emptiedScopeDocument = .ofList [("c", .scopedCode "f" .empty)] ∧
      encode (strippedDocument {} true emptiedScopeDocument) {} = .ok [14, 0, 0, 0, 13, 99, 0, 2, 0,
        0, 0, 102, 0, 0].toByteArray ∧
      ¬∀ (d : Document) (options : EncodeOptions), options.checkKeys = false →
        encode d options = encode (strippedDocument options.toWriteOptions true d) options := by
  have hp : Layout.document {} emptiedScopeDocument =
      .ok (.document 23 (.cons "c" (.scopedCode 15 2 "f" 5 .nil) .nil)) := by
    rfl
  have hq : Layout.document {} (strippedDocument {} true emptiedScopeDocument) =
      .ok (.document 14 (.cons "c" (.code 2 "f") .nil)) := by
    rfl
  have henc : encode emptiedScopeDocument {} = .ok _ := encode_eq_ok.2 ⟨_, hp, by decide, rfl⟩
  have henc' : encode (strippedDocument {} true emptiedScopeDocument) {} = .ok _ :=
    encode_eq_ok.2 ⟨_, hq, by decide, rfl⟩
  refine ⟨henc, rfl, henc', fun h => ?_⟩
  have hsize := congrArg ByteArray.size
    (Except.ok.inj (henc.symm.trans ((h emptiedScopeDocument {} rfl).trans henc')))
  exact absurd hsize (by decide)

end Bson
