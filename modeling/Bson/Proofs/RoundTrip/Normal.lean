import Bson.Proofs.Grammar.Basic
import Bson.Writer

/-!
# Normal forms

What is left of a value after it has been encoded and decoded.

* `normal`: the normal form of a value. `normalDocument`: that of a document.
* `toList_normalDocument`: the fields that are not left out stay in their order, with the normal
  forms of their values.
* `NulFreeTexts`: texts that a zero byte ends hold no NUL.
-/

namespace Bson

/-- A 64-bit integer as it is read. -/
def normalLong (promote : Bool) (n : Long) : Value := Grammar.int64Value promote n.low n.high

/-- A number as it is written and read. -/
def normalNumber (x : Double) : Value :=
  match x.toInt32? with
  | some n => .int32 n
  | none => .double x

mutual

/-- The normal form of a value. -/
def normal (options : WriteOptions) (promote : Bool) : Value → Value
  | .double x => normalNumber x
  | .boxedDouble x => .double x
  | .int32 n => .int32 n
  | .long n => normalLong promote n
  | .string s => .string s
  | .document d => (OrderedMap.ofList (normalFields options promote d.entries)).asReference
  | .array list => .array (normalItems options promote list)
  | .binary b => .binary b
  | .bytes data => .binary ⟨genericSubtype, data⟩
  | .objectId id => .objectId id
  | .boolean b => .boolean b
  | .dateTime millis => .dateTime millis
  | .null => .null
  | .undefined => .null
  | .regex r => .regex r
  | .code source => .code source
  | .scopedCode source scope =>
    if scope.isEmpty then .code source
    else .scopedCode source (.ofList (normalFields options promote scope.entries))
  | .function source => .code source
  | .symbol s => .symbol s
  | .timestamp t => .timestamp t
  | .minKey => .minKey
  | .maxKey => .maxKey
  | .dbRef collection id database => .dbRef collection (normal options promote id) database
  | .hook _ result => normal options promote result
  -- such a value is not encoded
  | .brokenHook slot => .brokenHook slot

/-- The fields of a document without those that are left out. -/
def normalFields (options : WriteOptions) (promote : Bool) :
    {keys : List String} → Entries Value keys → List (String × Value)
  | _, .nil => []
  | _, .snoc init key v _ =>
    normalFields options promote init ++
      if Writer.isDropped options v then [] else [(key, normal options promote v)]

/-- The items of an array. -/
def normalItems (options : WriteOptions) (promote : Bool) : List Value → List Value
  | [] => []
  | v :: rest => normal options promote v :: normalItems options promote rest

end

/-- The normal form of a document. -/
def normalDocument (options : WriteOptions) (promote : Bool) (d : Document) : Document :=
  .ofList (normalFields options promote d.entries)

variable {options : WriteOptions} {promote : Bool}

theorem normalFields_eq {keys : List String} (entries : Entries Value keys) :
    normalFields options promote entries =
      (entries.toList.filter fun p => !Writer.isDropped options p.2).map fun p =>
        (p.1, normal options promote p.2) := by
  induction entries with
  | nil => rfl
  | snoc init key v _ ih =>
    rw [normalFields, ih, Entries.toList_snoc, List.filter_append, List.map_append]
    cases h : Writer.isDropped options v <;> simp [h]

/-- The fields that are not left out stay in their order. -/
theorem toList_normalDocument (d : Document) :
    (normalDocument options promote d).toList =
      (d.toList.filter fun p => !Writer.isDropped options p.2).map fun p =>
        (p.1, normal options promote p.2) := by
  have hkeys : (normalFields options promote d.entries).map Prod.fst =
      (d.toList.filter fun p => !Writer.isDropped options p.2).map Prod.fst := by
    rw [normalFields_eq, List.map_map]
    rfl
  rw [normalDocument, OrderedMap.toList_ofList, normalFields_eq]
  · rfl
  · rw [hkeys]
    refine (List.filter_sublist.map Prod.fst).nodup ?_
    rw [OrderedMap.map_fst_toList]
    exact d.nodup_keys

/-- So do their keys. -/
theorem keys_normalDocument (d : Document) :
    (normalDocument options promote d).keys =
      (d.toList.filter fun p => !Writer.isDropped options p.2).map Prod.fst := by
  rw [← OrderedMap.map_fst_toList, toList_normalDocument, List.map_map]
  rfl

/-- Under a key stands the normal form of what stood there, if that is not left out. -/
theorem get?_normalDocument (d : Document) (key : String) :
    (normalDocument options promote d).get? key =
      ((d.get? key).filter fun v => !Writer.isDropped options v).map (normal options promote) := by
  refine Option.ext fun w => ?_
  rw [← OrderedMap.mem_toList_iff, toList_normalDocument, Option.map_eq_some_iff, List.mem_map]
  simp only [Option.filter_eq_some_iff, List.mem_filter]
  constructor
  · rintro ⟨⟨k, v⟩, ⟨hv, hkept⟩, h⟩
    cases h
    exact ⟨v, ⟨OrderedMap.mem_toList_iff.1 hv, hkept⟩, rfl⟩
  · rintro ⟨v, ⟨hv, hkept⟩, rfl⟩
    exact ⟨(key, v), ⟨OrderedMap.mem_toList_iff.2 hv, hkept⟩, rfl⟩

theorem normalItems_eq (list : List Value) :
    normalItems options promote list = list.map (normal options promote) := by
  induction list with
  | nil => rfl
  | cons v rest ih => rw [normalItems, ih, List.map_cons]

/-! ### Texts without NUL -/

mutual

/-- Whether no pattern of a regular expression in a value holds a NUL and, unless keys are checked,
no key of a document. -/
def NulFreeTexts (checked : Bool) : Value → Prop
  | .document d => NulFreeFields checked d.entries
  | .array list => NulFreeItems checked list
  | .regex r => '\x00' ∉ r.pattern.toList
  | .scopedCode _ scope => NulFreeFields checked scope.entries
  | .dbRef _ id _ => NulFreeTexts checked id
  | .hook _ result => NulFreeTexts checked result
  | _ => True

/-- The same of the fields of a document. -/
def NulFreeFields (checked : Bool) : {keys : List String} → Entries Value keys → Prop
  | _, .nil => True
  | _, .snoc init key v _ =>
    NulFreeFields checked init ∧ (checked ∨ '\x00' ∉ key.toList) ∧ NulFreeTexts checked v

/-- The same of the items of an array. -/
def NulFreeItems (checked : Bool) : List Value → Prop
  | [] => True
  | v :: rest => NulFreeTexts checked v ∧ NulFreeItems checked rest

end

theorem nulFreeFields_iff {checked : Bool} {keys : List String} (entries : Entries Value keys) :
    NulFreeFields checked entries ↔ ∀ q ∈ entries.toList,
      (checked ∨ '\x00' ∉ q.1.toList) ∧ NulFreeTexts checked q.2 := by
  induction entries with
  | nil => exact ⟨fun _ _ h => absurd h List.not_mem_nil, fun _ => trivial⟩
  | snoc init key v fresh ih => rw [NulFreeFields, ih, Entries.forall_mem_toList_snoc]

mutual

/-- Texts without any NUL hold none where none is allowed. -/
theorem NulFreeTexts.checked {checked : Bool} : ∀ v : Value,
    NulFreeTexts false v → NulFreeTexts checked v
  | .document d, h => NulFreeTexts.checkedFields d.entries h
  | .array list, h => NulFreeTexts.checkedItems list h
  | .scopedCode _ scope, h => NulFreeTexts.checkedFields scope.entries h
  | .dbRef _ id _, h => NulFreeTexts.checked id h
  | .hook _ result, h => NulFreeTexts.checked result h
  | .regex _, h => h
  | .double _, _ | .boxedDouble _, _ | .int32 _, _ | .long _, _ | .string _, _ | .binary _, _
  | .bytes _, _ | .objectId _, _ | .boolean _, _ | .dateTime _, _ | .null, _ | .undefined, _
  | .code _, _ | .function _, _ | .symbol _, _ | .timestamp _, _ | .minKey, _ | .maxKey, _
  | .brokenHook _, _ => trivial

theorem NulFreeTexts.checkedFields {checked : Bool} :
    ∀ {keys : List String} (entries : Entries Value keys),
      NulFreeFields false entries → NulFreeFields checked entries
  | _, .nil, _ => trivial
  | _, .snoc init _ v _, h =>
    ⟨NulFreeTexts.checkedFields init h.1, .inr (h.2.1.resolve_left Bool.false_ne_true),
      NulFreeTexts.checked v h.2.2⟩

theorem NulFreeTexts.checkedItems {checked : Bool} : ∀ list : List Value,
    NulFreeItems false list → NulFreeItems checked list
  | [], _ => trivial
  | v :: rest, h => ⟨NulFreeTexts.checked v h.1, NulFreeTexts.checkedItems rest h.2⟩

end

end Bson
