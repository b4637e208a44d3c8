import Bson.Proofs.ExtendedJson.Wrappers

/-!
# Why JSON is refused

A text that is no JSON is refused as malformed, and what is JSON is refused for other causes only:
each step from JSON to a value names what it has not found.

* `NotMalformed`: something does not fail for a text that is no JSON. `NotMalformed.bind`: steps in
  a row do not if none of them does. There is one lemma for each step, such as
  `wrappedBinary_notMalformed`.
* `toValue_notMalformed`: no value of JSON is refused as malformed.
* `parseDocument_eq_malformed_iff`: a text is refused as malformed exactly if it is no JSON.
-/

namespace Bson

namespace ExtendedJson

/-- Whether something does not fail for a text that is no JSON. -/
def NotMalformed {α : Type} (x : Except Error α) : Prop := x ≠ .error (.invalidJson .malformed)

section Steps

variable {α β : Type}

theorem NotMalformed.bind {x : Except Error α} {f : α → Except Error β} (hx : NotMalformed x)
    (hf : ∀ a, NotMalformed (f a)) : NotMalformed (x >>= f) := by
  cases x with
  | error e => exact fun h => hx (congrArg Except.error (Except.error.inj h))
  | ok a => exact hf a

theorem notMalformed_ok (a : α) : NotMalformed (.ok a) := nofun

theorem expectText_notMalformed (name : String) (v : Json) : NotMalformed (expectText name v) := by
  unfold expectText
  split <;> exact nofun

theorem field_notMalformed (v : Json) (name : String) : NotMalformed (field v name) := by
  unfold field
  split <;> exact nofun

theorem textField_notMalformed (v : Json) (name : String) : NotMalformed (textField v name) :=
  (field_notMalformed v name).bind (expectText_notMalformed name)

theorem expectUInt32_notMalformed (name : String) (v : Json) :
    NotMalformed (expectUInt32 name v) := by
  unfold expectUInt32
  split
  · split <;> exact nofun
  · exact nofun

theorem boundedInteger_notMalformed (wrapper : String) (least greatest : Int) (v : Json) :
    NotMalformed (boundedInteger wrapper least greatest v) := by
  refine (expectText_notMalformed wrapper v).bind fun s => ?_
  split <;> exact nofun

theorem wrappedInt32_notMalformed (v : Json) : NotMalformed (wrappedInt32 v) :=
  (boundedInteger_notMalformed _ _ _ v).bind fun n => notMalformed_ok (Int32.ofInt n)

theorem wrappedInt64_notMalformed (v : Json) : NotMalformed (wrappedInt64 v) :=
  (boundedInteger_notMalformed _ _ _ v).bind fun n => notMalformed_ok (Int64.ofInt n)

theorem wrappedDouble_notMalformed (v : Json) : NotMalformed (wrappedDouble v) := by
  refine (expectText_notMalformed _ v).bind fun s => ?_
  split <;> exact nofun

theorem wrappedObjectId_notMalformed (v : Json) : NotMalformed (wrappedObjectId v) := by
  refine (expectText_notMalformed _ v).bind fun s => ?_
  split <;> exact nofun

theorem wrappedInstant_notMalformed (v : Json) : NotMalformed (wrappedInstant v) := by
  unfold wrappedInstant
  split
  · split <;> exact nofun
  · exact nofun
  · split
    · exact wrappedInt64_notMalformed _
    · exact nofun
  · exact nofun

theorem wrappedBinary_notMalformed (v : Json) : NotMalformed (wrappedBinary v) := by
  refine (textField_notMalformed v _).bind fun base64 => ?_
  refine (textField_notMalformed v _).bind fun subtype => ?_
  split
  · exact nofun
  · split <;> exact nofun

theorem wrappedRegex_notMalformed (v : Json) : NotMalformed (wrappedRegex v) :=
  (textField_notMalformed v _).bind fun _ => (textField_notMalformed v _).bind fun _ =>
    notMalformed_ok _

theorem wrappedTimestamp_notMalformed (v : Json) : NotMalformed (wrappedTimestamp v) :=
  (field_notMalformed v _).bind fun t => (expectUInt32_notMalformed _ t).bind fun _ =>
    (field_notMalformed v _).bind fun i => (expectUInt32_notMalformed _ i).bind fun _ =>
      notMalformed_ok _

/-- A step whose result is only put into a value. -/
theorem NotMalformed.value {x : Except Error α} (hx : NotMalformed x) (f : α → Value) :
    NotMalformed (do return f (← x)) :=
  hx.bind fun a => notMalformed_ok (f a)

theorem unwrap?_notMalformed {key : String} {v : Json} {result : Except Error Value}
    (h : unwrap? key v = some result) : NotMalformed result := by
  rcases mem_wrapperKeys.1 (mem_wrapperKeys_of_unwrap? h) with
    rfl | rfl | rfl | rfl | rfl | rfl | rfl | rfl | rfl | rfl | rfl | rfl <;> cases h
  · exact (wrappedObjectId_notMalformed v).value .objectId
  · exact (wrappedInstant_notMalformed v).value .dateTime
  · exact (wrappedInt32_notMalformed v).value .int32
  · exact (wrappedInt64_notMalformed v).value fun n => .long (.ofInt64 n)
  · exact (wrappedDouble_notMalformed v).value .double
  · exact (wrappedBinary_notMalformed v).value .binary
  · exact (wrappedRegex_notMalformed v).value .regex
  · exact (wrappedTimestamp_notMalformed v).value .timestamp
  · exact (expectText_notMalformed _ v).value .symbol
  · exact notMalformed_ok _
  · exact notMalformed_ok _
  · exact notMalformed_ok _

theorem wrapped?_notMalformed {fields : OrderedMap Json} {result : Except Error Value}
    (h : wrapped? fields = some result) : NotMalformed result := by
  unfold wrapped? at h
  split at h
  · exact unwrap?_notMalformed h
  · cases h

end Steps

mutual

/-- No value of JSON is refused as malformed. -/
theorem toValue_notMalformed : ∀ j : Json, NotMalformed (toValue j)
  | .null | .bool _ | .integer _ | .largeInteger _ | .double _ | .string _ => notMalformed_ok _
  | .array items => by
    rw [toValue]
    exact (toItems_notMalformed items).value .array
  | .object fields => by
    rw [toValue]
    split
    · exact (expectText_notMalformed _ _).bind fun source =>
        (toScope_notMalformed fields.entries).value (codeWith source)
    · split
      · rename_i hwrapped
        exact wrapped?_notMalformed hwrapped
      · exact (toEntries_notMalformed fields.entries).value fun entries =>
          OrderedMap.asReference ⟨entries⟩

theorem toItems_notMalformed : ∀ items : List Json, NotMalformed (toItems items)
  | [] => notMalformed_ok _
  | v :: rest => by
    rw [toItems]
    exact (toValue_notMalformed v).bind fun _ => (toItems_notMalformed rest).bind fun _ =>
      notMalformed_ok _

theorem toEntries_notMalformed : ∀ {keys : List String} (entries : Entries Json keys),
    NotMalformed (toEntries entries)
  | _, .nil => notMalformed_ok _
  | _, .snoc init key v fresh => by
    rw [toEntries]
    exact (toEntries_notMalformed init).bind fun _ => (toValue_notMalformed v).bind fun _ =>
      notMalformed_ok _

theorem toScope_notMalformed : ∀ {keys : List String} (entries : Entries Json keys),
    NotMalformed (toScope entries)
  | _, .nil => notMalformed_ok _
  | _, .snoc init _ (.object scope) _ => by
    unfold toScope
    split
    · exact (toEntries_notMalformed scope.entries).bind fun _ => notMalformed_ok _
    · exact toScope_notMalformed init
  | _, .snoc init _ .null _ | _, .snoc init _ (.bool _) _ | _, .snoc init _ (.integer _) _
  | _, .snoc init _ (.largeInteger _) _ | _, .snoc init _ (.double _) _
  | _, .snoc init _ (.string _) _ | _, .snoc init _ (.array _) _ => by
    unfold toScope
    split
    · exact nofun
    · exact toScope_notMalformed init

end

theorem toDocument_notMalformed (j : Json) : NotMalformed (toDocument j) := by
  unfold toDocument
  split
  · exact (toEntries_notMalformed _).bind fun _ => notMalformed_ok _
  · exact nofun

/-- **Only a text that is no JSON is refused as malformed.** -/
theorem parseDocument_eq_malformed_iff {s : String} :
    parseDocument s = .error (.invalidJson .malformed) ↔ Json.ofText? s = none := by
  unfold parseDocument
  cases Json.ofText? s with
  | none => exact iff_of_true rfl rfl
  | some v => exact iff_of_false (toDocument_notMalformed v) (Option.some_ne_none v)

end ExtendedJson

end Bson
