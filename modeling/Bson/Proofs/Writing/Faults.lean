import Bson.Proofs.Writing.Encode

/-!
# The faults of a document

All the reasons for which a document has no layout, in the order in which they are met. Encoding
reports the first of them, whatever the greatest size is.

* `faults`: the faults of a value. `faultsFields`, `faultsItems`: those of fields and items.
* `Reports`: an outcome reports the first of some faults. The rules `Reports.bind` and
  `Reports.frame` follow the way in which layouts are put together.
* `Layout.payload_reports`: so does the layout of a value.
* `encode_eq_fault_iff`: the statement about encodings.
-/

namespace Bson

open Grammar

/-- The fault of a key, if keys are checked and it has one. -/
def keyFaults (options : WriteOptions) (key : String) : List Error :=
  match Layout.checkKey options key with
  | .ok _ => []
  | .error e => [e]

/-- The faults of a frame with given faults in it, which are not met if the frame is not opened. -/
def frameFaults (depth : Nat) (inner : List Error) : List Error :=
  if maxDepth ≤ depth then [.nestingTooDeep maxDepth] else inner

mutual

/-- The faults of a value with a number of frames open around it, in the order in which they are
met: in each field its key comes first. -/
def faults (options : WriteOptions) (depth : Nat) : Value → List Error
  | .document d => frameFaults depth (faultsFields options (depth + 1) d.entries)
  | .array list => frameFaults depth (faultsItems options (depth + 1) list)
  | .scopedCode _ scope =>
    if scope.isEmpty then [] else frameFaults depth (faultsFields options (depth + 1) scope.entries)
  | .dbRef _ id _ => frameFaults depth (faults options (depth + 1) id)
  | .hook _ result =>
    if result.isConvertible then [.hookInvalid .returnedHook] else faults options depth result
  | .brokenHook slot => [.hookInvalid (.notCallable slot.kind)]
  | _ => []

/-- The faults of the fields of a document, those of the keys of fields that are left out
included. -/
def faultsFields (options : WriteOptions) (depth : Nat) :
    {keys : List String} → Entries Value keys → List Error
  | _, .nil => []
  | _, .snoc init key v _ =>
    faultsFields options depth init ++ (keyFaults options key ++ faults options depth v)

/-- The faults of the items of an array. -/
def faultsItems (options : WriteOptions) (depth : Nat) : List Value → List Error
  | [] => []
  | v :: rest => faults options depth v ++ faultsItems options depth rest

end

theorem keyFaults_cases (options : WriteOptions) (key : String) :
    keyFaults options key = [] ∨ ∃ fault, keyFaults options key = [.keyInvalid key fault] := by
  unfold keyFaults Layout.checkKey Key.check
  cases options.checkKeys with
  | false => exact .inl rfl
  | true =>
    cases Key.fault? key with
    | none => exact .inl rfl
    | some fault => exact .inr ⟨fault, rfl⟩

theorem faults_of_dropped {options : WriteOptions} {v : Value} (h : Writer.isDropped options v)
    (depth : Nat) : faults options depth v = [] := by
  cases v <;> first | rfl | cases h

/-! ### Reported faults -/

/-- An outcome reports the first of some faults, and is a success exactly if there is none. -/
inductive Reports {α : Type} (es : List Error) : Except Error α → Prop
  | none {a : α} (empty : es = []) : Reports es (.ok a)
  | first {e : Error} (head : es.head? = some e) : Reports es (.error e)

namespace Reports

variable {α β : Type} {es es' : List Error} {x : Except Error α}

theorem bind {f : α → Except Error β} (h : Reports es x) (hf : ∀ a, Reports es' (f a)) :
    Reports (es ++ es') (x >>= f) := by
  cases h with
  | @none a empty =>
    rw [empty]
    exact hf a
  | first head => exact .first (by rw [List.head?_append, head, Option.some_or])

theorem map (f : α → β) (h : Reports es x) : Reports es (do return f (← x)) := by
  have hbind := h.bind fun a => Reports.none (a := f a) rfl
  rwa [List.append_nil] at hbind

theorem frame {make : Int32 → Elements → Payload} {body : Except Error Elements} (depth : Nat)
    (h : Reports es body) : Reports (frameFaults depth es) (Layout.frame make depth body) := by
  unfold Layout.frame frameFaults
  split
  · exact .first rfl
  · exact h.map _

theorem eq_error_iff {e : Error} (h : Reports es x) : x = .error e ↔ es.head? = some e := by
  cases h with
  | none empty => simp [empty]
  | first head => simp [head]

end Reports

namespace Layout

variable (options : WriteOptions)

theorem checkKey_reports (key : String) :
    Reports (keyFaults options key) (checkKey options key) := by
  unfold keyFaults
  cases checkKey options key with
  | ok _ => exact .none rfl
  | error _ => exact .first rfl

mutual

/-- The layout of a value reports the first of its faults. -/
theorem payload_reports : ∀ (v : Value) (depth : Nat),
    Reports (faults options depth v) (payload options depth v)
  | .document d, depth => .frame depth (fields_reports d.entries (depth + 1))
  | .array list, depth => .frame depth (items_reports list (depth + 1) 0)
  | .scopedCode source scope, depth => by
    rw [payload, faults]
    split
    · exact .none rfl
    · exact .frame depth (fields_reports scope.entries (depth + 1))
  | .dbRef _ id _, depth => .frame depth ((payload_reports id (depth + 1)).map _)
  | .hook _ result, depth => by
    rw [payload, faults]
    split
    · exact .first rfl
    · exact payload_reports result depth
  | .brokenHook _, _ => .first rfl
  | .double _, _ | .boxedDouble _, _ | .int32 _, _ | .long _, _ | .string _, _ | .binary _, _
  | .bytes _, _ | .objectId _, _ | .boolean _, _ | .dateTime _, _ | .null, _ | .undefined, _
  | .regex _, _ | .code _, _ | .function _, _ | .symbol _, _ | .timestamp _, _ | .minKey, _
  | .maxKey, _ => .none rfl

/-- So does that of fields. -/
theorem fields_reports : ∀ {keys : List String} (entries : Entries Value keys) (depth : Nat),
    Reports (faultsFields options depth entries) (fields options depth entries)
  | _, .nil, _ => .none rfl
  | _, .snoc init key v _, depth => by
    rw [fields, faultsFields]
    refine (fields_reports init depth).bind fun front => (checkKey_reports options key).bind
      fun _ => ?_
    split
    · rename_i hdropped
      exact .none (faults_of_dropped hdropped depth)
    · exact (payload_reports v depth).map _

/-- So does that of items. -/
theorem items_reports : ∀ (list : List Value) (depth index : Nat),
    Reports (faultsItems options depth list) (items options depth index list)
  | [], _, _ => .none rfl
  | v :: rest, depth, index => by
    rw [items, faultsItems]
    exact (payload_reports v depth).bind fun p => (items_reports rest depth (index + 1)).map _

end

end Layout

/-! ### Encodings -/

variable (d : Document) (options : EncodeOptions)

/-- A fault is reported by an encoding exactly if it is the first, however few bytes are allowed. -/
theorem encode_eq_fault_iff {e : Error} (he : Layout.IsFault e) :
    encode d options = .error e ↔
      (faults options.toWriteOptions 0 (.document d)).head? = some e := by
  rw [encode_eq, ← (Layout.payload_reports options.toWriteOptions (.document d) 0).eq_error_iff]
  change _ ↔ Layout.document options.toWriteOptions d = .error e
  cases Layout.document options.toWriteOptions d with
  | error e' =>
    exact ⟨fun h => congrArg _ (Except.error.inj h), fun h => congrArg _ (Except.error.inj h)⟩
  | ok p =>
    refine ⟨fun h => ?_, fun h => nomatch h⟩
    change (if p.bytes.length ≤ options.maxSize then _ else _) = _ at h
    split at h
    · cases h
    · cases h
      exact he.elim

end Bson
