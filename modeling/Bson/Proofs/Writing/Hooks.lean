import Bson.Proofs.RoundTrip.Nesting
import Bson.Proofs.Value.Equality
import Bson.Proofs.Writing.Faults

/-!
# Conversion hooks

A value that converts itself is encoded as the value that its hook returns. What is returned stands
where no field can be left out any more, so an undefined value is written as null there, and a
function as code.

* `Value.resolved`: a value with the results of its hooks in their place. `resolvedDocument`: the
  same of a document.
* `Layout.payload_resolved`: it is laid out in the same way.
* `hookFree_resolved`: if all hooks give a value to write, no hook is left.
* `Tells`, `faults_tell`: a hook that gives none is among the faults, or is not met because of
  another fault.
* `hooks_transparent`: the statement about encodings.
-/

namespace Bson

open Grammar

/-- What stands for a value that a hook returned: it is written, whether it is a field or not. -/
def Value.kept : Value → Value
  | .undefined => .null
  | .function source => .code source
  | v => v

mutual

/-- A value with the results of hooks in place of the values that convert themselves. A hook that
gives no value to write stays. -/
def Value.resolved : Value → Value
  | .document d => .document ⟨resolvedEntries d.entries⟩
  | .array list => .array (resolvedItems list)
  | .scopedCode source scope => .scopedCode source ⟨resolvedEntries scope.entries⟩
  | .dbRef collection id database => .dbRef collection id.resolved database
  | .hook token result =>
    if result.isConvertible then .hook token result else result.resolved.kept
  | v => v

/-- Fields with resolved values, under the same keys. -/
def resolvedEntries : {keys : List String} → Entries Value keys → Entries Value keys
  | _, .nil => .nil
  | _, .snoc init key v fresh => .snoc (resolvedEntries init) key v.resolved fresh

/-- Items resolved one by one. -/
def resolvedItems : List Value → List Value
  | [] => []
  | v :: rest => v.resolved :: resolvedItems rest

end

/-- A document with resolved values, under the same keys in the same order. -/
def resolvedDocument (d : Document) : Document := d.map fun _ v => v.resolved

theorem resolvedEntries_eq {keys : List String} (entries : Entries Value keys) :
    resolvedEntries entries = entries.map fun _ v => v.resolved := by
  induction entries with
  | nil => rfl
  | snoc init key v fresh ih => rw [resolvedEntries, ih, Entries.map]

theorem resolved_document (d : Document) :
    (Value.document d).resolved = .document (resolvedDocument d) := by
  rw [Value.resolved, resolvedEntries_eq]
  rfl

variable {options : WriteOptions}

theorem isDropped_kept (v : Value) : Writer.isDropped options v.kept = false := by
  cases v <;> rfl

/-- A field is left out with a hook's result in it if it is without. -/
theorem isDropped_resolved (v : Value) :
    Writer.isDropped options v.resolved = Writer.isDropped options v := by
  cases v with
  | hook token result =>
    rw [Value.resolved]
    split
    · rfl
    · exact isDropped_kept _
  | _ => rfl

/-! ### Layouts -/

namespace Layout

theorem payload_kept (v : Value) (depth : Nat) :
    payload options depth v.kept = payload options depth v := by
  cases v <;> rfl

mutual

/-- A value is laid out as the value with the results of its hooks. -/
theorem payload_resolved : ∀ (v : Value) (depth : Nat),
    payload options depth v.resolved = payload options depth v
  | .document d, depth =>
    congrArg (frame .document depth) (fields_resolved d.entries (depth + 1))
  | .array list, depth => congrArg (frame .array depth) (items_resolved list (depth + 1) 0)
  | .scopedCode source scope, depth =>
    congrArg (fun body => if scope.isEmpty then .ok (text .code source)
      else frame (codeWithScope source) depth body) (fields_resolved scope.entries (depth + 1))
  | .dbRef collection id database, depth => by
    rw [Value.resolved, payload, payload, payload_resolved id]
  | .hook token result, depth => by
    rw [Value.resolved]
    split
    · rfl
    · rename_i hresult
      rw [payload_kept, payload_resolved result, payload, if_neg hresult]
  | .double _, _ | .boxedDouble _, _ | .int32 _, _ | .long _, _ | .string _, _ | .binary _, _
  | .bytes _, _ | .objectId _, _ | .boolean _, _ | .dateTime _, _ | .null, _ | .undefined, _
  | .regex _, _ | .code _, _ | .function _, _ | .symbol _, _ | .timestamp _, _ | .minKey, _
  | .maxKey, _ | .brokenHook _, _ => rfl

/-- So are fields. -/
theorem fields_resolved : ∀ {keys : List String} (entries : Entries Value keys) (depth : Nat),
    fields options depth (resolvedEntries entries) = fields options depth entries
  | _, .nil, _ => rfl
  | _, .snoc init key v _, depth => by
    rw [resolvedEntries, fields, fields, fields_resolved init, isDropped_resolved,
      payload_resolved v]

/-- So are items. -/
theorem items_resolved : ∀ (list : List Value) (depth index : Nat),
    items options depth index (resolvedItems list) = items options depth index list
  | [], _, _ => rfl
  | v :: rest, depth, index => by
    rw [resolvedItems, items, items, payload_resolved v, items_resolved rest]

end

end Layout

/-! ### Hooks that give a value -/

theorem hookFree_kept {v : Value} (h : v.HookFree) : v.kept.HookFree := by
  cases v with
  | undefined | function _ => trivial
  | _ => exact h

mutual

/-- If all hooks give a value to write, none is left when they are resolved. -/
theorem hookFree_resolved : ∀ v : Value, HooksReturn v → v.resolved.HookFree
  | .document d, h => hookFreeFields_resolved d.entries h
  | .array list, h => hookFreeItems_resolved list h
  | .scopedCode _ scope, h => hookFreeFields_resolved scope.entries h
  | .dbRef _ id _, h => hookFree_resolved id h
  | .hook _ result, h => by
    rw [Value.resolved, if_neg h.1]
    exact hookFree_kept (hookFree_resolved result h.2)
  | .brokenHook _, h => h.elim
  | .double _, _ | .boxedDouble _, _ | .int32 _, _ | .long _, _ | .string _, _ | .binary _, _
  | .bytes _, _ | .objectId _, _ | .boolean _, _ | .dateTime _, _ | .null, _ | .undefined, _
  | .regex _, _ | .code _, _ | .function _, _ | .symbol _, _ | .timestamp _, _ | .minKey, _
  | .maxKey, _ => trivial

/-- The same of the fields of a document. -/
theorem hookFreeFields_resolved : ∀ {keys : List String} (entries : Entries Value keys),
    HooksReturnFields entries → Value.HookFreeFields (resolvedEntries entries)
  | _, .nil, _ => trivial
  | _, .snoc init _ v _, h => ⟨hookFreeFields_resolved init h.1, hookFree_resolved v h.2⟩

/-- The same of the items of an array. -/
theorem hookFreeItems_resolved : ∀ list : List Value,
    HooksReturnItems list → Value.HookFreeItems (resolvedItems list)
  | [], _ => trivial
  | v :: rest, h => ⟨hookFree_resolved v h.1, hookFreeItems_resolved rest h.2⟩

end

/-! ### Hooks that give none -/

/-- Faults tell whether hooks give a value to write: if they do, no fault is one of a hook, and
without any fault they do. -/
structure Tells (es : List Error) (returns : Prop) : Prop where
  not_mem : returns → ∀ fault, Error.hookInvalid fault ∉ es
  of_nil : es = [] → returns

namespace Tells

variable {es es' : List Error} {P Q : Prop}

theorem nil (h : P) : Tells [] P := ⟨fun _ _ => List.not_mem_nil, fun _ => h⟩

theorem append (h : Tells es P) (h' : Tells es' Q) : Tells (es ++ es') (P ∧ Q) where
  not_mem hpq fault hmem := (List.mem_append.1 hmem).elim (h.not_mem hpq.1 fault)
    (h'.not_mem hpq.2 fault)
  of_nil hnil := ⟨h.of_nil (List.append_eq_nil_iff.1 hnil).1,
    h'.of_nil (List.append_eq_nil_iff.1 hnil).2⟩

theorem frame (depth : Nat) (h : Tells es P) : Tells (frameFaults depth es) P := by
  unfold frameFaults
  split
  · exact ⟨fun _ fault hmem => by simp at hmem, nofun⟩
  · exact h

/-- A fault of a key tells nothing of hooks. -/
theorem key (key : String) (h : Tells es P) : Tells (keyFaults options key ++ es) P := by
  rcases keyFaults_cases options key with hkey | ⟨fault, hkey⟩
  · rwa [hkey]
  · rw [hkey]
    exact ⟨fun hp fault hmem => h.not_mem hp fault (by simpa using hmem), nofun⟩

end Tells

mutual

/-- The faults of a value tell whether its hooks give a value to write. -/
theorem faults_tell : ∀ (v : Value) (depth : Nat), Tells (faults options depth v) (HooksReturn v)
  | .document d, depth => .frame depth (faultsFields_tell d.entries (depth + 1))
  | .array list, depth => .frame depth (faultsItems_tell list (depth + 1))
  | .scopedCode _ scope, depth => by
    rw [faults]
    cases hempty : scope.isEmpty with
    | true =>
      obtain rfl := OrderedMap.eq_empty_of_isEmpty hempty
      exact .nil trivial
    | false => exact .frame depth (faultsFields_tell scope.entries (depth + 1))
  | .dbRef _ id _, depth => .frame depth (faults_tell id (depth + 1))
  | .hook _ result, depth => by
    rw [faults, HooksReturn]
    split
    · rename_i hresult
      exact ⟨fun h => absurd hresult h.1, nofun⟩
    · rename_i hresult
      have h := faults_tell result depth
      exact ⟨fun hr => h.not_mem hr.2, fun hnil => ⟨hresult, h.of_nil hnil⟩⟩
  | .brokenHook _, _ => ⟨False.elim, nofun⟩
  | .double _, _ | .boxedDouble _, _ | .int32 _, _ | .long _, _ | .string _, _ | .binary _, _
  | .bytes _, _ | .objectId _, _ | .boolean _, _ | .dateTime _, _ | .null, _ | .undefined, _
  | .regex _, _ | .code _, _ | .function _, _ | .symbol _, _ | .timestamp _, _ | .minKey, _
  | .maxKey, _ => .nil trivial

/-- So do those of fields. -/
theorem faultsFields_tell : ∀ {keys : List String} (entries : Entries Value keys) (depth : Nat),
    Tells (faultsFields options depth entries) (HooksReturnFields entries)
  | _, .nil, _ => .nil trivial
  | _, .snoc init key v _, depth =>
    (faultsFields_tell init depth).append ((faults_tell v depth).key key)

/-- So do those of items. -/
theorem faultsItems_tell : ∀ (list : List Value) (depth : Nat),
    Tells (faultsItems options depth list) (HooksReturnItems list)
  | [], _ => .nil trivial
  | v :: rest, depth => (faults_tell v depth).append (faultsItems_tell rest depth)

end

/-! ### Encodings -/

/-- **Hooks are transparent.** A document is encoded as the document with the results of its hooks
in their place, where an undefined result is null and a function is code, and in which no hook is
left if each gives a value to write. A document without any other fault is refused for a hook
exactly if a hook cannot be called or returns a value that has a hook itself. -/
theorem hooks_transparent (d : Document) (options : EncodeOptions) :
    encode d options = encode (resolvedDocument d) options ∧
      (HooksReturn (.document d) → (Value.document (resolvedDocument d)).HookFree) ∧
      ((∀ e ∈ faults options.toWriteOptions 0 (.document d), ∃ fault, e = .hookInvalid fault) →
        ((∃ fault, encode d options = .error (.hookInvalid fault)) ↔
          ¬HooksReturn (.document d))) := by
  have htell : Tells (faults options.toWriteOptions 0 (.document d)) _ :=
    faults_tell (.document d) 0
  refine ⟨?_, fun h => ?_, fun hother => ⟨?_, fun hnot => ?_⟩⟩
  · have hlayout : Layout.payload options.toWriteOptions 0 (Value.document d).resolved = _ :=
      Layout.payload_resolved (.document d) 0
    rw [resolved_document] at hlayout
    exact encode_congr hlayout.symm
  · rw [← resolved_document]
    exact hookFree_resolved (.document d) h
  · rintro ⟨fault, henc⟩ h
    have hhead := (encode_eq_fault_iff d options (e := .hookInvalid fault) trivial).1 henc
    exact htell.not_mem h fault (List.mem_of_mem_head? hhead)
  · cases hfaults : faults options.toWriteOptions 0 (.document d) with
    | nil => exact absurd (htell.of_nil hfaults) hnot
    | cons e rest =>
      obtain ⟨fault, rfl⟩ := hother e (hfaults ▸ List.mem_cons_self)
      refine ⟨fault, (encode_eq_fault_iff d options (e := .hookInvalid fault) trivial).2 ?_⟩
      rw [hfaults]
      rfl

/-- A document with hooks in an array, in a reference and in what a hook returns; they return a
function, an undefined value and a document with one more hook and a field that is left out. -/
def hookedDocument : Document :=
  .ofList [("a", .array [.hook 0 (.function "f")]), ("r", .dbRef "t" (.hook 1 .undefined) none),
    ("h", .hook 2 (.document (.ofList [("i", .hook 3 (.int32 5)), ("u", .undefined)])))]

/-- A document with a hook that returns a hook, before one that cannot be called. -/
def chainedDocument : Document :=
  .ofList [("c", .array [.hook 0 (.hook 1 .null)]), ("b", .brokenHook (.int32 1))]

/-- The first is encoded as a document without hooks; the second has no faults but those of its two
hooks, and is refused for the first of them. -/
theorem hooks_transparent_mixed :
    (HooksReturn (.document hookedDocument) ∧
      resolvedDocument hookedDocument = .ofList [("a", .array [.code "f"]),
        ("r", .dbRef "t" .null none),
        ("h", .document (.ofList [("i", .int32 5), ("u", .undefined)]))] ∧
      encode hookedDocument {} = encode (resolvedDocument hookedDocument) {} ∧
      (Value.document (resolvedDocument hookedDocument)).HookFree) ∧
    faults {} 0 (.document chainedDocument) =
      [.hookInvalid .returnedHook, .hookInvalid (.notCallable .int32)] ∧
    ¬HooksReturn (.document chainedDocument) ∧
      ∃ fault, encode chainedDocument {} = .error (.hookInvalid fault) := by
  have hreturn : HooksReturn (.document hookedDocument) :=
    ⟨⟨⟨trivial, ⟨Bool.false_ne_true, trivial⟩, trivial⟩, Bool.false_ne_true, trivial⟩,
      Bool.false_ne_true, ⟨trivial, Bool.false_ne_true, trivial⟩, trivial⟩
  have hfaults : faults {} 0 (.document chainedDocument) =
      [.hookInvalid .returnedHook, .hookInvalid (.notCallable .int32)] := by
    rfl
  have hother : ∀ e ∈ faults {} 0 (.document chainedDocument), ∃ fault, e = .hookInvalid fault := by
    simp [hfaults]
  have hnot : ¬HooksReturn (.document chainedDocument) := fun h => h.2
  obtain ⟨hsame, hfree, -⟩ := hooks_transparent hookedDocument {}
  exact ⟨⟨hreturn, rfl, hsame, hfree hreturn⟩, hfaults, hnot,
    ((hooks_transparent chainedDocument {}).2.2 hother).2 hnot⟩

end Bson
