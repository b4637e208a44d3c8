import Bson.Proofs.Writing.Encode

/-!
# What a check of keys changes

A check of keys refuses documents and changes no encoding. The keys that are checked are those of
documents, wherever a document stands, also of fields that are left out; the indices of arrays and
the keys of references are not checked. The key that is refused is the first that breaks the rule,
in the order in which keys are met.

* `Key.Allowed`: the rule for keys. `Key.fault?_eq_none_iff`: it is the one that is checked.
* `keysMet`: the keys of the documents in a value, in the order in which they are met.
* `Checked`: how an outcome with checked keys differs from one without. The rules `Checked.bind` and
  `Checked.frame` follow the way in which layouts are put together.
* `Layout.payload_checked`: so do the layouts of a value differ.
* `encode_checked`: the statement about encodings.
-/

namespace Bson

open Grammar

namespace Key

/-- Whether a key is empty, or holds no NUL and no dot and does not start with a dollar sign. -/
def Allowed (key : String) : Prop :=
  key = "" ∨ '\x00' ∉ key.toList ∧ '.' ∉ key.toList ∧ key.toList.head? ≠ some '$'

instance (key : String) : Decidable (Allowed key) := inferInstanceAs (Decidable (_ ∨ _))

theorem fault?_eq_none_iff {key : String} : fault? key = none ↔ Allowed key := by
  unfold fault? Allowed
  constructor
  · intro h
    by_cases hnul : '\x00' ∈ key.toList
    · simp [hnul] at h
    · by_cases hdollar : key.toList.head? = some '$'
      · simp [hnul, hdollar] at h
      · by_cases hdot : '.' ∈ key.toList
        · simp [hnul, hdollar, hdot] at h
        · exact .inr ⟨hnul, hdot, hdollar⟩
  · rintro (rfl | ⟨hnul, hdot, hdollar⟩)
    · rfl
    · simp [hnul, hdot, hdollar]

end Key

mutual

/-- The keys of the documents in a value, in the order in which they are met: a field's own key
comes before those in its value. What a hook returns is not looked into if it has a hook itself. -/
def keysMet : Value → List String
  | .document d => keysMetFields d.entries
  | .array list => keysMetItems list
  | .scopedCode _ scope => keysMetFields scope.entries
  | .dbRef _ id _ => keysMet id
  | .hook _ result => if result.isConvertible then [] else keysMet result
  | _ => []

/-- The same of the fields of a document, with their own keys. -/
def keysMetFields : {keys : List String} → Entries Value keys → List String
  | _, .nil => []
  | _, .snoc init key v _ => keysMetFields init ++ ([key] ++ keysMet v)

/-- The same of the items of an array. -/
def keysMetItems : List Value → List String
  | [] => []
  | v :: rest => keysMet v ++ keysMetItems rest

end

/-! ### Outcomes with checked keys -/

/-- How the outcome of steps that check keys differs from that of steps that do not, if the steps
meet given keys: it is the same, and then a success has met allowed keys only, or it is the refusal
of the first key that is not allowed. -/
inductive Checked {α : Type} (keys : List String) (unchecked : Except Error α) :
    Except Error α → Prop
  | passed {a : α} (same : unchecked = .ok a) (allowed : ∀ key ∈ keys, Key.Allowed key) :
    Checked keys unchecked (.ok a)
  | refused {key : String} {fault : KeyFault} (first : keys.find? (¬Key.Allowed ·) = some key)
    (hfault : Key.fault? key = some fault) : Checked keys unchecked (.error (.keyInvalid key fault))
  | failed {e : Error} (same : unchecked = .error e)
    (other : ∀ key fault, e ≠ .keyInvalid key fault) : Checked keys unchecked (.error e)

namespace Checked

variable {α β : Type} {keys keys' : List String} {x y : Except Error α}

theorem pure (a : α) : Checked [] (.ok a) (.ok a) := .passed rfl nofun

theorem bind {f g : α → Except Error β} (h : Checked keys y x)
    (hf : ∀ a, Checked keys' (g a) (f a)) : Checked (keys ++ keys') (y >>= g) (x >>= f) := by
  cases h with
  | @passed a same allowed =>
    have hnone : keys.find? (¬Key.Allowed ·) = none := by simpa using allowed
    have hfa := hf a
    subst same
    change Checked _ (g a) (f a)
    generalize f a = z at hfa ⊢
    cases hfa with
    | passed same allowed' =>
      refine .passed same fun key hkey => ?_
      exact (List.mem_append.1 hkey).elim (allowed key) (allowed' key)
    | refused first hfault =>
      exact .refused (by rw [List.find?_append, hnone, Option.none_or, first]) hfault
    | failed same other => exact .failed same other
  | refused first hfault =>
    exact .refused (by rw [List.find?_append, first, Option.some_or]) hfault
  | failed same other =>
    subst same
    exact .failed rfl other

/-- Steps that meet no key. -/
theorem andThen {f : α → Except Error β} (h : Checked keys y x)
    (hf : ∀ a, Checked [] (f a) (f a)) : Checked keys (y >>= f) (x >>= f) := by
  have hbind := h.bind hf
  rwa [List.append_nil] at hbind

theorem map (f : α → β) (h : Checked keys y x) :
    Checked keys (do return f (← y)) (do return f (← x)) :=
  h.andThen fun a => .pure (f a)

/-- The keys in a frame that is too deep are not met. -/
theorem frame {make : Int32 → Elements → Payload} {body body' : Except Error Elements}
    (depth : Nat) (h : Checked keys body' body) :
    Checked keys (Layout.frame make depth body') (Layout.frame make depth body) := by
  unfold Layout.frame
  split
  · exact .failed rfl nofun
  · exact h.map _

end Checked

namespace Layout

variable (options : WriteOptions)

/-- A key of a document is met when it is checked. -/
theorem checkKey_checked (key : String) :
    Checked [key] (checkKey { options with checkKeys := false } key)
      (checkKey { options with checkKeys := true } key) := by
  change Checked [key] (.ok ()) (Key.check key)
  unfold Key.check
  cases hfault : Key.fault? key with
  | none =>
    refine .passed rfl fun k hk => ?_
    rw [List.mem_singleton.1 hk]
    exact Key.fault?_eq_none_iff.1 hfault
  | some fault =>
    have hkey : ¬Key.Allowed key := fun h => by
      rw [Key.fault?_eq_none_iff.2 h] at hfault
      cases hfault
    exact .refused (by simp [hkey]) hfault

mutual

/-- With checked keys a value is laid out as without, or its first key that is not allowed is
refused. -/
theorem payload_checked : ∀ (v : Value) (depth : Nat),
    Checked (keysMet v) (payload { options with checkKeys := false } depth v)
      (payload { options with checkKeys := true } depth v)
  | .document d, depth => .frame depth (fields_checked d.entries (depth + 1))
  | .array list, depth => .frame depth (items_checked list (depth + 1) 0)
  | .scopedCode source scope, depth => by
    rw [payload, payload, keysMet]
    cases hempty : scope.isEmpty with
    | true =>
      obtain rfl := OrderedMap.eq_empty_of_isEmpty hempty
      exact .pure _
    | false => exact .frame depth (fields_checked scope.entries (depth + 1))
  | .dbRef _ id _, depth => .frame depth ((payload_checked id (depth + 1)).map _)
  | .hook _ result, depth => by
    rw [payload, payload, keysMet]
    split
    · exact .failed rfl nofun
    · exact payload_checked result depth
  | .brokenHook _, _ => .failed rfl nofun
  | .double _, _ | .boxedDouble _, _ | .int32 _, _ | .long _, _ | .string _, _ | .binary _, _
  | .bytes _, _ | .objectId _, _ | .boolean _, _ | .dateTime _, _ | .null, _ | .undefined, _
  | .regex _, _ | .code _, _ | .function _, _ | .symbol _, _ | .timestamp _, _ | .minKey, _
  | .maxKey, _ => .pure _

/-- The same of the fields of a document. -/
theorem fields_checked : ∀ {keys : List String} (entries : Entries Value keys) (depth : Nat),
    Checked (keysMetFields entries) (fields { options with checkKeys := false } depth entries)
      (fields { options with checkKeys := true } depth entries)
  | _, .nil, _ => .pure _
  | _, .snoc init key v _, depth => by
    rw [fields, fields, keysMetFields]
    refine (fields_checked init depth).bind fun front => (checkKey_checked options key).bind
      fun _ => ?_
    have hsame : Writer.isDropped { options with checkKeys := true } v =
      Writer.isDropped { options with checkKeys := false } v := rfl
    rw [hsame]
    split
    · rename_i hdropped
      cases v with
      | undefined | function _ => exact .pure front
      | _ => cases hdropped
    · exact (payload_checked v depth).map _

/-- The same of the items of an array, whose indices are not checked. -/
theorem items_checked : ∀ (list : List Value) (depth index : Nat),
    Checked (keysMetItems list) (items { options with checkKeys := false } depth index list)
      (items { options with checkKeys := true } depth index list)
  | [], _, _ => .pure _
  | v :: rest, depth, index => by
    rw [items, items, keysMetItems]
    exact (payload_checked v depth).bind fun p => (items_checked rest depth (index + 1)).map _

end

end Layout

/-! ### Encodings -/

theorem encode_checkedKeys (d : Document) (options : EncodeOptions) :
    Checked (keysMet (.document d)) (encode d { options with checkKeys := false })
      (encode d { options with checkKeys := true }) := by
  rw [encode_eq, encode_eq]
  refine (Layout.payload_checked options.toWriteOptions (.document d) 0).andThen fun p => ?_
  split
  · exact .pure _
  · exact .failed rfl nofun

/-- **A check of keys only refuses.** A document is encoded with checked keys exactly if it is
without, to the same bytes, and all keys of documents in it are allowed. A key that is refused is
the first among them that is not, with what is wrong with it; every other fault is that without a
check. -/
theorem encode_checked (d : Document) (options : EncodeOptions) :
    (∀ b, encode d { options with checkKeys := true } = .ok b ↔
      encode d { options with checkKeys := false } = .ok b ∧
        ∀ key ∈ keysMet (.document d), Key.Allowed key) ∧
      (∀ key fault, encode d { options with checkKeys := true } = .error (.keyInvalid key fault) →
        (keysMet (.document d)).find? (¬Key.Allowed ·) = some key ∧
          Key.fault? key = some fault) ∧
      ∀ e, (∀ key fault, e ≠ .keyInvalid key fault) →
        encode d { options with checkKeys := true } = .error e →
          encode d { options with checkKeys := false } = .error e := by
  have h := encode_checkedKeys d options
  generalize encode d { options with checkKeys := true } = x at h
  generalize encode d { options with checkKeys := false } = y at h
  refine ⟨fun b => ?_, fun key fault hx => ?_, fun e he hx => ?_⟩
  · constructor
    · rintro rfl
      cases h with
      | passed same allowed => exact ⟨same, allowed⟩
    · rintro ⟨rfl, allowed⟩
      cases h with
      | passed same _ => exact same.symm
      | refused first _ =>
        have hkey := List.find?_some first
        exact absurd (allowed _ (List.mem_of_find?_eq_some first)) (by simpa using hkey)
      | failed same _ => cases same
  · subst hx
    cases h with
    | refused first hfault => exact ⟨first, hfault⟩
    | failed _ other => exact absurd rfl (other key fault)
  · subst hx
    cases h with
    | refused _ _ => exact absurd rfl (he _ _)
    | failed same _ => exact same

/-- A document with an array and a reference, whose own keys are not checked, and the keys of a
document in each of them. -/
def plainKeysDocument : Document :=
  .ofList [("a", .array [.document (.ofList [("", .null)])]),
    ("r", .dbRef "t" (.hook 0 (.document (.ofList [("k", .int32 1)]))) (some "s"))]

/-- A document in which a key of a field that is left out breaks the rule, and two keys that come
later. -/
def faultyKeysDocument : Document :=
  .ofList [("a", .array [.null, .document (.ofList [("$u", .undefined)])]),
    ("c", .scopedCode "f" (.ofList [("x\x00", .null)])), ("b.c", .null)]

/-- A document whose hook cannot be called stands before a key that breaks the rule. -/
def faultyHookDocument : Document := .ofList [("h", .brokenHook .null), ("$", .null)]

/-- The first is encoded whether its keys are checked or not; of the keys of the second the first
that breaks the rule is refused; the hook of the third is refused before its key. -/
theorem encode_checked_nested :
    (∃ b, encode plainKeysDocument { checkKeys := true } = .ok b ∧
      encode plainKeysDocument { checkKeys := false } = .ok b ∧
        ∀ key ∈ ["a", "", "r", "k"], Key.Allowed key) ∧
      (encode faultyKeysDocument { checkKeys := true } =
          .error (.keyInvalid "$u" .startsWithDollar) ∧
        ["a", "$u", "c", "x\x00", "b.c"].find? (¬Key.Allowed ·) = some "$u") ∧
      encode faultyHookDocument { checkKeys := true } =
          .error (.hookInvalid (.notCallable .null)) ∧
        encode faultyHookDocument { checkKeys := false } =
          .error (.hookInvalid (.notCallable .null)) := by
  have hp : Layout.document { checkKeys := true } plainKeysDocument = .ok (.document 71
      (.cons "a" (.array 15 (.cons "0" (.document 7 (.cons "" .null .nil)) .nil))
        (.cons "r" (.document 45 (.cons "$ref" (.string 2 "t") (.cons "$id"
          (.document 12 (.cons "k" (.int32 1) .nil))
            (.cons "$db" (.string 2 "s") .nil)))) .nil))) := by
    rfl
  have hplain : encode plainKeysDocument { checkKeys := true } = .ok _ :=
    encode_eq_ok.2 ⟨_, hp, by decide, rfl⟩
  have hfaulty : encode faultyKeysDocument { checkKeys := true } =
      .error (.keyInvalid "$u" .startsWithDollar) := by
    rw [encode_eq]
    rfl
  have hhook : encode faultyHookDocument { checkKeys := true } =
      .error (.hookInvalid (.notCallable .null)) := by
    rw [encode_eq]
    rfl
  obtain ⟨hsame, hallowed⟩ := ((encode_checked plainKeysDocument {}).1 _).1 hplain
  exact ⟨⟨_, hplain, hsame, hallowed⟩,
    ⟨hfaulty, ((encode_checked faultyKeysDocument {}).2.1 _ _ hfaulty).1⟩,
    hhook, (encode_checked faultyHookDocument {}).2.2 _ nofun hhook⟩

end Bson
