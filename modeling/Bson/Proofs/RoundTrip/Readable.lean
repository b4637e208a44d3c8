import Bson.Proofs.Grammar.Basic

/-!
# What reading gives

Of all values only some are read: none that is left out when it is written, none that is written as
something else and read as that, no document with the fields of a reference.

* `Readable`: such a value, with a bound on the frames that are nested in it. `ReadableFields`,
  `ReadableItems`: the same of fields and items.
* `OrderedMap.asReference_readable`: fields that were read become a document or a reference.
* `Payload.value_readable`: what a payload stands for is readable if texts that a zero byte ends
  hold none.
-/

namespace Bson

open Grammar

/-! ### Readable values -/

mutual

/-- Whether a value can be what was read, with at most `levels` frames nested in it. -/
def Readable (promote : Bool) : Nat → Value → Prop
  | _, .boxedDouble _ | _, .bytes _ | _, .undefined | _, .function _ | _, .hook _ _
  | _, .brokenHook _ => False
  | _, .long n => int64Value promote n.low n.high = .long n
  | _, .regex r => NulFree r.pattern
  | levels, .document d =>
    0 < levels ∧ d.reference? = none ∧ ReadableFields promote (levels - 1) d.entries
  | levels, .array list => 0 < levels ∧ ReadableItems promote (levels - 1) list
  | levels, .scopedCode _ scope => 0 < levels ∧ ReadableFields promote (levels - 1) scope.entries
  | levels, .dbRef _ id _ => 0 < levels ∧ Readable promote (levels - 1) id
  | _, _ => True

/-- The same of the fields of a document. -/
def ReadableFields (promote : Bool) (levels : Nat) :
    {keys : List String} → Entries Value keys → Prop
  | _, .nil => True
  | _, .snoc init key v _ =>
    ReadableFields promote levels init ∧ NulFree key ∧ Readable promote levels v

/-- The same of the items of an array, in which places that were passed over are undefined. -/
def ReadableItems (promote : Bool) (levels : Nat) : List Value → Prop
  | [] => True
  | v :: rest =>
    (v = .undefined ∨ Readable promote levels v) ∧ ReadableItems promote levels rest

end

variable {promote : Bool} {levels : Nat}

theorem readableFields_iff {keys : List String} (entries : Entries Value keys) :
    ReadableFields promote levels entries ↔
      ∀ q ∈ entries.toList, NulFree q.1 ∧ Readable promote levels q.2 := by
  induction entries with
  | nil => exact ⟨fun _ _ h => absurd h List.not_mem_nil, fun _ => trivial⟩
  | snoc init key v fresh ih => rw [ReadableFields, ih, Entries.forall_mem_toList_snoc]

theorem readableItems_iff (list : List Value) :
    ReadableItems promote levels list ↔ ∀ v ∈ list, v = .undefined ∨ Readable promote levels v := by
  induction list with
  | nil => exact ⟨fun _ _ h => absurd h List.not_mem_nil, fun _ => trivial⟩
  | cons v rest ih => rw [ReadableItems, ih, List.forall_mem_cons]

/-- Storing a field that was read. -/
theorem ReadableFields.insert {d : Document} (h : ReadableFields promote levels d.entries)
    {key : String} (hkey : NulFree key) {v : Value} (hv : Readable promote levels v) :
    ReadableFields promote levels (d.insert key v).entries :=
  (readableFields_iff _).2
    (OrderedMap.forall_mem_toList_insert ((readableFields_iff _).1 h) ⟨hkey, hv⟩)

/-- An item of a list with a value placed in it was there, was passed over or is that value. -/
theorem Grammar.mem_placed {vs : List Value} {n : Nat} {v w : Value} (h : w ∈ placed vs n v) :
    w ∈ vs ∨ w = .undefined ∨ w = v := by
  unfold placed at h
  split at h
  · exact (List.mem_or_eq_of_mem_set h).imp_right .inr
  · rcases List.mem_append.1 h with h | h
    · exact .inl h
    · exact .inr ((List.mem_append.1 h).imp List.eq_of_mem_replicate List.mem_singleton.1)

/-- Placing an item that was read. -/
theorem ReadableItems.placed {vs : List Value} (h : ReadableItems promote levels vs) (n : Nat)
    {v : Value} (hv : Readable promote levels v) :
    ReadableItems promote levels (placed vs n v) := by
  rw [readableItems_iff] at h ⊢
  intro w hw
  rcases mem_placed hw with hold | hgap | rfl
  · exact h w hold
  · exact .inl hgap
  · exact .inr hv

/-- Fields that were read become a document, or a reference whose id was read. -/
theorem OrderedMap.asReference_readable {d : Document}
    (h : ReadableFields promote levels d.entries) :
    Readable promote (levels + 1) d.asReference := by
  rcases d.asReference_cases with ⟨hnone, href⟩ | ⟨_, id, _, href, -, hid, -⟩
  · rw [href]
    exact ⟨Nat.succ_pos _, hnone, h⟩
  · rw [href]
    exact ⟨Nat.succ_pos _,
      ((readableFields_iff _).1 h (idKey, id) (OrderedMap.mem_toList_of_get? hid)).2⟩

theorem int64Value_readable (low high : Int32) :
    Readable promote levels (int64Value promote low high) := by
  by_cases hsafe : promote ∧ (Long.mk low high).toInt64.toInt.natAbs < 2 ^ 53
  · rw [int64Value, if_pos hsafe]
    trivial
  · have hlong : int64Value promote low high = .long ⟨low, high⟩ := if_neg hsafe
    rw [hlong]
    exact hlong

/-! ### Payloads -/

mutual

/-- What a clean payload stands for is readable. -/
theorem Grammar.Payload.value_readable : ∀ (p : Payload) {levels : Nat}, p.Clean →
    p.depth ≤ levels → Readable promote levels (p.value promote)
  | .double _, _, _, _ | .string _ _, _, _, _ | .binary _ _ _, _, _, _
  | .oldBinary _ _ _, _, _, _ | .undefined, _, _, _ | .objectId _, _, _, _
  | .boolean _, _, _, _ | .dateTime _, _, _, _ | .null, _, _, _ | .code _ _, _, _, _
  | .symbol _ _, _, _, _ | .int32 _, _, _, _ | .timestamp _ _, _, _, _ | .maxKey, _, _, _
  | .minKey, _, _, _ => trivial
  | .regex _ _, _, hc, _ => hc.1
  | .int64 low high, _, _, _ => int64Value_readable low high
  | .document _ fields, _ + 1, hc, hd =>
    OrderedMap.asReference_readable
      (fields.document_readable (d := .empty) hc (Nat.le_of_succ_le_succ hd) trivial)
  | .array _ items, _ + 1, hc, hd =>
    ⟨Nat.succ_pos _, items.items_readable hc.1 (Nat.le_of_succ_le_succ hd) trivial⟩
  | .scopedCode _ _ _ _ scope, _ + 1, hc, hd =>
    ⟨Nat.succ_pos _,
      scope.document_readable (d := .empty) hc (Nat.le_of_succ_le_succ hd) trivial⟩

/-- So are the fields that clean elements stand for. -/
theorem Grammar.Elements.document_readable : ∀ (es : Elements) {levels : Nat} {d : Document},
    es.Clean → es.depth ≤ levels → ReadableFields promote levels d.entries →
      ReadableFields promote levels (es.document promote d).entries
  | .nil, _, _, _, _, h => h
  | .cons _ p rest, _, _, hc, hd, h =>
    rest.document_readable hc.2.2 (Nat.le_trans (Nat.le_max_right _ _) hd)
      (h.insert hc.1 (p.value_readable hc.2.1 (Nat.le_trans (Nat.le_max_left _ _) hd)))

/-- And the items. -/
theorem Grammar.Elements.items_readable : ∀ (es : Elements) {levels : Nat} {vs : List Value},
    es.Clean → es.depth ≤ levels → ReadableItems promote levels vs →
      ReadableItems promote levels (es.items promote vs)
  | .nil, _, _, _, _, h => h
  | .cons _ p rest, _, _, hc, hd, h =>
    rest.items_readable hc.2.2 (Nat.le_trans (Nat.le_max_right _ _) hd)
      (h.placed _ (p.value_readable hc.2.1 (Nat.le_trans (Nat.le_max_left _ _) hd)))

end

end Bson
