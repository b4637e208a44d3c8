import Bson.Proofs.Writing.Layout

/-!
# Layouts with fewer faults

A value is laid out in the same way whether its keys are checked or not, and however many frames are
open around it, but for the faults that a check of keys and the limit of nesting add.

* `UpTo F x y`: two outcomes agree, unless the first is one of the faults `F`.
* `Layout.Relaxes`: that a second way to lay out differs from a first only in that it does not meet
  some of the faults `F`.
* `Layout.payload_upTo`: so do then the layouts of a value.
* `Layout.payload_upToKeys`, `Layout.payload_upToNesting`: without a check of keys; with fewer
  frames around the value.
-/

namespace Bson

open Grammar

/-- Two outcomes agree, unless the first is one of some faults. -/
def UpTo {α : Type} (F : Error → Prop) (x y : Except Error α) : Prop :=
  x = y ∨ ∃ e, F e ∧ x = .error e

namespace UpTo

variable {α β : Type} {F : Error → Prop} {x y : Except Error α}

theorem refl (x : Except Error α) : UpTo F x x := .inl rfl

theorem bind {f g : α → Except Error β} (h : UpTo F x y) (hf : ∀ a, UpTo F (f a) (g a)) :
    UpTo F (x >>= f) (y >>= g) := by
  rcases h with rfl | ⟨e, he, rfl⟩
  · cases x with
    | error e => exact .inl rfl
    | ok a => exact hf a
  · exact .inr ⟨e, he, rfl⟩

theorem map (f : α → β) (h : UpTo F x y) : UpTo F (x.map f) (y.map f) := by
  rcases h with rfl | ⟨e, he, rfl⟩
  · exact refl _
  · exact .inr ⟨e, he, rfl⟩

end UpTo

namespace Layout

/-- The second of two ways to lay out meets no faults but those of the first, and not all of those
that are among `F`. -/
structure Relaxes (F : Error → Prop) (options options' : WriteOptions) (depth depth' : Nat) :
    Prop where
  keepFunctions_eq : options.keepFunctions = options'.keepFunctions
  checkKey_upTo : ∀ key, UpTo F (checkKey options key) (checkKey options' key)
  depth_le : depth' ≤ depth
  tooDeep : depth' < depth → F (.nestingTooDeep maxDepth)

namespace Relaxes

variable {F : Error → Prop} {options options' : WriteOptions} {depth depth' : Nat}

/-- One frame further in. -/
theorem inner (h : Relaxes F options options' depth depth') :
    Relaxes F options options' (depth + 1) (depth' + 1) where
  keepFunctions_eq := h.keepFunctions_eq
  checkKey_upTo := h.checkKey_upTo
  depth_le := Nat.succ_le_succ h.depth_le
  tooDeep hlt := h.tooDeep (Nat.lt_of_succ_lt_succ hlt)

theorem isDropped_eq (h : Relaxes F options options' depth depth') (v : Value) :
    Writer.isDropped options v = Writer.isDropped options' v := by
  cases v with
  | function source => exact congrArg (! ·) h.keepFunctions_eq
  | _ => rfl

theorem frame (h : Relaxes F options options' depth depth')
    {make : Int32 → Elements → Payload} {body body' : Except Error Elements}
    (hbody : UpTo F body body') :
    UpTo F (Layout.frame make depth body) (Layout.frame make depth' body') := by
  unfold Layout.frame
  by_cases hdeep : maxDepth ≤ depth
  · by_cases hdeep' : maxDepth ≤ depth'
    · rw [if_pos hdeep, if_pos hdeep']
      exact .refl _
    · -- only the first is too deep
      rw [if_pos hdeep]
      exact .inr ⟨_, h.tooDeep (Nat.lt_of_lt_of_le (Nat.not_le.1 hdeep') hdeep), rfl⟩
  · rw [if_neg hdeep, if_neg fun hdeep' => hdeep (Nat.le_trans hdeep' h.depth_le)]
    exact hbody.bind fun es => .refl _

end Relaxes

section Values

variable {F : Error → Prop} {options options' : WriteOptions}

mutual

/-- A value is laid out in the same way where fewer faults are met. -/
theorem payload_upTo : ∀ (v : Value) {depth depth' : Nat},
    Relaxes F options options' depth depth' →
      UpTo F (payload options depth v) (payload options' depth' v)
  | .double _, _, _, _ | .boxedDouble _, _, _, _ | .int32 _, _, _, _ | .long _, _, _, _
  | .string _, _, _, _ | .binary _, _, _, _ | .bytes _, _, _, _ | .objectId _, _, _, _
  | .boolean _, _, _, _ | .dateTime _, _, _, _ | .null, _, _, _ | .undefined, _, _, _
  | .regex _, _, _, _ | .code _, _, _, _ | .function _, _, _, _ | .symbol _, _, _, _
  | .timestamp _, _, _, _ | .minKey, _, _, _ | .maxKey, _, _, _ | .brokenHook _, _, _, _ => .refl _
  | .document d, _, _, h => h.frame (fields_upTo d.entries h.inner)
  | .array list, _, _, h => h.frame (items_upTo list 0 h.inner)
  | .scopedCode source scope, _, _, h => by
    rw [payload, payload]
    split
    · exact .refl _
    · exact h.frame (fields_upTo scope.entries h.inner)
  | .dbRef collection id database, _, _, h =>
    h.frame ((payload_upTo id h.inner).bind fun p => .refl _)
  | .hook _ result, _, _, h => by
    rw [payload, payload]
    split
    · exact .refl _
    · exact payload_upTo result h

/-- So are fields. -/
theorem fields_upTo : ∀ {keys : List String} (entries : Entries Value keys) {depth depth' : Nat},
    Relaxes F options options' depth depth' →
      UpTo F (fields options depth entries) (fields options' depth' entries)
  | _, .nil, _, _, _ => .refl _
  | _, .snoc init key v _, _, _, h => by
    rw [fields, fields]
    refine (fields_upTo init h).bind fun front => (h.checkKey_upTo key).bind fun _ => ?_
    rw [h.isDropped_eq v]
    split
    · exact .refl _
    · exact (payload_upTo v h).bind fun p => .refl _

/-- So are items. -/
theorem items_upTo : ∀ (list : List Value) (index : Nat) {depth depth' : Nat},
    Relaxes F options options' depth depth' →
      UpTo F (items options depth index list) (items options' depth' index list)
  | [], _, _, _, _ => .refl _
  | v :: rest, index, _, _, h => by
    rw [items, items]
    exact (payload_upTo v h).bind fun p => (items_upTo rest (index + 1) h).bind fun es => .refl _

end

end Values

variable (options : WriteOptions)

/-- The same options without a check of keys. -/
abbrev unchecked : WriteOptions := { options with checkKeys := false }

/-- A check of keys changes nothing of the layout of a value but that keys are refused. -/
theorem payload_upToKeys (v : Value) (depth : Nat) :
    UpTo (fun e => ∃ key fault, e = .keyInvalid key fault) (payload options depth v)
      (payload (unchecked options) depth v) := by
  refine payload_upTo v ⟨rfl, fun key => ?_, Nat.le_refl _, fun h => absurd h (Nat.lt_irrefl _)⟩
  change UpTo _ (if options.checkKeys then Key.check key else .ok ()) (.ok ())
  unfold Key.check
  split
  · split
    · exact .inr ⟨_, ⟨_, _, rfl⟩, rfl⟩
    · exact .refl _
  · exact .refl _

/-- Frames around a value change nothing of its layout but that it is too deep. -/
theorem payload_upToNesting (v : Value) {depth depth' : Nat} (h : depth' ≤ depth) :
    UpTo (· = .nestingTooDeep maxDepth) (payload options depth v) (payload options depth' v) :=
  payload_upTo v ⟨rfl, fun _ => .refl _, h, fun _ => rfl⟩

end Layout

end Bson
