import Bson.Codec
import Bson.Proofs.Reading.Bounds

/-!
# Promotion of safe integers

Reading with promotion is reading without it and then promoting what was read: the same inputs are
refused for the same reasons, and of the values only the safe 64-bit integers differ.

* `Value.promoted`: a value with numbers in place of its safe integers. `promotedDocument`: the same
  of the fields of a document.
* `Cursor.Changes`: steps that do what others do and give their result changed. The rules
  `Changes.bind`, `Changes.pure`, … follow the way in which steps are put together.
* `Frame.payload_changes`: payloads, by induction on the number of frames that may be opened.
* `decode_promoted`: the statement about decoded documents.
-/

namespace Bson

/-! ### Promoted values -/

mutual

/-- A value with numbers in place of the safe 64-bit integers in it. What a hook stands for is left
alone, since no hook is read. -/
def Value.promoted : Value → Value
  | .long n =>
    if -safeIntegerBound < n.toInt64.toInt ∧ n.toInt64.toInt < safeIntegerBound then
      .double (.ofInt n.toInt64.toInt)
    else .long n
  | .document d => .document ⟨promotedEntries d.entries⟩
  | .array items => .array (promotedItems items)
  | .scopedCode source scope => .scopedCode source ⟨promotedEntries scope.entries⟩
  | .dbRef collection id database => .dbRef collection id.promoted database
  | v => v

/-- Fields with promoted values, under the same keys. -/
def promotedEntries : {keys : List String} → Entries Value keys → Entries Value keys
  | _, .nil => .nil
  | _, .snoc init key v fresh => .snoc (promotedEntries init) key v.promoted fresh

/-- Items promoted one by one. -/
def promotedItems : List Value → List Value
  | [] => []
  | v :: rest => v.promoted :: promotedItems rest

end

/-- A document with promoted values, under the same keys in the same order. -/
def promotedDocument (d : Document) : Document := d.map fun _ v => v.promoted

theorem promotedEntries_eq {keys : List String} (entries : Entries Value keys) :
    promotedEntries entries = entries.map fun _ v => v.promoted := by
  induction entries with
  | nil => rfl
  | snoc init key v fresh ih => rw [promotedEntries, ih, Entries.map]

theorem promotedItems_eq (items : List Value) : promotedItems items = items.map Value.promoted := by
  induction items with
  | nil => rfl
  | cons v rest ih => rw [promotedItems, ih, List.map_cons]

theorem promoted_document (d : Document) :
    (Value.document d).promoted = .document (promotedDocument d) := by
  rw [Value.promoted, promotedEntries_eq]
  rfl

theorem promoted_array (items : List Value) :
    (Value.array items).promoted = .array (items.map Value.promoted) := by
  rw [Value.promoted, promotedItems_eq]

theorem promoted_scopedCode (source : String) (scope : Document) :
    (Value.scopedCode source scope).promoted = .scopedCode source (promotedDocument scope) := by
  rw [Value.promoted, promotedEntries_eq]
  rfl

/-- Texts stay texts, and nothing else becomes one. -/
theorem asString?_promoted (v : Value) : v.promoted.asString? = v.asString? := by
  cases v with
  | long n =>
    rw [Value.promoted]
    split <;> rfl
  | _ => rfl

/-- A document stands for a reference before and after its values are promoted. -/
theorem asReference_promotedDocument (d : Document) :
    (promotedDocument d).asReference = d.asReference.promoted := by
  have hfields : d.Rel (fun v w => w = v.promoted) (promotedDocument d) :=
    .of_get?_eq_map (fun key => OrderedMap.get?_map _ d key) fun _ _ _ => rfl
  unfold OrderedMap.asReference
  rcases OrderedMap.reference?_rel (fun _ v w _ _ h => (h ▸ asString?_promoted v).symm) hfields with
    ⟨hd, he⟩ | ⟨collection, id, id', database, hd, he, rfl⟩
  · rw [hd, he]
    exact (promoted_document d).symm
  · rw [hd, he]
    rfl

/-! ### Steps -/

namespace Cursor

variable {α β γ δ : Type}

/-- The steps `m'` do what the steps `m` do, and give the result of `m` changed by `g`. -/
def Changes (g : α → β) (m : Cursor α) (m' : Cursor β) : Prop := m' = g <$> m

namespace Changes

variable {g : α → β} {h : γ → δ} {m : Cursor α} {m' : Cursor β} {f : α → Cursor γ}
  {f' : β → Cursor δ}

theorem refl (m : Cursor α) : Changes id m m := (id_map m).symm

theorem bind (hm : Changes g m m') (hf : ∀ a, Changes h (f a) (f' (g a))) :
    Changes h (m >>= f) (m' >>= f') := by
  rw [Changes, hm, map_bind, bind_map_left]
  exact congrArg (m >>= ·) (funext hf)

theorem pure {a : α} {b : β} (hb : b = g a) : Changes g (pure a) (pure b) := by
  rw [hb, Changes, map_pure]

theorem throw (e : Error) : Changes g (throw e : Cursor α) (throw e) := rfl

theorem lift {x : Except Error α} {y : Except Error β} (hy : y = x.map g) :
    Changes g (liftM x) (liftM y) := by
  rw [hy]
  cases x <;> rfl

/-- Steps after one that is the same on both sides. -/
theorem step {m : Cursor α} {f : α → Cursor γ} {f' : α → Cursor δ}
    (hf : ∀ a, Changes h (f a) (f' a)) : Changes h (m >>= f) (m >>= f') :=
  (refl m).bind hf

/-- A result that is made of what was read. -/
theorem map {f : α → γ} {f' : β → δ} (hm : Changes g m m') (hf : ∀ a, f' (g a) = h (f a)) :
    Changes h (do return f (← m)) (do return f' (← m')) :=
  hm.bind fun a => .pure (hf a)

/-- The same refusal under the same condition. -/
theorem guard {c : Prop} [Decidable c] {e : Error} {f : PUnit → Cursor γ} {f' : PUnit → Cursor δ}
    (hf : Changes h (f ⟨⟩) (f' ⟨⟩)) :
    Changes h (if c then (MonadExcept.throw e : Cursor PUnit) >>= f else f ⟨⟩)
      (if c then (MonadExcept.throw e : Cursor PUnit) >>= f' else f' ⟨⟩) := by
  split
  · rfl
  · exact hf

/-- What the changed steps give. -/
theorem map_fst (hm : Changes g m m') (pos : Nat) :
    (m' pos).map (·.1) = ((m pos).map (·.1)).map g := by
  rw [Changes] at hm
  rw [hm]
  change (Except.bind (m pos) fun p => .ok (g p.1, p.2)).map _ = _
  cases m pos <;> rfl

end Changes

end Cursor

/-! ### Frames and loops -/

namespace Frame

open Cursor

variable {α β : Type} {g : α → β} {r : Region}

theorem framed_changes {body : Region → Cursor α} {body' : Region → Cursor β}
    (hb : ∀ r, Changes g (body r) (body' r)) : Changes g (framed body r) (framed body' r) :=
  .step fun _ => (hb _).bind fun _ => .step fun _ => .step fun _ => .pure rfl

theorem round_changes {step : Cursor α} {step' : Cursor β} (hs : Changes g step step') :
    Changes g (round r step) (round r step') :=
  .step fun _ => hs.bind fun _ => .step fun _ => .guard (.pure rfl)

theorem rounds_changes {step : α → Cursor α} {step' : β → Cursor β}
    (hs : ∀ a, Changes g (step a) (step' (g a))) (n : Nat) (a : α) :
    Changes g (rounds r step n a) (rounds r step' n (g a)) := by
  induction n generalizing a with
  | zero =>
    refine .step fun offset => ?_
    split
    · exact .throw _
    · exact .pure rfl
  | succ n ih =>
    refine .step fun offset => ?_
    split
    · exact (round_changes (hs a)).bind ih
    · exact .pure rfl

theorem elements_changes {step : α → Cursor α} {step' : β → Cursor β}
    (hs : ∀ a, Changes g (step a) (step' (g a))) (a : α) :
    Changes g (elements r step a) (elements r step' (g a)) :=
  .step fun _ => (rounds_changes hs _ a).bind fun _ => .step fun _ => .guard (.pure rfl)

/-! ### Payloads -/

/-- A reader of payloads gives the values of another promoted. -/
def PayloadChanges (payload payload' : PayloadReader) : Prop :=
  ∀ r tag, Changes Value.promoted (payload r tag) (payload' r tag)

section Elements

variable {payload payload' : PayloadReader}

theorem element_changes {κ : Type} (key : String → Except Error κ)
    (hp : PayloadChanges payload payload') :
    Changes (fun p => (p.1, p.2.promoted)) (element payload key r) (element payload' key r) := by
  refine .step fun tagAt => .step fun tagByte => .step fun s => .step fun k => ?_
  cases Tag.ofByte? tagByte with
  | none => exact .throw _
  | some tag => exact .map (hp r tag) fun _ => rfl

theorem field_changes (hp : PayloadChanges payload payload') (d : Document) :
    Changes promotedDocument (field payload r d) (field payload' r (promotedDocument d)) :=
  .map (element_changes .ok hp) fun p => (OrderedMap.map_insert _ d p.1 p.2).symm

theorem fields_changes (hp : PayloadChanges payload payload') :
    Changes promotedDocument (fields payload r) (fields payload' r) :=
  elements_changes (field_changes hp) .empty

/-- A promoted value is placed among promoted items, and places that are passed over stay
undefined. -/
theorem place_promoted (all : Array Value) (key : String) (n : Nat) (v : Value) (bytesLeft : Nat) :
    place (all.map Value.promoted) key n v.promoted bytesLeft =
      (place all key n v bytesLeft).map (Array.map Value.promoted) := by
  have hsize : (all.map Value.promoted).size = all.size := Array.size_map
  unfold place
  by_cases hn : n < all.size
  · rw [dif_pos (hsize ▸ hn), dif_pos hn]
    exact congrArg Except.ok Array.map_set.symm
  · rw [dif_neg (hsize ▸ hn), dif_neg hn, hsize]
    cases minus n all.size with
    | error e => rfl
    | ok gap =>
      change (if bytesLeft < gap then _ else _ : Except Error (Array Value)) =
        Except.map _ (if bytesLeft < gap then _ else _)
      split
      · rfl
      · change Except.ok _ = Except.ok _
        rw [Array.map_push, Array.map_append, Array.map_replicate]
        rfl

theorem item_changes (hp : PayloadChanges payload payload') (all : Array Value) :
    Changes (Array.map Value.promoted) (item payload r all)
      (item payload' r (all.map Value.promoted)) :=
  (element_changes index hp).bind fun ⟨(key, n), v⟩ => .step fun _ =>
    .lift (place_promoted all key n v _)

theorem items_changes (hp : PayloadChanges payload payload') :
    Changes (List.map Value.promoted) (items payload r) (items payload' r) := by
  have hall := elements_changes (r := r) (item_changes (r := r) hp) #[]
  rw [Array.map_empty] at hall
  exact .bind hall fun _ => .pure Array.toList_map

end Elements

theorem int64Value_changes :
    Changes Value.promoted (int64Value false r) (int64Value true r) := by
  refine .step fun low => .step fun high => ?_
  by_cases hsafe : -safeIntegerBound < (Long.mk low high).toInt64.toInt ∧
      (Long.mk low high).toInt64.toInt < safeIntegerBound
  · rw [if_neg fun h => Bool.false_ne_true h.1, if_pos ⟨rfl, hsafe⟩]
    exact .pure (if_pos hsafe).symm
  · rw [if_neg fun h => hsafe h.2, if_neg fun h => hsafe h.2]
    exact .pure (if_neg hsafe).symm

theorem scopedCode_changes {document document' : Region → Cursor Document}
    (hd : ∀ r, Changes promotedDocument (document r) (document' r)) :
    Changes Value.promoted (scopedCode document r) (scopedCode document' r) :=
  .step fun _ => .step fun _ => .step fun source => (hd r).bind fun scope =>
    .step fun _ => .step fun _ => .guard (.pure (promoted_scopedCode source scope).symm)

/-- A payload that holds no other and is no 64-bit integer is read alike. -/
theorem leaf_changes {m : Cursor α} {make : α → Value} (h : ∀ a, (make a).promoted = make a) :
    Changes Value.promoted (do return make (← m)) (do return make (← m)) :=
  .map (.refl m) fun a => (h a).symm

theorem payloadWith_changes {document document' : Region → Cursor Document}
    {array array' : Region → Cursor (List Value)}
    (hd : ∀ r, Changes promotedDocument (document r) (document' r))
    (ha : ∀ r, Changes (List.map Value.promoted) (array r) (array' r)) :
    PayloadChanges (payloadWith false document array) (payloadWith true document' array') := by
  intro r tag
  cases tag with
  | document => exact .map (hd r) asReference_promotedDocument
  | array => exact .map (ha r) fun items => (promoted_array items).symm
  | scopedCode => exact scopedCode_changes hd
  | int64 => exact int64Value_changes
  | regex => exact .step fun _ => leaf_changes fun _ => rfl
  | timestamp => exact .step fun _ => leaf_changes fun _ => rfl
  | undefined | null | maxKey | minKey => exact .pure rfl
  | double | string | binary | objectId | boolean | dateTime | code | symbol | int32 =>
    exact leaf_changes fun _ => rfl

/-- However deep the frames in it may nest, a payload is read as its promoted value. -/
theorem payload_changes (levels : Nat) :
    PayloadChanges (payload false levels) (payload true levels) := by
  induction levels with
  | zero => exact payloadWith_changes (fun _ => .throw _) fun _ => .throw _
  | succ levels ih =>
    exact payloadWith_changes (fun _ => framed_changes fun _ => fields_changes ih)
      fun _ => framed_changes fun _ => items_changes ih

theorem document_changes (levels : Nat) (r : Region) :
    Changes promotedDocument (document false levels r) (document true levels r) := by
  cases levels with
  | zero => exact .throw _
  | succ levels => exact framed_changes fun _ => fields_changes (payload_changes levels)

end Frame

/-! ### Whole inputs -/

/-- Decoding with promotion is decoding without it and promoting the document. -/
theorem decode_eq_map_promoted (b : ByteArray) :
    decode b { promoteLongs := true } =
      (decode b { promoteLongs := false }).map promotedDocument := by
  unfold decode
  by_cases hsize : b.size < minDocumentSize
  · rw [if_pos hsize, if_pos hsize]
    rfl
  · rw [if_neg hsize, if_neg hsize]
    have hpos : 0 < b.size := by
      rw [minDocumentSize] at hsize
      omega
    rw [Reader.ofBytes_eq true hpos, Reader.ofBytes_eq false hpos]
    split
    · exact (Frame.document_changes maxDepth ⟨b, b.size - 1⟩).map_fst 0
    · rfl

/-- **Promotion changes nothing but safe integers**: an input is refused with promotion for the
reason for which it is refused without. A document that is read with promotion is the one that is
read without, with `Value.promoted` applied under each of its keys. -/
theorem decode_promoted (b : ByteArray) :
    decode b { promoteLongs := true } =
        (decode b { promoteLongs := false }).map promotedDocument ∧
      (∀ e, decode b { promoteLongs := true } = .error e ↔
        decode b { promoteLongs := false } = .error e) ∧
      ∀ d, (promotedDocument d).toList = d.toList.map fun p => (p.1, p.2.promoted) := by
  refine ⟨decode_eq_map_promoted b, fun e => ?_, fun d => d.toList_map _⟩
  rw [decode_eq_map_promoted]
  cases decode b { promoteLongs := false } with
  | error e' => exact Iff.rfl
  | ok d => constructor <;> (intro h; cases h)

end Bson
