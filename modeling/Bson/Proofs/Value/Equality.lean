import Bson.Value.Equality
import Mathlib.Data.List.Forall2
import Mathlib.Data.List.Perm.Subperm

/-!
# Equality of values, by induction

Equality looks every field of one document up in another, so what is proved of equal values goes by
way of maps that are related key by key, whatever the order of their keys.

* `OrderedMap.rel_iff`: related maps have as many keys, and each value of one has a related one in
  the other. `OrderedMap.Rel.perm_map`: what is made of their pairs is the same up to order.
* `Value.beq_document_iff`, `Value.beqItems_iff`: equal documents are related by equality, and equal
  arrays are equal item by item.
* `Value.HookFree`: no part of a value converts itself.
* `Value.Congruent`: a relation that passes from the parts of equal values to the values.
  `Value.Congruent.of_beq`: such a relation holds of equal values without hooks.
* `Value.CongruentWithHooks`: one that passes through hooks too.
  `Value.CongruentWithHooks.of_beq`: it holds of all equal values.
-/

namespace Bson

/-! ### Maps that are related key by key -/

namespace OrderedMap

variable {α β γ : Type} {R : α → β → Prop} {m : OrderedMap α} {n : OrderedMap β}

@[simp] theorem length_toList (m : OrderedMap α) : m.toList.length = m.size :=
  m.entries.length_toList

@[simp] theorem length_keys (m : OrderedMap α) : m.keys.length = m.size := List.length_reverse

/-- What is made of the pairs may be made by looking up the keys. -/
theorem map_toList_eq (m : OrderedMap α) (f : String × α → γ) :
    m.toList.map f = m.keys.filterMap fun key => (m.get? key).map fun v => f (key, v) := by
  rw [← map_fst_toList, List.filterMap_map, ← List.filterMap_eq_map]
  refine List.filterMap_congr fun p hp => ?_
  have hget : m.get? p.1 = some p.2 := mem_toList_iff.1 hp
  simp only [Function.comp_apply, hget, Option.map_some]

/-- Related maps have the same keys, in some order. -/
theorem Rel.perm_keys (h : m.Rel R n) : m.keys.Perm n.keys := by
  refine (List.perm_ext_iff_of_nodup m.nodup_keys n.nodup_keys).2 fun key => ?_
  rw [← not_iff_not, ← get?_eq_none_iff, ← get?_eq_none_iff]
  rcases h.cases key with ⟨hm, hn⟩ | ⟨v, w, hm, hn, -⟩ <;> simp [hm, hn]

/-- What is made of the pairs of related maps is the same up to order, if the same is made of
related values. -/
theorem Rel.perm_map (h : m.Rel R n) {f : String × α → γ} {g : String × β → γ}
    (hfg : ∀ key v w, R v w → f (key, v) = g (key, w)) :
    (m.toList.map f).Perm (n.toList.map g) := by
  rw [map_toList_eq, map_toList_eq]
  have hlookup : (fun key => (m.get? key).map fun v => f (key, v)) =
      fun key => (n.get? key).map fun w => g (key, w) := by
    funext key
    rcases h.cases key with ⟨hm, hn⟩ | ⟨v, w, hm, hn, hvw⟩
    · rw [hm, hn]
      rfl
    · rw [hm, hn]
      exact congrArg some (hfg key v w hvw)
  rw [hlookup]
  exact h.perm_keys.filterMap _

/-- Maps are related if they have as many keys and each value of one has a related one in the
other. -/
theorem rel_iff : m.Rel R n ↔
    m.size = n.size ∧ ∀ key v, m.get? key = some v → ∃ w, n.get? key = some w ∧ R v w := by
  constructor
  · intro h
    refine ⟨by rw [← length_keys, ← length_keys, h.perm_keys.length_eq], fun key v hv => ?_⟩
    rcases h.cases key with ⟨hm, -⟩ | ⟨v', w, hm, hn, hvw⟩
    · cases hv.symm.trans hm
    · cases hv.symm.trans hm
      exact ⟨w, hn, hvw⟩
  · rintro ⟨hsize, hvalues⟩ key
    cases hm : m.get? key with
    | some v =>
      obtain ⟨w, hn, hvw⟩ := hvalues key v hm
      rw [hn]
      exact .some hvw
    | none =>
      -- the keys of one are keys of the other, and they are as many
      have hsub : m.keys ⊆ n.keys := by
        intro k hk
        rw [← map_fst_toList, List.mem_map] at hk
        obtain ⟨⟨k, v⟩, hp, rfl⟩ := hk
        obtain ⟨w, hn, -⟩ := hvalues k v (mem_toList_iff.1 hp)
        rw [← map_fst_toList]
        exact List.mem_map_of_mem (f := Prod.fst) (mem_toList_iff.2 hn)
      have hperm : m.keys.Perm n.keys :=
        (m.nodup_keys.subperm hsub).perm_of_length_le (by simp [hsize])
      have hn : n.get? key = none :=
        get?_eq_none_iff.2 fun h => get?_eq_none_iff.1 hm (hperm.mem_iff.2 h)
      rw [hn]
      exact .none

theorem Rel.size_eq (h : m.Rel R n) : m.size = n.size := (rel_iff.1 h).1

theorem Rel.isEmpty_eq (h : m.Rel R n) : m.isEmpty = n.isEmpty := by
  have hsize : m.newestFirst.length = n.newestFirst.length := h.size_eq
  rw [isEmpty, isEmpty, Bool.eq_iff_iff, List.isEmpty_iff_length_eq_zero,
    List.isEmpty_iff_length_eq_zero, hsize]

/-- Related values may be related otherwise, seen that they stand in the maps. -/
theorem Rel.mono {S : α → β → Prop} (h : m.Rel R n)
    (hRS : ∀ key v w, m.get? key = some v → n.get? key = some w → R v w → S v w) :
    m.Rel S n := by
  intro key
  rcases h.cases key with ⟨hm, hn⟩ | ⟨v, w, hm, hn, hvw⟩
  · rw [hm, hn]
    exact .none
  · rw [hm, hn]
    exact .some (hRS key v w hm hn hvw)

theorem Rel.flip (h : m.Rel R n) : n.Rel (fun w v => R v w) m := by
  intro key
  rcases h.cases key with ⟨hm, hn⟩ | ⟨v, w, hm, hn, hvw⟩
  · rw [hm, hn]
    exact .none
  · rw [hm, hn]
    exact .some hvw

theorem Rel.comp {S : β → γ → Prop} {o : OrderedMap γ} (h : m.Rel R n) (h' : n.Rel S o) :
    m.Rel (fun v u => ∃ w, R v w ∧ S w u) o := by
  intro key
  rcases h.cases key with ⟨hm, hn⟩ | ⟨v, w, hm, hn, hvw⟩
  · rcases h'.cases key with ⟨-, ho⟩ | ⟨w', u, hn', -, -⟩
    · rw [hm, ho]
      exact .none
    · cases hn.symm.trans hn'
  · rcases h'.cases key with ⟨hn', -⟩ | ⟨w', u, hn', ho, hwu⟩
    · cases hn.symm.trans hn'
    · cases hn.symm.trans hn'
      rw [hm, ho]
      exact .some ⟨w, hvw, hwu⟩

/-- A map is related to itself if each of its values is. -/
theorem rel_self_iff {R : α → α → Prop} : m.Rel R m ↔ ∀ p ∈ m.toList, R p.2 p.2 := by
  constructor
  · intro h p hp
    have hget : m.get? p.1 = some p.2 := mem_toList_iff.1 hp
    rcases h.cases p.1 with ⟨hm, -⟩ | ⟨v, w, hv, hw, hvw⟩
    · cases hget.symm.trans hm
    · cases hget.symm.trans hv
      cases hget.symm.trans hw
      exact hvw
  · intro h key
    cases hv : m.get? key with
    | none => exact .none
    | some v => exact .some (h (key, v) (mem_toList_of_get? hv))

end OrderedMap

/-! ### Equality of documents and arrays -/

theorem Entries.allIn_iff {e : Document} : ∀ {keys : List String} (entries : Entries Value keys),
    entries.allIn e ↔ ∀ p ∈ entries.toList, ∃ w, e.get? p.1 = some w ∧ p.2.beq w
  | _, .nil => ⟨fun _ _ h => absurd h List.not_mem_nil, fun _ => by rw [Entries.allIn]⟩
  | _, .snoc init key v fresh => by
    rw [Entries.allIn, Bool.and_eq_true, allIn_iff init, Entries.forall_mem_toList_snoc]
    refine and_congr_right' ?_
    cases e.get? key <;> simp

namespace Value

theorem beqItems_iff : ∀ {xs ys : List Value},
    beqItems xs ys ↔ List.Forall₂ (fun v w => v.beq w) xs ys
  | [], [] => by simp [beqItems]
  | [], _ :: _ | _ :: _, [] => by simp [beqItems]
  | x :: xs, y :: ys => by
    rw [beqItems, Bool.and_eq_true, List.forall₂_cons, beqItems_iff]

/-- As many fields, all of which have equal ones in the other document: that is to be related by
equality. -/
theorem allIn_iff_rel {d e : Document} :
    (d.size == e.size) = true ∧ d.entries.allIn e ↔ d.Rel (fun v w => v.beq w) e := by
  rw [OrderedMap.rel_iff, beq_iff_eq, Entries.allIn_iff]
  refine and_congr_right' ⟨fun h key v hv => h (key, v) (OrderedMap.mem_toList_of_get? hv),
    fun h p hp => h p.1 p.2 (OrderedMap.mem_toList_iff.1 hp)⟩

theorem beq_document_iff {d e : Document} :
    (document d).beq (document e) ↔ d.Rel (fun v w => v.beq w) e := by
  rw [beq, Bool.and_eq_true]
  exact allIn_iff_rel

theorem beq_scopedCode_iff {s t : String} {d e : Document} :
    (scopedCode s d).beq (scopedCode t e) ↔ s = t ∧ d.Rel (fun v w => v.beq w) e := by
  rw [beq, Bool.and_eq_true, Bool.and_eq_true, and_assoc, decide_eq_true_iff]
  exact and_congr_right' allIn_iff_rel

theorem beq_dbRef_iff {c c' : String} {id id' : Value} {b b' : Option String} :
    (dbRef c id b).beq (dbRef c' id' b') ↔ c = c' ∧ id.beq id' ∧ b = b' := by
  rw [beq, Bool.and_eq_true, Bool.and_eq_true, and_assoc, decide_eq_true_iff, decide_eq_true_iff]

theorem beq_array_iff {xs ys : List Value} :
    (array xs).beq (array ys) ↔ List.Forall₂ (fun v w => v.beq w) xs ys := by
  rw [beq, beqItems_iff]

/-! ### Values without hooks -/

mutual

/-- Whether no part of a value converts itself. -/
def HookFree : Value → Prop
  | .document d => HookFreeFields d.entries
  | .array list => HookFreeItems list
  | .scopedCode _ scope => HookFreeFields scope.entries
  | .dbRef _ id _ => HookFree id
  | .hook _ _ | .brokenHook _ => False
  | _ => True

/-- The same of the fields of a document. -/
def HookFreeFields : {keys : List String} → Entries Value keys → Prop
  | _, .nil => True
  | _, .snoc init _ v _ => HookFreeFields init ∧ HookFree v

/-- The same of the items of an array. -/
def HookFreeItems : List Value → Prop
  | [] => True
  | v :: rest => HookFree v ∧ HookFreeItems rest

end

/-! ### Induction along equality -/

/-- Whether a value holds no other, is no double and has no hook. -/
def isPlain : Value → Bool
  | .double _ | .boxedDouble _ | .document _ | .array _ | .scopedCode _ _ | .dbRef _ _ _
  | .hook _ _ | .brokenHook _ => false
  | _ => true

/-- A plain value equals itself only. -/
theorem eq_of_beq {v w : Value} (hv : v.isPlain) (h : v.beq w) : v = w := by
  unfold beq at h
  split at h
  all_goals first
    | rfl
    | exact absurd hv Bool.false_ne_true
    | exact absurd h Bool.false_ne_true
    | rw [of_decide_eq_true h]

/-- It equals itself. -/
theorem beq_self_of_isPlain {v : Value} (h : v.isPlain) : v.beq v := by
  cases v <;> first | rfl | exact decide_eq_true rfl | exact absurd h Bool.false_ne_true

/-- A relation that passes from the parts of values to the values, if the parts are equal and
related. -/
structure Congruent (P : Value → Value → Prop) : Prop where
  plain : ∀ v, v.isPlain → P v v
  double : ∀ x y, x.ieeeEq y → P (.double x) (.double y)
  boxedDouble : ∀ x y, x.ieeeEq y → P (.boxedDouble x) (.boxedDouble y)
  document : ∀ d e, d.Rel (fun v w => v.beq w ∧ P v w) e → P (.document d) (.document e)
  array : ∀ xs ys, List.Forall₂ (fun v w => v.beq w ∧ P v w) xs ys → P (.array xs) (.array ys)
  scopedCode : ∀ source d e, d.Rel (fun v w => v.beq w ∧ P v w) e →
    P (.scopedCode source d) (.scopedCode source e)
  dbRef : ∀ collection id id' database, id.beq id' → P id id' →
    P (.dbRef collection id database) (.dbRef collection id' database)

/-- Such a relation that passes through hooks as well: what a hook returns does not matter to it, and
a slot that cannot be called is a part like any other. -/
structure CongruentWithHooks (P : Value → Value → Prop) : Prop extends Congruent P where
  hook : ∀ token result result', P (.hook token result) (.hook token result')
  brokenHook : ∀ slot slot', slot.beq slot' → P slot slot' →
    P (.brokenHook slot) (.brokenHook slot')

variable {P : Value → Value → Prop}

mutual

/-- A relation that is congruent with hooks holds of equal values. -/
theorem CongruentWithHooks.of_beq (hP : CongruentWithHooks P) : ∀ v w, v.beq w → P v w
  | .double x, w, h => by
    cases w with
    | double y => exact hP.double x y h
    | _ => cases h
  | .boxedDouble x, w, h => by
    cases w with
    | boxedDouble y => exact hP.boxedDouble x y h
    | _ => cases h
  | .document d, w, h => by
    cases w with
    | document e =>
      -- the induction is on the first document: its fields are found in the other in any order
      refine hP.document d e ((beq_document_iff.1 h).mono fun key v w hv _ hvw => ⟨hvw, ?_⟩)
      exact of_beq_field hP d.entries (key, v) (OrderedMap.mem_toList_of_get? hv) w hvw
    | _ => cases h
  | .array xs, w, h => by
    cases w with
    | array ys =>
      refine hP.array xs ys (List.Forall₂.imp (R := fun v w => v ∈ xs ∧ v.beq w)
        (fun v w hvw => ⟨hvw.2, of_beq_item hP xs v hvw.1 w hvw.2⟩) ?_)
      exact (List.forall₂_and_left xs ys).2 ⟨fun v hv => hv, beq_array_iff.1 h⟩
    | _ => cases h
  | .scopedCode source d, w, h => by
    cases w with
    | scopedCode source' e =>
      obtain ⟨rfl, hrel⟩ := beq_scopedCode_iff.1 h
      refine hP.scopedCode source d e (hrel.mono fun key v w hv _ hvw => ⟨hvw, ?_⟩)
      exact of_beq_field hP d.entries (key, v) (OrderedMap.mem_toList_of_get? hv) w hvw
    | _ => cases h
  | .dbRef collection id database, w, h => by
    cases w with
    | dbRef collection' id' database' =>
      obtain ⟨rfl, hid, rfl⟩ := beq_dbRef_iff.1 h
      exact hP.dbRef collection id id' database hid (of_beq hP id id' hid)
    | _ => cases h
  | .hook token result, w, h => by
    cases w with
    | hook token' result' =>
      obtain rfl : token = token' := of_decide_eq_true h
      exact hP.hook token result result'
    | _ => cases h
  | .brokenHook slot, w, h => by
    cases w with
    | brokenHook slot' => exact hP.brokenHook slot slot' h (of_beq hP slot slot' h)
    | _ => cases h
  | .int32 _, _, h | .long _, _, h | .string _, _, h | .binary _, _, h | .bytes _, _, h
  | .objectId _, _, h | .boolean _, _, h | .dateTime _, _, h | .null, _, h | .undefined, _, h
  | .regex _, _, h | .code _, _, h | .function _, _, h | .symbol _, _, h | .timestamp _, _, h
  | .minKey, _, h | .maxKey, _, h => eq_of_beq rfl h ▸ hP.plain _ rfl

theorem CongruentWithHooks.of_beq_field (hP : CongruentWithHooks P) :
    ∀ {keys : List String} (entries : Entries Value keys),
      ∀ p ∈ entries.toList, ∀ w, p.2.beq w → P p.2 w
  | _, .nil => fun _ hp => absurd hp List.not_mem_nil
  | _, .snoc init _ v _ =>
    Entries.forall_mem_toList_snoc.2 ⟨of_beq_field hP init, of_beq hP v⟩

theorem CongruentWithHooks.of_beq_item (hP : CongruentWithHooks P) :
    ∀ (xs : List Value), ∀ v ∈ xs, ∀ w, v.beq w → P v w
  | [] => fun _ hv => absurd hv List.not_mem_nil
  | v :: rest => List.forall_mem_cons.2 ⟨of_beq hP v, of_beq_item hP rest⟩

end

theorem hookFreeFields_iff : ∀ {keys : List String} (entries : Entries Value keys),
    HookFreeFields entries ↔ ∀ p ∈ entries.toList, p.2.HookFree
  | _, .nil => iff_of_true trivial fun _ hp => absurd hp List.not_mem_nil
  | _, .snoc init _ _ _ => by
    rw [HookFreeFields, hookFreeFields_iff init, Entries.forall_mem_toList_snoc]

theorem hookFreeItems_iff : ∀ (list : List Value),
    HookFreeItems list ↔ ∀ v ∈ list, v.HookFree
  | [] => iff_of_true trivial fun _ hv => absurd hv List.not_mem_nil
  | v :: rest => by rw [HookFreeItems, hookFreeItems_iff rest, List.forall_mem_cons]

/-- Of values without hooks a relation need not say anything of hooks. -/
theorem Congruent.withHooks (hP : Congruent P) :
    CongruentWithHooks fun v w => v.HookFree → P v w where
  plain v hv _ := hP.plain v hv
  double x y h _ := hP.double x y h
  boxedDouble x y h _ := hP.boxedDouble x y h
  document d e h hfree := hP.document d e <| h.mono fun key v w hv _ hvw =>
    ⟨hvw.1, hvw.2 ((hookFreeFields_iff d.entries).1 hfree _ (OrderedMap.mem_toList_of_get? hv))⟩
  array xs ys h hfree := by
    refine hP.array xs ys (List.Forall₂.imp
      (R := fun v w => v.HookFree ∧ v.beq w ∧ (v.HookFree → P v w))
      (fun v w hvw => ⟨hvw.2.1, hvw.2.2 hvw.1⟩) ?_)
    exact (List.forall₂_and_left xs ys).2 ⟨(hookFreeItems_iff xs).1 hfree, h⟩
  scopedCode source d e h hfree := hP.scopedCode source d e <| h.mono fun key v w hv _ hvw =>
    ⟨hvw.1, hvw.2 ((hookFreeFields_iff d.entries).1 hfree _ (OrderedMap.mem_toList_of_get? hv))⟩
  dbRef collection id id' database hid h hfree :=
    hP.dbRef collection id id' database hid (h hfree)
  hook _ _ _ hfree := hfree.elim
  brokenHook _ _ _ _ hfree := hfree.elim

/-- A congruent relation holds of equal values without hooks. -/
theorem Congruent.of_beq (hP : Congruent P) (v : Value) (hfree : v.HookFree) (w : Value)
    (h : v.beq w) : P v w := hP.withHooks.of_beq v w h hfree

theorem Congruent.of_beq_field (hP : Congruent P) {keys : List String}
    (entries : Entries Value keys) (hfree : HookFreeFields entries) :
    ∀ p ∈ entries.toList, ∀ w, p.2.beq w → P p.2 w :=
  fun p hp w h => hP.of_beq p.2 ((hookFreeFields_iff entries).1 hfree p hp) w h

end Value

end Bson
