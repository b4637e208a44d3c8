import Bson.Proofs.Double.Fields
import Bson.Proofs.Value.Equality

/-!
# Equality as a partial equivalence

Equality of values is symmetric and transitive, and a value equals itself unless there is a NaN in
it. A document is compared with another one field by field in one direction only. That this gives
an equality of sets rests on the keys, which are distinct and equally many.

* `Value.HoldsNaN`: a NaN is at some depth of a value, where a comparison gets to it.
* `Value.beq_symm`, `Value.beq_trans`, `Value.beq_self_iff`: the three laws, by induction along
  equality and over the value.
* `OrderedMap.Within d e`: each pair of `d` has an equal one in `e`. `OrderedMap.beq_iff_within`:
  documents are equal as sets of pairs.
* `beq_partial_equivalence`: all of it.
-/

namespace Bson

/-! ### Doubles -/

namespace Double

variable {x y z : Double}

theorem ieeeEq_symm (h : x.ieeeEq y) : y.ieeeEq x := by
  rcases ieeeEq_iff.1 h with ⟨rfl, -⟩ | ⟨hx, hy⟩
  · exact h
  · exact ieeeEq_iff.2 (.inr ⟨hy, hx⟩)

theorem ieeeEq_trans (hxy : x.ieeeEq y) (hyz : y.ieeeEq z) : x.ieeeEq z := by
  rcases ieeeEq_iff.1 hxy with ⟨rfl, -⟩ | ⟨hx, -⟩
  · exact hyz
  · rcases ieeeEq_iff.1 hyz with ⟨rfl, -⟩ | ⟨-, hz⟩
    · exact hxy
    · exact ieeeEq_iff.2 (.inr ⟨hx, hz⟩)

theorem ieeeEq_self_iff : x.ieeeEq x ↔ ¬x.isNaN := by
  rw [ieeeEq_iff, Bool.not_eq_true]
  constructor
  · rintro (⟨-, h⟩ | ⟨hzero, -⟩)
    · exact h
    · exact isNaN_of_isZero hzero
  · exact fun h => .inl ⟨rfl, h⟩

end Double

namespace Value

/-! ### NaNs inside values -/

/-- A NaN is inside a value: at some depth of documents, arrays, scopes, ids of references and the
slots of hooks that cannot be called. What a hook returns is not looked at. -/
inductive HoldsNaN : Value → Prop
  | double {x : Double} (nan : x.isNaN) : HoldsNaN (.double x)
  | boxedDouble {x : Double} (nan : x.isNaN) : HoldsNaN (.boxedDouble x)
  | field {d : Document} {key : String} {v : Value} (mem : (key, v) ∈ d.toList)
      (inside : HoldsNaN v) : HoldsNaN (.document d)
  | item {list : List Value} {v : Value} (mem : v ∈ list) (inside : HoldsNaN v) :
      HoldsNaN (.array list)
  | scope {source : String} {d : Document} {key : String} {v : Value} (mem : (key, v) ∈ d.toList)
      (inside : HoldsNaN v) : HoldsNaN (.scopedCode source d)
  | id {collection : String} {v : Value} {database : Option String} (inside : HoldsNaN v) :
      HoldsNaN (.dbRef collection v database)
  | slot {v : Value} (inside : HoldsNaN v) : HoldsNaN (.brokenHook v)

theorem not_holdsNaN_document_iff {d : Document} :
    ¬(document d).HoldsNaN ↔ ∀ p ∈ d.toList, ¬p.2.HoldsNaN := by
  constructor
  · exact fun h p hp hnan => h (.field hp hnan)
  · intro h hnan
    cases hnan with
    | field mem inside => exact h _ mem inside

theorem not_holdsNaN_scopedCode_iff {source : String} {d : Document} :
    ¬(scopedCode source d).HoldsNaN ↔ ∀ p ∈ d.toList, ¬p.2.HoldsNaN := by
  constructor
  · exact fun h p hp hnan => h (.scope hp hnan)
  · intro h hnan
    cases hnan with
    | scope mem inside => exact h _ mem inside

theorem not_holdsNaN_array_iff {list : List Value} :
    ¬(array list).HoldsNaN ↔ ∀ v ∈ list, ¬v.HoldsNaN := by
  constructor
  · exact fun h _ hv hnan => h (.item hv hnan)
  · intro h hnan
    cases hnan with
    | item mem inside => exact h _ mem inside

/-! ### Symmetry and transitivity -/

/-- Symmetry passes from the parts of values to the values. -/
theorem congruent_symm : CongruentWithHooks fun v w => w.beq v where
  plain _ hv := beq_self_of_isPlain hv
  double _ _ h := Double.ieeeEq_symm h
  boxedDouble _ _ h := Double.ieeeEq_symm h
  document _ _ h := beq_document_iff.2 (h.flip.mono fun _ _ _ _ _ hvw => hvw.2)
  array _ _ h := beq_array_iff.2 (List.Forall₂.flip (h.imp fun _ _ hvw => hvw.2))
  scopedCode _ _ _ h := beq_scopedCode_iff.2 ⟨rfl, h.flip.mono fun _ _ _ _ _ hvw => hvw.2⟩
  dbRef _ _ _ _ _ h := beq_dbRef_iff.2 ⟨rfl, h, rfl⟩
  hook _ _ _ := decide_eq_true rfl
  brokenHook _ _ _ h := h

theorem beq_symm {v w : Value} (h : v.beq w) : w.beq v := congruent_symm.of_beq v w h

theorem forall₂_beq_trans : ∀ {xs ys zs : List Value},
    List.Forall₂ (fun v w => ∀ u, w.beq u → v.beq u) xs ys →
      List.Forall₂ (fun w u => w.beq u) ys zs → List.Forall₂ (fun v u => v.beq u) xs zs
  | _, _, _, .nil, .nil => .nil
  | _, _, _, .cons h hs, .cons h' hs' => .cons (h _ h') (forall₂_beq_trans hs hs')

/-- So does transitivity: what equals the second value equals the first. -/
theorem congruent_trans : CongruentWithHooks fun v w => ∀ u, w.beq u → v.beq u where
  plain _ _ _ hu := hu
  double x y h u hu := by
    cases u with
    | double z => exact Double.ieeeEq_trans (y := y) h hu
    | _ => cases hu
  boxedDouble x y h u hu := by
    cases u with
    | boxedDouble z => exact Double.ieeeEq_trans (y := y) h hu
    | _ => cases hu
  document d e h u hu := by
    cases u with
    | document f =>
      refine beq_document_iff.2 ((h.comp (beq_document_iff.1 hu)).mono ?_)
      rintro _ v u _ _ ⟨w, ⟨-, hv⟩, hwu⟩
      exact hv u hwu
    | _ => cases hu
  array xs ys h u hu := by
    cases u with
    | array zs =>
      exact beq_array_iff.2 (forall₂_beq_trans (h.imp fun _ _ hvw => hvw.2) (beq_array_iff.1 hu))
    | _ => cases hu
  scopedCode source d e h u hu := by
    cases u with
    | scopedCode source' f =>
      obtain ⟨rfl, hrel⟩ := beq_scopedCode_iff.1 hu
      refine beq_scopedCode_iff.2 ⟨rfl, (h.comp hrel).mono ?_⟩
      rintro _ v u _ _ ⟨w, ⟨-, hv⟩, hwu⟩
      exact hv u hwu
    | _ => cases hu
  dbRef collection id id' database _ h u hu := by
    cases u with
    | dbRef collection' id'' database' =>
      obtain ⟨rfl, hid, rfl⟩ := beq_dbRef_iff.1 hu
      exact beq_dbRef_iff.2 ⟨rfl, h _ hid, rfl⟩
    | _ => cases hu
  hook _ _ _ u hu := by
    cases u with
    | hook => exact hu
    | _ => cases hu
  brokenHook _ _ _ h u hu := by
    cases u with
    | brokenHook slot => exact h slot hu
    | _ => cases hu

theorem beq_trans {v w u : Value} (hvw : v.beq w) (hwu : w.beq u) : v.beq u :=
  congruent_trans.of_beq v w hvw u hwu

/-! ### Values that equal themselves -/

mutual

/-- A value equals itself exactly if there is no NaN in it. -/
theorem beq_self_iff : ∀ v : Value, v.beq v ↔ ¬v.HoldsNaN
  | .double x => Double.ieeeEq_self_iff.trans
      ⟨fun hx h => by cases h with | double nan => exact hx nan, fun h nan => h (.double nan)⟩
  | .boxedDouble x => Double.ieeeEq_self_iff.trans
      ⟨fun hx h => by cases h with | boxedDouble nan => exact hx nan,
        fun h nan => h (.boxedDouble nan)⟩
  | .document d => by
    rw [beq_document_iff, OrderedMap.rel_self_iff, not_holdsNaN_document_iff]
    exact forall₂_congr (beq_self_field d.entries)
  | .array list => by
    rw [beq_array_iff, List.forall₂_same, not_holdsNaN_array_iff]
    exact forall₂_congr (beq_self_item list)
  | .scopedCode source d => by
    rw [beq_scopedCode_iff, OrderedMap.rel_self_iff, not_holdsNaN_scopedCode_iff]
    exact (and_iff_right rfl).trans (forall₂_congr (beq_self_field d.entries))
  | .dbRef collection id database => by
    have hid : (dbRef collection id database).HoldsNaN ↔ id.HoldsNaN :=
      ⟨fun h => by cases h with | id inside => exact inside, .id⟩
    rw [beq_dbRef_iff, hid, ← beq_self_iff id]
    exact ⟨fun h => h.2.1, fun h => ⟨rfl, h, rfl⟩⟩
  | .brokenHook slot => by
    have hslot : (brokenHook slot).HoldsNaN ↔ slot.HoldsNaN :=
      ⟨fun h => by cases h with | slot inside => exact inside, .slot⟩
    rw [beq, hslot, beq_self_iff slot]
  | .hook _ _ => iff_of_true (decide_eq_true rfl) fun h => by cases h
  | .int32 _ | .long _ | .string _ | .binary _ | .bytes _ | .objectId _ | .boolean _ | .dateTime _
  | .null | .undefined | .regex _ | .code _ | .function _ | .symbol _ | .timestamp _ | .minKey
  | .maxKey => iff_of_true (beq_self_of_isPlain rfl) fun h => by cases h

theorem beq_self_field : ∀ {keys : List String} (entries : Entries Value keys),
    ∀ p ∈ entries.toList, (p.2.beq p.2 ↔ ¬p.2.HoldsNaN)
  | _, .nil => fun _ hp => absurd hp List.not_mem_nil
  | _, .snoc init _ v _ =>
    Entries.forall_mem_toList_snoc.2 ⟨beq_self_field init, beq_self_iff v⟩

theorem beq_self_item : ∀ (list : List Value), ∀ v ∈ list, (v.beq v ↔ ¬v.HoldsNaN)
  | [] => fun _ hv => absurd hv List.not_mem_nil
  | v :: rest => List.forall_mem_cons.2 ⟨beq_self_iff v, beq_self_item rest⟩

end

/-- A hook equals its copies, which share its token, whatever they return. -/
theorem hook_beq_iff {token : Nat} {result w : Value} :
    (hook token result).beq w ↔ ∃ result', w = hook token result' := by
  constructor
  · intro h
    cases w with
    | hook token' result' =>
      obtain rfl : token = token' := of_decide_eq_true h
      exact ⟨result', rfl⟩
    | _ => cases h
  · rintro ⟨result', rfl⟩
    exact decide_eq_true rfl

end Value

/-! ### Documents as sets of pairs -/

namespace OrderedMap

variable {d e d' e' : Document}

/-- Each pair of a document has an equal pair in another one, wherever it stands. -/
def Within (d e : Document) : Prop := ∀ p ∈ d.toList, ∃ q ∈ e.toList, p.1 = q.1 ∧ p.2.beq q.2

theorem within_of_rel (h : d.Rel (fun v w => v.beq w) e) : d.Within e := by
  intro p hp
  have hget : d.get? p.1 = some p.2 := mem_toList_iff.1 hp
  rcases h.cases p.1 with ⟨hnone, -⟩ | ⟨v, w, hv, hw, hvw⟩
  · cases hget.symm.trans hnone
  · cases hget.symm.trans hv
    exact ⟨(p.1, w), mem_toList_of_get? hw, rfl, hvw⟩

/-- Documents are equal if they are equal as sets of pairs. -/
theorem beq_iff_within : d.beq e ↔ d.Within e ∧ e.Within d := by
  constructor
  · intro h
    exact ⟨within_of_rel (Value.beq_document_iff.1 h),
      within_of_rel (Value.beq_document_iff.1 (Value.beq_symm h))⟩
  · rintro ⟨hde, hed⟩
    refine Value.beq_document_iff.2 fun key => ?_
    cases hd : d.get? key with
    | some v =>
      obtain ⟨⟨k, w⟩, hq, hk, hvw⟩ := hde (key, v) (mem_toList_of_get? hd)
      obtain rfl : key = k := hk
      rw [mem_toList_iff.1 hq]
      exact .some hvw
    | none =>
      cases he : e.get? key with
      | none => exact .none
      | some w =>
        -- the key would stand in the first document too
        obtain ⟨⟨k, v⟩, hp, hk, -⟩ := hed (key, w) (mem_toList_of_get? he)
        obtain rfl : key = k := hk
        cases hd.symm.trans (mem_toList_iff.1 hp)

theorem Within.perm (h : d.Within e) (hd : d.toList.Perm d'.toList) (he : e.toList.Perm e'.toList) :
    d'.Within e' := by
  intro p hp
  obtain ⟨q, hq, hpq⟩ := h p (hd.mem_iff.2 hp)
  exact ⟨q, he.mem_iff.1 hq, hpq⟩

/-- The order of the pairs does not matter. -/
theorem beq_of_perm (hd : d.toList.Perm d'.toList) (he : e.toList.Perm e'.toList) :
    d.beq e = d'.beq e' := by
  rw [Bool.eq_iff_iff, beq_iff_within, beq_iff_within]
  exact ⟨fun h => ⟨h.1.perm hd he, h.2.perm he hd⟩,
    fun h => ⟨h.1.perm hd.symm he.symm, h.2.perm he.symm hd.symm⟩⟩

end OrderedMap

/-- **Equality is a partial equivalence that only NaN breaks.** It is symmetric and transitive, and
a value equals itself exactly if no double inside it is a NaN. A hook that can be called equals its
copies only. Documents are equal exactly if they are equal as sets of pairs, whatever the order of
either. -/
theorem beq_partial_equivalence :
    (∀ x y : Value, x == y → y == x) ∧
      (∀ x y z : Value, x == y → y == z → x == z) ∧
      (∀ x : Value, x == x ↔ ¬x.HoldsNaN) ∧
      (∀ (token : Nat) (result y : Value),
        .hook token result == y ↔ ∃ result', y = .hook token result') ∧
      (∀ d e : Document, d == e ↔ d.Within e ∧ e.Within d) ∧
      ∀ d d' e e' : Document, d.toList.Perm d'.toList → e.toList.Perm e'.toList →
        (d == e) = (d' == e') :=
  ⟨fun _ _ => Value.beq_symm, fun _ _ _ => Value.beq_trans, Value.beq_self_iff,
    fun _ _ _ => Value.hook_beq_iff, fun _ _ => OrderedMap.beq_iff_within,
    fun _ _ _ _ => OrderedMap.beq_of_perm⟩

/-- A document with a zero in front of an array. -/
def zeroFirst : Document :=
  .ofList [("z", .double ⟨0⟩), ("a", .array [.brokenHook (.int32 1)])]

/-- The same with the other zero, behind the array. -/
def zeroLast : Document :=
  .ofList [("a", .array [.brokenHook (.int32 1)]), ("z", .double ⟨0x8000000000000000⟩)]

/-- The same in the first order. -/
def otherZeroFirst : Document :=
  .ofList [("z", .double ⟨0x8000000000000000⟩), ("a", .array [.brokenHook (.int32 1)])]

/-- The three are equal, in either direction and in any order. -/
theorem beq_partial_equivalence_zeros :
    (Value.document zeroFirst == .document zeroLast ∧
      Value.document zeroLast == .document otherZeroFirst ∧
      zeroLast.toList.Perm otherZeroFirst.toList) ∧
    Value.document zeroLast == .document zeroFirst ∧
      Value.document zeroFirst == .document otherZeroFirst ∧
      (zeroFirst == zeroLast) = (zeroFirst == otherZeroFirst) := by
  have hfirst : Value.document zeroFirst == .document zeroLast := by rfl
  have hsecond : Value.document zeroLast == .document otherZeroFirst := by rfl
  have hperm : zeroLast.toList.Perm otherZeroFirst.toList := List.Perm.swap _ _ []
  obtain ⟨hsymm, htrans, -, -, -, hany⟩ := beq_partial_equivalence
  exact ⟨⟨hfirst, hsecond, hperm⟩, hsymm _ _ hfirst, htrans _ _ _ hfirst hsecond,
    hany _ _ _ _ (.refl _) hperm⟩

end Bson
