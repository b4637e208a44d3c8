import Bson.Proofs.Value.Equality
import Mathlib.Data.List.Induction

/-!
# Merging maps

Maps under merging are a monoid in which every map is idempotent. Keys keep the place that the first
map gives them and values are those of the last, so what has to be shown is that both survive when
the merging is grouped otherwise.

* `ext_get?`: the keys in their order and the values under them determine a map.
* `keys_insertMany`, `get?_insertMany`: what pairs inserted one after another leave behind.
* `insertMany_eq_merge`: they do what the map that they make does. Grouping needs nothing else.
* `merge_monoid`: the laws of merging.
-/

namespace Bson.OrderedMap

variable {α : Type}

/-! ### Maps by their keys and values -/

/-- Maps with the same keys in the same order, and the same values under them, are the same. -/
theorem ext_get? {a b : OrderedMap α} (hkeys : a.keys = b.keys)
    (hget : ∀ key, a.get? key = b.get? key) : a = b := by
  refine ext_toList ?_
  rw [← List.map_id a.toList, ← List.map_id b.toList, map_toList_eq, map_toList_eq, hkeys]
  simp only [hget]

/-! ### Pairs one after another -/

section Pairs

variable (m : OrderedMap α) (pairs more : List (String × α))

theorem ofList_append : ofList (pairs ++ more) = (ofList pairs).insertMany more :=
  insertMany_append pairs more

/-- The value under a key is that of the last pair with the key, or what it was before. -/
theorem get?_insertMany (key : String) :
    (m.insertMany pairs).get? key = ((ofList pairs).get? key).or (m.get? key) := by
  -- pairs are taken from the end: the last one decides in both maps
  induction pairs using List.reverseRecOn with
  | nil => rfl
  | append_singleton pairs p ih =>
    rw [insertMany_append, ofList_append]
    change ((m.insertMany pairs).insert p.1 p.2).get? key =
      (((ofList pairs).insert p.1 p.2).get? key).or (m.get? key)
    rw [get?_insert, get?_insert, ih]
    split <;> rfl

/-- The keys of the pairs come after those that are there, each where it comes first. -/
theorem keys_insertMany :
    (m.insertMany pairs).keys = m.keys ++ (ofList pairs).keys.filter (· ∉ m.keys) := by
  induction pairs using List.reverseRecOn with
  | nil => exact (List.append_nil _).symm
  | append_singleton pairs p ih =>
    rw [insertMany_append, ofList_append]
    change ((m.insertMany pairs).insert p.1 p.2).keys =
      m.keys ++ ((ofList pairs).insert p.1 p.2).keys.filter (· ∉ m.keys)
    rw [keys_insert, keys_insert, ih]
    have hmem : p.1 ∈ m.keys ++ (ofList pairs).keys.filter (· ∉ m.keys) ↔
        p.1 ∈ m.keys ∨ p.1 ∈ (ofList pairs).keys := by
      rw [List.mem_append, List.mem_filter, decide_eq_true_eq]
      tauto
    by_cases hpairs : p.1 ∈ (ofList pairs).keys
    · rw [if_pos hpairs, if_pos (hmem.2 (.inr hpairs))]
    · rw [if_neg hpairs, List.filter_append]
      by_cases hold : p.1 ∈ m.keys
      · have hnone : [p.1].filter (· ∉ m.keys) = [] :=
          List.filter_cons_of_neg (by rw [decide_eq_true_eq]; exact not_not_intro hold)
        rw [if_pos (hmem.2 (.inl hold)), hnone, List.append_nil]
      · have hone : [p.1].filter (· ∉ m.keys) = [p.1] :=
          List.filter_cons_of_pos (decide_eq_true hold)
        rw [if_neg fun h => (hmem.1 h).elim hold hpairs, hone, List.append_assoc]

end Pairs

/-! ### Merging -/

section Merge

variable (a b c : OrderedMap α)

theorem get?_merge (key : String) : (a.merge b).get? key = (b.get? key).or (a.get? key) := by
  rw [merge, get?_insertMany, ofList_toList]

theorem keys_merge : (a.merge b).keys = a.keys ++ b.keys.filter (· ∉ a.keys) := by
  rw [merge, keys_insertMany, ofList_toList]

/-- Pairs that are inserted one after another do what the map that they make does. -/
theorem insertMany_eq_merge (pairs : List (String × α)) :
    a.insertMany pairs = a.merge (ofList pairs) := by
  refine ext_get? ?_ fun key => ?_
  · rw [keys_insertMany, keys_merge]
  · rw [get?_insertMany, get?_merge]

/-- To merge is to collect the pairs of both maps. -/
theorem merge_eq_ofList : a.merge b = ofList (a.toList ++ b.toList) := by
  rw [ofList_append, ofList_toList, merge]

/-- Grouping does not matter: either way all pairs of the last two maps are inserted in order. -/
theorem merge_assoc : (a.merge b).merge c = a.merge (b.merge c) :=
  calc (a.merge b).merge c
      = a.insertMany (b.toList ++ c.toList) := (insertMany_append b.toList c.toList).symm
    _ = a.merge (ofList (b.toList ++ c.toList)) := insertMany_eq_merge a _
    _ = a.merge (b.merge c) := by rw [← merge_eq_ofList]

theorem merge_empty : a.merge empty = a := rfl

theorem empty_merge : empty.merge a = a := ofList_toList a

theorem merge_self : a.merge a = a := by
  refine ext_get? ?_ fun key => ?_
  · have hnone : a.keys.filter (· ∉ a.keys) = [] :=
      List.filter_eq_nil_iff.2 fun key hkey => by
      rw [decide_eq_true_eq]
      exact not_not_intro hkey
    rw [keys_merge, hnone, List.append_nil]
  · rw [get?_merge, Option.or_self]

/-- **Merging is a monoid.** As ordered maps, merging is associative, the empty map is its unit on
both sides, and a map merged into itself does not change. To merge is to collect the pairs of the
first map and then those of the second: the keys are those of the first in their order, then the new
ones of the second in theirs, and under each key is the value of the second map if it has the key,
else that of the first. -/
theorem merge_monoid :
    (a.merge b).merge c = a.merge (b.merge c) ∧
      a.merge empty = a ∧ empty.merge a = a ∧ a.merge a = a ∧
      a.merge b = ofList (a.toList ++ b.toList) ∧
      (a.merge b).keys = a.keys ++ b.keys.filter (· ∉ a.keys) ∧
      ∀ key, (a.merge b).get? key = (b.get? key).or (a.get? key) :=
  ⟨merge_assoc a b c, merge_empty a, empty_merge a, merge_self a, merge_eq_ofList a b,
    keys_merge a b, get?_merge a b⟩

end Merge

/-- Maps that overlap in pairs: a key stays where it came first and has its last value. -/
example : (((ofList [("a", 1), ("b", 2)]).merge (ofList [("c", 3), ("a", 4)])).merge
    (ofList [("b", 5), ("c", 6)])).toList = [("a", 4), ("b", 5), ("c", 6)] := by
  decide

end Bson.OrderedMap
