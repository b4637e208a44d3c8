/-!
# Insertion-ordered maps

Finite maps with text keys that remember the order in which the keys came.

* `Entries α keys`: values stored one after another under the pairwise distinct `keys`, which the
  type lists newest first. That the keys are distinct is part of the type, so a map needs no side
  condition, and storing under a new key is one constructor.
* `OrderedMap α`: entries under some list of keys. `insert` overwrites in place or appends,
  `erase` closes the gap, `merge` inserts one map into another.
* The view of a map is `OrderedMap.toList`, the list of its pairs, oldest first;
  `OrderedMap.ext_toList` says that it determines the map, and each operation has its equation
  through it.
-/

namespace Bson

universe u v

/-- Values stored in order under pairwise distinct keys; the index lists the keys newest first. -/
inductive Entries (α : Type u) : List String → Type u
  | nil : Entries α []
  | snoc {keys : List String} (init : Entries α keys) (key : String) (value : α)
      (fresh : key ∉ keys) : Entries α (key :: keys)

/-- A map that lists its keys in the order in which they were first inserted. -/
structure OrderedMap (α : Type u) where
  {newestFirst : List String}
  entries : Entries α newestFirst

namespace Entries

variable {α : Type u} {β : Type v} {keys : List String}

/-- The pairs, oldest first, in front of a list. -/
def toListAppend : {keys : List String} → Entries α keys → List (String × α) → List (String × α)
  | _, .nil, pairs => pairs
  | _, .snoc init key value _, pairs => init.toListAppend ((key, value) :: pairs)

/-- The pairs, oldest first. -/
def toList (entries : Entries α keys) : List (String × α) := entries.toListAppend []

theorem toListAppend_eq (entries : Entries α keys) (pairs : List (String × α)) :
    entries.toListAppend pairs = entries.toList ++ pairs := by
  induction entries generalizing pairs with
  | nil => rfl
  | snoc init key value fresh ih =>
    change init.toListAppend _ = init.toListAppend _ ++ pairs
    rw [ih, ih [(key, value)], List.append_assoc, List.singleton_append]

@[simp] theorem toList_nil : (nil : Entries α []).toList = [] := rfl

@[simp] theorem toList_snoc (init : Entries α keys) (key : String) (value : α)
    (fresh : key ∉ keys) : (init.snoc key value fresh).toList = init.toList ++ [(key, value)] := by
  rw [toList, toListAppend, toListAppend_eq]

theorem forall_mem_toList_snoc {P : String × α → Prop} {init : Entries α keys} {key : String}
    {value : α} {fresh : key ∉ keys} :
    (∀ p ∈ (init.snoc key value fresh).toList, P p) ↔
      (∀ p ∈ init.toList, P p) ∧ P (key, value) := by
  simp [or_imp, forall_and]

/-- The keys of the pairs are those in the type. -/
@[simp] theorem map_fst_toList (entries : Entries α keys) :
    entries.toList.map Prod.fst = keys.reverse := by
  induction entries with
  | nil => rfl
  | snoc init key value fresh ih => simp [ih]

@[simp] theorem length_toList (entries : Entries α keys) :
    entries.toList.length = keys.length := by
  rw [← List.length_map, map_fst_toList, List.length_reverse]

/-- No key occurs twice. -/
theorem nodup (entries : Entries α keys) : keys.Nodup := by
  induction entries with
  | nil => exact List.nodup_nil
  | snoc init key value fresh ih => exact List.nodup_cons.2 ⟨fresh, ih⟩

/-- Entries with the same pairs are the same. -/
theorem toList_injective {a b : Entries α keys} (h : a.toList = b.toList) : a = b := by
  induction a with
  | nil => cases b; rfl
  | snoc init key value fresh ih =>
    cases b with
    | snoc init' _ value' _ =>
      have parts : init.toList = init'.toList ∧ value = value' := by simpa using h
      rw [ih parts.1, parts.2]

/-- The value under a key. -/
def get? (key : String) : {keys : List String} → Entries α keys → Option α
  | _, .nil => none
  | _, .snoc init k v _ => if k = key then some v else init.get? key

@[simp] theorem get?_nil (key : String) : (nil : Entries α []).get? key = none := rfl

@[simp] theorem get?_snoc (init : Entries α keys) (k : String) (v : α) (fresh : k ∉ keys)
    (key : String) : (init.snoc k v fresh).get? key = if k = key then some v else init.get? key :=
  rfl

/-- Overwrites the value under a key that is present; without the key nothing changes. -/
def set (key : String) (value : α) : {keys : List String} → Entries α keys → Entries α keys
  | _, .nil => .nil
  | _, .snoc init k v fresh =>
    if k = key then .snoc init k value fresh else .snoc (init.set key value) k v fresh

@[simp] theorem toList_set (key : String) (value : α) (entries : Entries α keys) :
    (entries.set key value).toList =
      entries.toList.map fun p => if p.1 = key then (p.1, value) else p := by
  induction entries with
  | nil => rfl
  | @snoc keys init k v fresh ih =>
    by_cases h : k = key
    · subst h
      have same : init.toList.map (fun p => if p.1 = k then (p.1, value) else p) =
          init.toList := by
        refine (List.map_congr_left fun p hp => ?_).trans (List.map_id _)
        have mem := List.mem_map_of_mem (f := Prod.fst) hp
        rw [map_fst_toList, List.mem_reverse] at mem
        have ne : p.1 ≠ k := fun h => fresh (h ▸ mem)
        rw [if_neg ne, id_eq]
      simp [set, same]
    · simp [set, h, ih]

/-- The values changed by a function of key and value. -/
def map (f : String → α → β) : {keys : List String} → Entries α keys → Entries β keys
  | _, .nil => .nil
  | _, .snoc init k v fresh => .snoc (init.map f) k (f k v) fresh

@[simp] theorem toList_map (f : String → α → β) (entries : Entries α keys) :
    (entries.map f).toList = entries.toList.map fun p => (p.1, f p.1 p.2) := by
  induction entries with
  | nil => rfl
  | snoc init k v fresh ih => simp [map, ih]

theorem get?_map (f : String → α → β) (entries : Entries α keys) (key : String) :
    (entries.map f).get? key = (entries.get? key).map (f key) := by
  induction entries with
  | nil => rfl
  | snoc init k v fresh ih =>
    by_cases h : k = key
    · simp [map, h]
    · simp [map, h, ih]

/-- Overwriting is a change of the values, of which it concerns one. -/
theorem set_eq_map (key : String) (value : α) (entries : Entries α keys) :
    entries.set key value = entries.map fun k v => if k = key then value else v := by
  apply toList_injective
  rw [toList_set, toList_map]
  refine List.map_congr_left fun p _ => ?_
  split <;> rfl

/-- A key that is absent has no value, and no other has none. -/
theorem get?_eq_none_iff {key : String} (entries : Entries α keys) :
    entries.get? key = none ↔ key ∉ keys := by
  induction entries with
  | nil => exact ⟨fun _ => List.not_mem_nil, fun _ => rfl⟩
  | snoc init k v fresh ih =>
    rw [get?_snoc, List.mem_cons, not_or]
    split
    · rename_i hk
      exact ⟨fun h => absurd h (Option.some_ne_none v), fun h => absurd hk.symm h.1⟩
    · rename_i hk
      rw [ih]
      exact ⟨fun h => ⟨fun he => hk he.symm, h⟩, fun h => h.2⟩

theorem mem_toList_of_get? {entries : Entries α keys} {key : String} {value : α}
    (h : entries.get? key = some value) : (key, value) ∈ entries.toList := by
  induction entries with
  | nil => cases h
  | snoc init k v fresh ih =>
    rw [get?_snoc] at h
    rw [toList_snoc, List.mem_append, List.mem_singleton]
    split at h
    · rename_i hk
      cases h
      exact .inr (by rw [hk])
    · exact .inl (ih h)

theorem get?_of_mem_toList {entries : Entries α keys} {key : String} {value : α}
    (h : (key, value) ∈ entries.toList) : entries.get? key = some value := by
  induction entries with
  | nil => cases h
  | @snoc keys init k v fresh ih =>
    rw [toList_snoc, List.mem_append, List.mem_singleton] at h
    rw [get?_snoc]
    rcases h with h | h
    · have mem := List.mem_map_of_mem (f := Prod.fst) h
      rw [map_fst_toList, List.mem_reverse] at mem
      have hk : k ≠ key := fun hk => fresh (hk ▸ mem)
      rw [if_neg hk, ih h]
    · cases h
      exact if_pos rfl

/-- Keeps the pairs for which a function gives a value. -/
def filterMap (f : String → α → Option β) : {keys : List String} → Entries α keys →
    { m : OrderedMap β // m.newestFirst.Sublist keys }
  | _, .nil => ⟨⟨.nil⟩, .slnil⟩
  | _, .snoc init k v fresh =>
    let kept := init.filterMap f
    match f k v with
    | none => ⟨kept.1, kept.2.cons k⟩
    | some v' =>
      ⟨⟨.snoc kept.1.entries k v' fun h => fresh (kept.2.subset h)⟩, kept.2.cons_cons k⟩

end Entries

namespace OrderedMap

variable {α : Type u} {β : Type v}

/-- The map without keys. -/
def empty : OrderedMap α := ⟨.nil⟩

instance : EmptyCollection (OrderedMap α) := ⟨empty⟩

instance : Inhabited (OrderedMap α) := ⟨empty⟩

/-- The pairs, oldest first. -/
def toList (m : OrderedMap α) : List (String × α) := m.entries.toList

/-- The keys, oldest first. -/
def keys (m : OrderedMap α) : List String := m.newestFirst.reverse

/-- The values, in the order of their keys. -/
def values (m : OrderedMap α) : List α := m.toList.map Prod.snd

/-- The number of keys. -/
def size (m : OrderedMap α) : Nat := m.newestFirst.length

/-- Whether there is no key. -/
def isEmpty (m : OrderedMap α) : Bool := m.newestFirst.isEmpty

/-- Whether a key is present. -/
def contains (m : OrderedMap α) (key : String) : Bool := m.newestFirst.contains key

/-- The value under a key. -/
def get? (m : OrderedMap α) (key : String) : Option α := m.entries.get? key

/-- Stores a value: in place if the key is present, else at the end. -/
def insert (m : OrderedMap α) (key : String) (value : α) : OrderedMap α :=
  if fresh : key ∉ m.newestFirst then ⟨m.entries.snoc key value fresh⟩
  else ⟨m.entries.set key value⟩

/-- Stores a value under a key that is present; without the key nothing changes. -/
def replace (m : OrderedMap α) (key : String) (value : α) : OrderedMap α :=
  ⟨m.entries.set key value⟩

/-- The values changed by a function of key and value. -/
def map (f : String → α → β) (m : OrderedMap α) : OrderedMap β := ⟨m.entries.map f⟩

/-- Keeps the pairs for which a function gives a value, in their order. -/
def filterMap (f : String → α → Option β) (m : OrderedMap α) : OrderedMap β :=
  (m.entries.filterMap f).1

/-- Removes a key; the keys after it move up. -/
def erase (m : OrderedMap α) (key : String) : OrderedMap α :=
  m.filterMap fun k v => if k = key then none else some v

/-- Whether two maps have the same keys, and related values under each of them. -/
def Rel (R : α → β → Prop) (m : OrderedMap α) (n : OrderedMap β) : Prop :=
  ∀ key, Option.Rel R (m.get? key) (n.get? key)

/-- Stores a value and hands back the one it displaces. -/
def getThenInsert? (m : OrderedMap α) (key : String) (value : α) : Option α × OrderedMap α :=
  (m.get? key, m.insert key value)

/-- Removes a key and hands back its value. -/
def getThenErase? (m : OrderedMap α) (key : String) : Option α × OrderedMap α :=
  (m.get? key, m.erase key)

/-- Overwrites the value under a key that is present and hands back the old one. -/
def getThenReplace? (m : OrderedMap α) (key : String) (value : α) : Option α × OrderedMap α :=
  (m.get? key, m.replace key value)

/-- Inserts pairs one after another. -/
def insertMany (m : OrderedMap α) (pairs : List (String × α)) : OrderedMap α :=
  pairs.foldl (fun m p => m.insert p.1 p.2) m

/-- The map that holds the given pairs: a repeated key keeps its first place and takes its last
value. -/
def ofList (pairs : List (String × α)) : OrderedMap α := empty.insertMany pairs

/-- Inserts the pairs of another map, in their order. -/
def merge (m other : OrderedMap α) : OrderedMap α := m.insertMany other.toList

@[simp] theorem toList_empty : (empty : OrderedMap α).toList = [] := rfl

@[simp] theorem map_fst_toList (m : OrderedMap α) : m.toList.map Prod.fst = m.keys :=
  m.entries.map_fst_toList

theorem nodup_keys (m : OrderedMap α) : m.keys.Nodup :=
  List.pairwise_reverse.2 (m.entries.nodup.imp Ne.symm)

@[simp] theorem mem_keys {m : OrderedMap α} {key : String} :
    key ∈ m.keys ↔ key ∈ m.newestFirst := List.mem_reverse

/-- The pairs determine the map. -/
theorem ext_toList {a b : OrderedMap α} (h : a.toList = b.toList) : a = b := by
  have same : a.newestFirst = b.newestFirst :=
    List.reverse_inj.1 (by rw [← keys, ← a.map_fst_toList, h, b.map_fst_toList, keys])
  cases a with
  | mk ea =>
    cases b with
    | mk eb =>
      cases same
      exact congrArg _ (Entries.toList_injective h)

theorem toList_insert_of_not_mem {m : OrderedMap α} {key : String} (value : α)
    (fresh : key ∉ m.keys) : (m.insert key value).toList = m.toList ++ [(key, value)] := by
  rw [mem_keys] at fresh
  rw [insert, dif_pos fresh]
  exact m.entries.toList_snoc key value fresh

theorem toList_insert_of_mem {m : OrderedMap α} {key : String} (value : α)
    (old : key ∈ m.keys) :
    (m.insert key value).toList = m.toList.map fun p => if p.1 = key then (p.1, value) else p := by
  rw [mem_keys] at old
  rw [insert, dif_neg (not_not_intro old)]
  exact m.entries.toList_set key value

theorem isEmpty_eq (m : OrderedMap α) : m.isEmpty = m.toList.isEmpty := by
  obtain ⟨entries⟩ := m
  cases entries with
  | nil => rfl
  | snoc init key value fresh => simp [isEmpty, toList]

theorem eq_empty_of_isEmpty {m : OrderedMap α} (h : m.isEmpty) : m = empty :=
  ext_toList (List.isEmpty_iff.1 (m.isEmpty_eq ▸ h))

/-- What holds of every pair and of a new one holds of every pair after that one was stored. -/
theorem forall_mem_toList_insert {P : String × α → Prop} {m : OrderedMap α} {key : String}
    {value : α} (h : ∀ p ∈ m.toList, P p) (hnew : P (key, value)) :
    ∀ p ∈ (m.insert key value).toList, P p := by
  intro p hp
  by_cases old : key ∈ m.keys
  · rw [toList_insert_of_mem value old, List.mem_map] at hp
    obtain ⟨p, hp, rfl⟩ := hp
    split
    · rename_i hkey
      exact hkey ▸ hnew
    · exact h p hp
  · rw [toList_insert_of_not_mem value old, List.mem_append, List.mem_singleton] at hp
    rcases hp with hp | rfl
    · exact h p hp
    · exact hnew

theorem forall_mem_toList_insertMany {P : String × α → Prop} {m : OrderedMap α}
    {pairs : List (String × α)} (h : ∀ p ∈ m.toList, P p) (hpairs : ∀ p ∈ pairs, P p) :
    ∀ p ∈ (m.insertMany pairs).toList, P p := by
  induction pairs generalizing m with
  | nil => exact h
  | cons p rest ih =>
    obtain ⟨hp, hrest⟩ := List.forall_mem_cons.1 hpairs
    exact ih (forall_mem_toList_insert h hp) hrest

theorem get?_eq_none_iff {m : OrderedMap α} {key : String} :
    m.get? key = none ↔ key ∉ m.keys := by
  rw [mem_keys]
  exact m.entries.get?_eq_none_iff

theorem mem_toList_of_get? {m : OrderedMap α} {key : String} {value : α}
    (h : m.get? key = some value) : (key, value) ∈ m.toList :=
  Entries.mem_toList_of_get? h

theorem mem_toList_iff {m : OrderedMap α} {key : String} {value : α} :
    (key, value) ∈ m.toList ↔ m.get? key = some value :=
  ⟨Entries.get?_of_mem_toList, mem_toList_of_get?⟩

/-- Under each key, both of two related maps hold nothing or both hold a value. -/
theorem Rel.cases {R : α → β → Prop} {m : OrderedMap α} {n : OrderedMap β} (h : m.Rel R n)
    (key : String) : (m.get? key = none ∧ n.get? key = none) ∨
      ∃ v w, m.get? key = some v ∧ n.get? key = some w ∧ R v w := by
  have hkey := h key
  generalize m.get? key = x at hkey
  generalize n.get? key = y at hkey
  cases hkey with
  | none => exact .inl ⟨rfl, rfl⟩
  | some hvw => exact .inr ⟨_, _, rfl, rfl, hvw⟩

/-- A map whose values are changed is related to what it was. -/
theorem Rel.of_get?_eq_map {R : α → β → Prop} {m : OrderedMap α} {n : OrderedMap β}
    {f : String → α → β} (hget : ∀ key, n.get? key = (m.get? key).map (f key))
    (hf : ∀ key v, m.get? key = some v → R v (f key v)) : m.Rel R n := by
  intro key
  rw [hget]
  cases hv : m.get? key with
  | none => exact .none
  | some v => exact .some (hf key v hv)

@[simp] theorem toList_map (f : String → α → β) (m : OrderedMap α) :
    (m.map f).toList = m.toList.map fun p => (p.1, f p.1 p.2) :=
  m.entries.toList_map f

theorem get?_map (f : String → α → β) (m : OrderedMap α) (key : String) :
    (m.map f).get? key = (m.get? key).map (f key) :=
  m.entries.get?_map f key

/-- A value may be changed before it is stored or afterwards. -/
theorem map_insert (f : String → α → β) (m : OrderedMap α) (key : String) (value : α) :
    (m.insert key value).map f = (m.map f).insert key (f key value) := by
  have hkeys : (m.map f).keys = m.keys := rfl
  refine ext_toList ?_
  by_cases old : key ∈ m.keys
  · rw [toList_map, toList_insert_of_mem _ old, toList_insert_of_mem _ (hkeys ▸ old), toList_map,
      List.map_map, List.map_map]
    refine List.map_congr_left fun p _ => ?_
    by_cases h : p.1 = key <;> simp [h]
  · rw [toList_map, toList_insert_of_not_mem _ old, toList_insert_of_not_mem _ (hkeys ▸ old),
      toList_map, List.map_append]
    rfl

theorem toList_filterMap (f : String → α → Option β) (m : OrderedMap α) :
    (m.filterMap f).toList = m.toList.filterMap fun p => (f p.1 p.2).map (p.1, ·) := by
  cases m with
  | mk entries =>
    simp only [filterMap, toList]
    induction entries with
    | nil => rfl
    | snoc init k v fresh ih =>
      simp only [Entries.filterMap, Entries.toList_snoc, List.filterMap_append, ← ih]
      cases h : f k v <;> simp [h]

theorem toList_erase (m : OrderedMap α) (key : String) :
    (m.erase key).toList = m.toList.filter fun p => p.1 ≠ key := by
  rw [erase, toList_filterMap]
  induction m.toList with
  | nil => rfl
  | cons p rest ih => by_cases h : p.1 = key <;> simp [h, ih]

/-! ### Keys and values after a change -/

section Changes

variable (m : OrderedMap α) (key : String) (value : α)

@[simp] theorem keys_empty : (empty : OrderedMap α).keys = [] := rfl

@[simp] theorem get?_empty : (empty : OrderedMap α).get? key = none := rfl

theorem keys_insert :
    (m.insert key value).keys = if key ∈ m.keys then m.keys else m.keys ++ [key] := by
  rw [insert]
  split
  · rename_i fresh
    rw [if_neg (fun old => fresh (mem_keys.1 old))]
    exact List.reverse_cons
  · rename_i old
    rw [if_pos (mem_keys.2 (Decidable.not_not.1 old))]
    rfl

@[simp] theorem keys_replace : (m.replace key value).keys = m.keys := rfl

theorem keys_erase : (m.erase key).keys = m.keys.filter (· ≠ key) := by
  rw [← map_fst_toList, toList_erase, ← map_fst_toList, List.filter_map]
  rfl

theorem get?_replace (k : String) :
    (m.replace key value).get? k = (m.get? k).map fun v => if k = key then value else v := by
  rw [replace, m.entries.set_eq_map]
  exact m.entries.get?_map _ k

theorem get?_insert (k : String) :
    (m.insert key value).get? k = if k = key then some value else m.get? k := by
  rw [insert]
  split
  · change (if key = k then _ else _) = _
    simp only [eq_comm (a := key)]
    rfl
  · rename_i old
    have hreplaced := m.get?_replace key value k
    rw [replace] at hreplaced
    rw [hreplaced]
    split
    · rename_i hk
      subst hk
      cases hv : m.get? k with
      | none => exact absurd (fun hk => get?_eq_none_iff.1 hv (mem_keys.2 hk)) old
      | some v => rfl
    · exact Option.map_id'

theorem get?_erase (k : String) :
    (m.erase key).get? k = if k = key then none else m.get? k := by
  ext v
  rw [← mem_toList_iff, toList_erase, List.mem_filter, mem_toList_iff, decide_eq_true_eq]
  split
  · rename_i hk
    exact ⟨fun h => absurd hk h.2, nofun⟩
  · rename_i hk
    exact ⟨fun h => h.1, fun h => ⟨h, hk⟩⟩

end Changes

/-! ### Pairs one after another -/

section Pairs

variable {m : OrderedMap α}

theorem insertMany_append (pairs more : List (String × α)) :
    m.insertMany (pairs ++ more) = (m.insertMany pairs).insertMany more :=
  List.foldl_append

/-- Pairs with new and distinct keys are appended. -/
theorem toList_insertMany {pairs : List (String × α)}
    (h : (m.keys ++ pairs.map Prod.fst).Nodup) :
    (m.insertMany pairs).toList = m.toList ++ pairs := by
  induction pairs generalizing m with
  | nil => exact (List.append_nil _).symm
  | cons p rest ih =>
    obtain ⟨key, v⟩ := p
    have hfresh : key ∉ m.keys := fun hm =>
      (List.nodup_append.1 h).2.2 key hm key List.mem_cons_self rfl
    have hinsert := toList_insert_of_not_mem v hfresh
    have hkeys : (m.insert key v).keys = m.keys ++ [key] := by
      rw [keys_insert, if_neg hfresh]
    change ((m.insert key v).insertMany rest).toList = _
    rw [ih (by rwa [hkeys, List.append_assoc]), hinsert, List.append_assoc]
    rfl

theorem toList_ofList {pairs : List (String × α)} (h : (pairs.map Prod.fst).Nodup) :
    (ofList pairs).toList = pairs :=
  toList_insertMany h

/-- A map is made of its own pairs. -/
@[simp] theorem ofList_toList (m : OrderedMap α) : ofList m.toList = m :=
  ext_toList (toList_ofList (m.map_fst_toList ▸ m.nodup_keys))

end Pairs

end OrderedMap

end Bson
