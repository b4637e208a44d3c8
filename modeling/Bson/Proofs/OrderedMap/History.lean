import Bson.OrderedMap

/-!
# Maps and their history

What an insertion-ordered map holds after any changes is what the history of the changes says: under
each key the value that was stored last since the key was dropped, and the keys in the order in
which they were first inserted since they were dropped.

* `Edit`: the changes of a map, `Edit.apply` what they do, `Edit.run` the map after many of them.
* `Event`: what changes are made of, `history` the events of many changes.
* `life key h`: the events of a history from the first insertion of a key on since it was dropped.
  `latest?` and `birth` are what it says of the value and the place of the key.
* `life_snoc`: what one more event does to the life of a key.
* `Tells h m`: that a map is as a history says. `Tells.apply`: one more event keeps it so.
* `run_tells`: the map after any changes is as their history says.
-/

namespace Bson.OrderedMap

variable {α : Type}

/-! ### Changes -/

/-- A change of a map. -/
inductive Edit (α : Type)
  | insert (key : String) (value : α)
  | remove (key : String)
  /-- Assigns to the value under a key, if there is one. -/
  | assign (key : String) (value : α)
  | merge (other : OrderedMap α)
  | clear
  /-- Starts over with the given pairs. -/
  | collect (pairs : List (String × α))

namespace Edit

/-- Does a change. A change of one key hands back what was under it. -/
def apply : Edit α → OrderedMap α → Option α × OrderedMap α
  | .insert key value, m => m.getThenInsert? key value
  | .remove key, m => m.getThenErase? key
  | .assign key value, m => m.getThenReplace? key value
  | .merge other, m => (none, m.merge other)
  | .clear, _ => (none, .empty)
  | .collect pairs, _ => (none, .ofList pairs)

/-- The map after changes one after another, the first of them to the empty map. -/
def run (edits : List (Edit α)) : OrderedMap α := edits.foldl (fun m e => (e.apply m).2) .empty

/-- The key of a change of one key. -/
def key? : Edit α → Option String
  | .insert key _ => some key
  | .remove key => some key
  | .assign key _ => some key
  | _ => none

end Edit

/-! ### Events -/

/-- A change of one key, or of all at once. -/
inductive Event (α : Type)
  | insert (key : String) (value : α)
  | assign (key : String) (value : α)
  | remove (key : String)
  | clear

namespace Event

/-- What an event does to a map. -/
def apply : Event α → OrderedMap α → OrderedMap α
  | .insert key value, m => m.insert key value
  | .assign key value, m => m.replace key value
  | .remove key, m => m.erase key
  | .clear, _ => .empty

/-- Whether a key is absent after an event, whatever was before. -/
def drops (key : String) : Event α → Bool
  | .remove k => k = key
  | .clear => true
  | _ => false

/-- Whether an event inserts a key. -/
def inserts (key : String) : Event α → Bool
  | .insert k _ => k = key
  | _ => false

/-- The value that an event stores under a key. -/
def stored? (key : String) : Event α → Option α
  | .insert k value => if k = key then some value else none
  | .assign k value => if k = key then some value else none
  | _ => none

theorem stored?_ne_none {e : Event α} {key : String} (h : e.inserts key) :
    e.stored? key ≠ none := by
  cases e with
  | insert k value =>
    rw [stored?, if_pos (of_decide_eq_true h)]
    exact Option.some_ne_none value
  | _ => cases h

end Event

/-- The events that a change is made of. -/
def Edit.events : Edit α → List (Event α)
  | .insert key value => [.insert key value]
  | .remove key => [.remove key]
  | .assign key value => [.assign key value]
  | .merge other => other.toList.map fun p => .insert p.1 p.2
  | .clear => [.clear]
  | .collect pairs => .clear :: pairs.map fun p => .insert p.1 p.2

/-- The events of changes, in their order. -/
def history (edits : List (Edit α)) : List (Event α) := edits.flatMap Edit.events

/-! ### What a history says of a key -/

/-- The events since a key was last removed or all keys were cleared. -/
def since (key : String) (h : List (Event α)) : List (Event α) :=
  (h.reverse.takeWhile fun e => !e.drops key).reverse

/-- Of these, the events from the first insertion of the key on. There is none if the key is
absent. -/
def life (key : String) (h : List (Event α)) : List (Event α) :=
  (since key h).dropWhile fun e => !e.inserts key

/-- The value that was stored last in the life of a key. -/
def latest? (key : String) (h : List (Event α)) : Option α :=
  ((life key h).filterMap (Event.stored? key)).getLast?

/-- The number of events before the life of a key. -/
def birth (key : String) (h : List (Event α)) : Nat := h.length - (life key h).length

/-- Whether a map is as a history says. -/
structure Tells (h : List (Event α)) (m : OrderedMap α) : Prop where
  get?_eq : ∀ key, m.get? key = latest? key h
  keys_sorted : m.keys.Pairwise fun a b => birth a h < birth b h

/-- Whether the keys, the values and the pairs of a map are those that a look-up finds. -/
structure Coherent (m : OrderedMap α) : Prop where
  nodup : m.keys.Nodup
  keys_eq : m.toList.map Prod.fst = m.keys
  values_eq : m.toList.map Prod.snd = m.values
  mem_toList_iff : ∀ key value, (key, value) ∈ m.toList ↔ m.get? key = some value
  contains_iff : ∀ key, m.contains key ↔ ∃ value, m.get? key = some value
  size_eq : m.size = m.keys.length
  isEmpty_iff : m.isEmpty ↔ m.keys = []

/-! ### One more event -/

section Snoc

variable {h : List (Event α)} {e : Event α} {key : String}

theorem since_snoc :
    since key (h ++ [e]) = if e.drops key then [] else since key h ++ [e] := by
  rw [since, List.reverse_append, List.reverse_singleton, List.singleton_append,
    List.takeWhile_cons]
  cases e.drops key with
  | true => rfl
  | false => exact List.reverse_cons

/-- An event ends the life of a key, goes on with it, or begins it. -/
theorem life_snoc :
    life key (h ++ [e]) =
      if e.drops key then [] else
        if (life key h).isEmpty then (if e.inserts key then [e] else [])
        else life key h ++ [e] := by
  rw [life, since_snoc]
  cases e.drops key with
  | true => rfl
  | false =>
    change (since key h ++ [e]).dropWhile _ = if (life key h).isEmpty then _ else _
    rw [List.dropWhile_append, List.dropWhile_cons]
    cases e.inserts key <;> rfl

theorem life_snoc_of_lives (hdrops : e.drops key = false) (hlives : life key h ≠ []) :
    life key (h ++ [e]) = life key h ++ [e] := by
  have hempty : (life key h).isEmpty = false := List.isEmpty_eq_false_iff.2 hlives
  rw [life_snoc, hdrops, hempty]
  rfl

theorem life_snoc_of_absent (hdrops : e.drops key = false) (habsent : life key h = []) :
    life key (h ++ [e]) = if e.inserts key then [e] else [] := by
  rw [life_snoc, hdrops, habsent]
  rfl

theorem length_life_le (key : String) (h : List (Event α)) :
    (life key h).length ≤ h.length := by
  have hsince : (since key h).length ≤ h.length := by
    have htaken := (List.takeWhile_sublist (l := h.reverse) fun e => !e.drops key).length_le
    rwa [List.length_reverse, ← List.length_reverse] at htaken
  exact Nat.le_trans (List.dropWhile_sublist _).length_le hsince

theorem birth_lt (hlives : life key h ≠ []) : birth key h < h.length := by
  have hpos := List.length_pos_iff.2 hlives
  have hle := length_life_le key h
  rw [birth]
  omega

/-- A key that lives on keeps its place in the order. -/
theorem birth_snoc (hdrops : e.drops key = false) (hlives : life key h ≠ []) :
    birth key (h ++ [e]) = birth key h := by
  rw [birth, life_snoc_of_lives hdrops hlives, birth, List.length_append, List.length_append,
    List.length_singleton, Nat.add_sub_add_right]

/-- A key that is inserted where it was absent comes last. -/
theorem birth_snoc_insert {value : α} (habsent : life key h = []) :
    birth key (h ++ [.insert key value]) = h.length := by
  have hinserts : (Event.insert key value).inserts key = true := decide_eq_true rfl
  rw [birth, life_snoc_of_absent rfl habsent, hinserts, if_pos rfl, List.length_append]
  exact Nat.add_sub_cancel _ _

/-- A live key has a value, that of its first insertion at least. -/
theorem latest?_eq_none_iff : latest? key h = none ↔ life key h = [] := by
  rw [latest?, List.getLast?_eq_none_iff, List.filterMap_eq_nil_iff]
  constructor
  · intro hnone
    apply Classical.byContradiction
    intro hlives
    have hfirst : (!((life key h).head hlives).inserts key) = false :=
      List.head_dropWhile_not (l := since key h) (fun e => !Event.inserts key e) hlives
    exact Event.stored?_ne_none (by simpa using hfirst) (hnone _ (List.head_mem hlives))
  · intro habsent
    rw [habsent]
    exact nofun

/-- An event that inserts nothing under a key and neither drops it stores under it if it is live. -/
theorem latest?_snoc (hdrops : e.drops key = false) (hinserts : e.inserts key = false) :
    latest? key (h ++ [e]) = (latest? key h).map fun v => (e.stored? key).getD v := by
  by_cases hlife : life key h = []
  · rw [latest?, life_snoc_of_absent hdrops hlife, hinserts, latest?_eq_none_iff.2 hlife]
    rfl
  · obtain ⟨v, hv⟩ := Option.ne_none_iff_exists'.1
      fun hnone => hlife (latest?_eq_none_iff.1 hnone)
    rw [hv, latest?, life_snoc_of_lives hdrops hlife, List.filterMap_append]
    rw [latest?] at hv
    cases hstored : e.stored? key <;> simp [hstored, hv]

variable (h) (key) (k : String) (value : α)

theorem latest?_insert :
    latest? k (h ++ [.insert key value]) = if k = key then some value else latest? k h := by
  split
  · rename_i hk
    subst hk
    have hinserts : (Event.insert k value).inserts k = true := decide_eq_true rfl
    have hstored : (Event.insert k value).stored? k = some value := if_pos rfl
    by_cases hlife : life k h = []
    · rw [latest?, life_snoc_of_absent rfl hlife, hinserts]
      simp [hstored]
    · rw [latest?, life_snoc_of_lives rfl hlife]
      simp [hstored]
  · rename_i hk
    have hne : key ≠ k := fun he => hk he.symm
    have hinserts : (Event.insert key value).inserts k = false := decide_eq_false hne
    have hstored : (Event.insert key value).stored? k = none := if_neg hne
    rw [latest?_snoc rfl hinserts, hstored]
    exact Option.map_id'

theorem latest?_assign :
    latest? k (h ++ [.assign key value]) =
      (latest? k h).map fun v => if k = key then value else v := by
  rw [latest?_snoc rfl rfl]
  congr 1
  funext v
  by_cases hk : key = k
  · subst hk
    simp [Event.stored?]
  · have hne : ¬k = key := fun he => hk he.symm
    simp [Event.stored?, hk, hne]

theorem latest?_remove :
    latest? k (h ++ [.remove key]) = if k = key then none else latest? k h := by
  split
  · rename_i hk
    have hdrops : (Event.remove key : Event α).drops k = true := decide_eq_true hk.symm
    rw [latest?_eq_none_iff, life_snoc, if_pos hdrops]
  · rename_i hk
    have hdrops : (Event.remove key : Event α).drops k = false :=
      decide_eq_false fun he => hk he.symm
    rw [latest?_snoc hdrops rfl]
    exact Option.map_id'

theorem latest?_clear : latest? k (h ++ [.clear]) = none := by
  have hdrops : (Event.clear : Event α).drops k = true := rfl
  rw [latest?_eq_none_iff, life_snoc, if_pos hdrops]

end Snoc

/-! ### Maps that are as a history says -/

namespace Tells

variable {h : List (Event α)} {m : OrderedMap α}

theorem empty : Tells [] (.empty : OrderedMap α) where
  get?_eq _ := rfl
  keys_sorted := .nil

/-- A map has the keys that are live. -/
theorem mem_keys_iff (ht : Tells h m) (key : String) : key ∈ m.keys ↔ life key h ≠ [] := by
  rw [ne_eq, ← latest?_eq_none_iff, ← ht.get?_eq, get?_eq_none_iff, Classical.not_not]

/-- Keys that are not dropped come in the same order. -/
theorem sorted_of_kept (ht : Tells h m) {e : Event α} {keys : List String}
    (hsub : keys.Sublist m.keys) (hdrops : ∀ key ∈ keys, e.drops key = false) :
    keys.Pairwise fun a b => birth a (h ++ [e]) < birth b (h ++ [e]) := by
  have hbirth : ∀ key ∈ keys, birth key (h ++ [e]) = birth key h := fun key hkey =>
    birth_snoc (hdrops key hkey) ((ht.mem_keys_iff key).1 (hsub.subset hkey))
  refine (ht.keys_sorted.sublist hsub).imp_of_mem fun ha hb hlt => ?_
  rw [hbirth _ ha, hbirth _ hb]
  exact hlt

/-- An insertion leaves a map as its history says: the key keeps its place if it is there, else it
comes last. -/
theorem insert (ht : Tells h m) (key : String) (value : α) :
    Tells (h ++ [.insert key value]) (m.insert key value) where
  get?_eq k := by rw [get?_insert, ht.get?_eq, latest?_insert]
  keys_sorted := by
    have hkept := ht.sorted_of_kept (e := .insert key value) (.refl _) fun _ _ => rfl
    rw [keys_insert]
    split
    · exact hkept
    · rename_i hnew
      have habsent : life key h = [] :=
        Classical.not_not.1 fun hlives => hnew ((ht.mem_keys_iff key).2 hlives)
      refine List.pairwise_append.2 ⟨hkept, List.pairwise_singleton _ _, fun a ha b hb => ?_⟩
      have hlives := (ht.mem_keys_iff a).1 ha
      rw [List.mem_singleton.1 hb, birth_snoc rfl hlives, birth_snoc_insert habsent]
      exact birth_lt hlives

/-- So does an assignment, which changes nothing without the key. -/
theorem assign (ht : Tells h m) (key : String) (value : α) :
    Tells (h ++ [.assign key value]) (m.replace key value) where
  get?_eq k := by rw [get?_replace, ht.get?_eq, latest?_assign]
  keys_sorted := ht.sorted_of_kept (.refl _) fun _ _ => rfl

/-- So does a removal, which leaves the other keys in their order. -/
theorem remove (ht : Tells h m) (key : String) :
    Tells (h ++ [.remove key]) (m.erase key) where
  get?_eq k := by rw [get?_erase, ht.get?_eq, latest?_remove]
  keys_sorted := by
    rw [keys_erase]
    refine ht.sorted_of_kept List.filter_sublist fun k hk => decide_eq_false fun he => ?_
    exact of_decide_eq_true (List.mem_filter.1 hk).2 he.symm

/-- And the removal of all keys. -/
theorem clear (h : List (Event α)) : Tells (h ++ [.clear]) (.empty : OrderedMap α) where
  get?_eq k := by rw [get?_empty, latest?_clear]
  keys_sorted := .nil

/-- **One event.** A map that is as its history says is so after one more event. -/
theorem apply (ht : Tells h m) (e : Event α) : Tells (h ++ [e]) (e.apply m) := by
  cases e with
  | insert key value => exact ht.insert key value
  | assign key value => exact ht.assign key value
  | remove key => exact ht.remove key
  | clear => exact clear h

/-- And after many. -/
theorem applyAll (ht : Tells h m) (events : List (Event α)) :
    Tells (h ++ events) (events.foldl (fun m e => e.apply m) m) := by
  induction events generalizing h m with
  | nil => rwa [List.append_nil]
  | cons e rest ih =>
    rw [List.append_cons]
    exact ih (ht.apply e)

end Tells

/-! ### Any changes -/

theorem foldl_insert (pairs : List (String × α)) (m : OrderedMap α) :
    (pairs.map fun p => Event.insert p.1 p.2).foldl (fun m e => e.apply m) m =
      m.insertMany pairs := List.foldl_map

/-- A change does what its events do. -/
theorem Edit.apply_eq (edit : Edit α) (m : OrderedMap α) :
    (edit.apply m).2 = edit.events.foldl (fun m e => e.apply m) m := by
  cases edit with
  | merge other => exact (foldl_insert other.toList m).symm
  | collect pairs => exact (foldl_insert pairs .empty).symm
  | _ => rfl

theorem Tells.run {h : List (Event α)} {m : OrderedMap α} (ht : Tells h m)
    (edits : List (Edit α)) :
    Tells (h ++ history edits) (edits.foldl (fun m e => (e.apply m).2) m) := by
  induction edits generalizing h m with
  | nil => rwa [history, List.flatMap_nil, List.append_nil]
  | cons edit rest ih =>
    rw [history, List.flatMap_cons, ← List.append_assoc, List.foldl_cons, edit.apply_eq]
    exact ih (ht.applyAll edit.events)

theorem coherent (m : OrderedMap α) : Coherent m where
  nodup := m.nodup_keys
  keys_eq := m.map_fst_toList
  values_eq := rfl
  mem_toList_iff _ _ := mem_toList_iff
  contains_iff key := by
    rw [contains, List.contains_iff_mem, ← mem_keys]
    constructor
    · intro hkey
      refine Option.ne_none_iff_exists'.1 fun hnone => get?_eq_none_iff.1 hnone hkey
    · rintro ⟨value, hvalue⟩
      exact Classical.not_not.1 fun hkey =>
        Option.some_ne_none value (hvalue.symm.trans (get?_eq_none_iff.2 hkey))
  size_eq := List.length_reverse.symm
  isEmpty_iff := by rw [isEmpty, List.isEmpty_iff, keys, List.reverse_eq_nil_iff]

/-- **A map holds what its history says.** After any changes of the empty map, each key has the
value that was stored last since the key was last removed or the map cleared, and none if the key
was not inserted since; the keys are in the order of their first insertion since they last became
absent, and no key comes twice. A change of one key hands back what was under it before. A key that
is overwritten keeps its place and a new one comes last, and where one is removed the others stay in
their order. The views of the map agree with a look-up. -/
theorem run_tells (edits : List (Edit α)) :
    Tells (history edits) (Edit.run edits) ∧ Coherent (Edit.run edits) ∧
      (∀ edit : Edit α, (edit.apply (Edit.run edits)).1 =
        edit.key?.bind fun key => latest? key (history edits)) ∧
      ∀ key value, ((Edit.run edits).insert key value).keys =
          (if key ∈ (Edit.run edits).keys then (Edit.run edits).keys
            else (Edit.run edits).keys ++ [key]) ∧
        ((Edit.run edits).erase key).keys = (Edit.run edits).keys.filter (· ≠ key) := by
  have ht : Tells (history edits) (Edit.run edits) := Tells.empty.run edits
  refine ⟨ht, coherent _, fun edit => ?_, fun key value =>
    ⟨keys_insert _ key value, keys_erase _ key⟩⟩
  cases edit with
  | insert key value => exact ht.get?_eq key
  | remove key => exact ht.get?_eq key
  | assign key value => exact ht.get?_eq key
  | _ => rfl

/-- A key that is overwritten, one that is removed and inserted again, and an assignment to one that
is absent. -/
example : (Edit.run [.collect [("a", 1), ("b", 2)], .assign "c" 0, .insert "a" 3, .remove "b",
      .merge (.ofList [("c", 4), ("b", 5)])]).toList = [("a", 3), ("c", 4), ("b", 5)] := by
  decide

end Bson.OrderedMap
