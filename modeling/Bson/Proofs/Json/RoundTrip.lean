import Bson.Json.Reading
import Bson.Proofs.Json.Tokens

/-!
# Written JSON is read back, up to the depth that is allowed

From the tokens of a value the reader builds the value again, and refuses it only where arrays and
objects nest too deep. The induction is on the value, with any stack of open containers: a value
fits on a stack if the containers that are open and those of the value are not too many together.

* `Json.depth`: how deep the arrays and objects of a value nest.
* `Json.run_tokens`: what the reader does with the tokens of a value on a stack.
* `Json.ofText?_pretty`: indented JSON is read as its value, with the doubles that are read back, if
  that nests less than 128 deep, and is refused otherwise.
-/

namespace Bson.Json

mutual

/-- How deep arrays and objects nest in a value, the value itself counted. -/
def depth : Json → Nat
  | .array items => itemsDepth items + 1
  | .object fields => fieldsDepth fields.entries + 1
  | _ => 0

/-- The greatest depth of an item. -/
def itemsDepth : List Json → Nat
  | [] => 0
  | v :: rest => max (depth v) (itemsDepth rest)

/-- The greatest depth of a field. -/
def fieldsDepth : {keys : List String} → Entries Json keys → Nat
  | _, .nil => 0
  | _, .snoc init _ v _ => max (fieldsDepth init) (depth v)

end

mutual

/-- Reading doubles back keeps the depth. -/
theorem depth_reread : ∀ v : Json, v.reread.depth = v.depth
  | .null | .bool _ | .integer _ | .largeInteger _ | .double _ | .string _ => rfl
  | .array items => congrArg (· + 1) (itemsDepth_rereadItems items)
  | .object fields => congrArg (· + 1) (fieldsDepth_rereadFields fields.entries)

theorem itemsDepth_rereadItems : ∀ items : List Json, itemsDepth (rereadItems items) =
    itemsDepth items
  | [] => rfl
  | v :: rest => by
    rw [rereadItems, itemsDepth, itemsDepth, depth_reread v, itemsDepth_rereadItems rest]

theorem fieldsDepth_rereadFields : ∀ {keys : List String} (fields : Entries Json keys),
    fieldsDepth (rereadFields fields) = fieldsDepth fields
  | _, .nil => rfl
  | _, .snoc init key v fresh => by
    rw [rereadFields, fieldsDepth, fieldsDepth, depth_reread v, fieldsDepth_rereadFields init]

end

open State

/-- Takes tokens one after another. -/
def run (state : State) (ts : List Token) : Option State := ts.foldlM step? state

variable {state : State} {stack : List Container} {ts us : List Token}

theorem run_append (state : State) (ts us : List Token) :
    run state (ts ++ us) = (run state ts).bind fun s => run s us := by
  rw [run, List.foldlM_append]
  rfl

theorem run_singleton (state : State) (t : Token) : run state [t] = step? state t := by
  rw [run, List.foldlM_cons]
  cases step? state t <;> rfl

theorem step?_openArray (stack : List Container) :
    step? (.value stack) .openArray =
      if stack.length < State.maxDepth then some (.item stack) else none :=
  rfl

theorem step?_openObject (stack : List Container) :
    step? (.value stack) .openObject =
      if stack.length < State.maxDepth then some (.firstKey stack) else none :=
  rfl

/-- Where an array stands with given items, last first. -/
def afterItems (items : List Json) (stack : List Container) : State :=
  if items.isEmpty then .item stack else .separator (.array items :: stack)

/-- Where an object stands with given fields. -/
def afterFields {keys : List String} (fields : Entries Json keys) (stack : List Container) :
    State :=
  match fields with
  | .nil => .firstKey stack
  | .snoc init key v fresh => .separator (.object ⟨.snoc init key v fresh⟩ key :: stack)

theorem step?_afterItems_closeArray (items : List Json) :
    step? (afterItems items stack) .closeArray = some (complete (.array items.reverse) stack) := by
  cases items <;> rfl

theorem step?_afterFields_closeObject {keys : List String} (fields : Entries Json keys) :
    step? (afterFields fields stack) .closeObject =
      some (complete (.object ⟨fields⟩) stack) := by
  cases fields <;> rfl

/-- The first item of an array may stand where its end may stand too. -/
theorem run_item_tokens (v : Json) :
    run (.item stack) v.tokens = run (.value (.array [] :: stack)) v.tokens := by
  cases v <;> rfl

/-- After the comma, if there is one, an item is read. -/
theorem run_afterItems (items : List Json) (v : Json) :
    run (afterItems items stack) ((if items.isEmpty then [] else [.comma]) ++ v.tokens) =
      run (.value (.array items :: stack)) v.tokens := by
  cases items with
  | nil => exact run_item_tokens v
  | cons => rfl

/-- After the comma, if there is one, and the key a field is read. -/
theorem run_afterFields {keys : List String} (fields : Entries Json keys) (key : String) :
    run (afterFields fields stack)
        ((if keys.isEmpty then [] else [.comma]) ++ [.string key] ++ [.colon]) =
      some (.value (.object ⟨fields⟩ key :: stack)) := by
  cases fields <;> rfl

theorem complete_object {keys : List String} (init : Entries Json keys) (key : String) (v : Json)
    (fresh : key ∉ keys) :
    complete v (.object ⟨init⟩ key :: stack) = afterFields (init.snoc key v fresh) stack := by
  rw [complete, OrderedMap.insert, dif_pos fresh]
  rfl

mutual

/-- The tokens of a value are read as the value on any stack that has room for it. -/
theorem run_tokens : ∀ (v : Json) {stack : List Container}, stack.length ≤ State.maxDepth →
    run (.value stack) v.tokens =
      if stack.length + v.depth ≤ State.maxDepth then some (complete v stack) else none
  | .null, _, h | .bool _, _, h | .integer _, _, h | .largeInteger _, _, h | .double _, _, h
  | .string _, _, h => (if_pos h).symm
  | .array items, stack, _ => by
    rw [tokens, depth, run_append, run_append, run_singleton, step?_openArray]
    by_cases hlt : stack.length < State.maxDepth
    · have hitems : run (.item stack) (itemTokens true items) = _ := run_itemTokens items [] hlt
      rw [List.append_nil] at hitems
      rw [if_pos hlt, Option.bind_some, hitems]
      by_cases hfits : stack.length + 1 + itemsDepth items ≤ State.maxDepth
      · rw [if_pos hfits, if_pos (by omega), Option.bind_some, run_singleton,
          step?_afterItems_closeArray, List.reverse_reverse]
      · rw [if_neg hfits, if_neg (by omega), Option.bind_none]
    · rw [if_neg hlt, if_neg (by omega), Option.bind_none, Option.bind_none]
  | .object fields, stack, _ => by
    rw [tokens, depth, run_append, run_append, run_singleton, step?_openObject]
    by_cases hlt : stack.length < State.maxDepth
    · rw [if_pos hlt, Option.bind_some, run_fieldTokens fields.entries hlt]
      by_cases hfits : stack.length + 1 + fieldsDepth fields.entries ≤ State.maxDepth
      · rw [if_pos hfits, if_pos (by omega), Option.bind_some, run_singleton,
          step?_afterFields_closeObject]
      · rw [if_neg hfits, if_neg (by omega), Option.bind_none]
    · rw [if_neg hlt, if_neg (by omega), Option.bind_none, Option.bind_none]

/-- So are the tokens of items, behind items that stand already. -/
theorem run_itemTokens : ∀ (items acc : List Json) {stack : List Container},
    stack.length < State.maxDepth →
      run (afterItems acc stack) (itemTokens acc.isEmpty items) =
        if stack.length + 1 + itemsDepth items ≤ State.maxDepth then
          some (afterItems (items.reverse ++ acc) stack) else none
  | [], _, _, h => (if_pos h).symm
  | v :: items, acc, stack, h => by
    -- the array is open while its items are read
    have hroom : (Container.array acc :: stack).length ≤ State.maxDepth := h
    rw [itemTokens, itemsDepth, run_append, run_afterItems, run_tokens v hroom, List.length_cons]
    by_cases hfits : stack.length + 1 + v.depth ≤ State.maxDepth
    · have hitems := run_itemTokens items (v :: acc) h
      rw [if_pos hfits, Option.bind_some, List.reverse_cons, List.append_assoc,
        List.singleton_append]
      refine hitems.trans (if_congr ?_ rfl rfl)
      omega
    · rw [if_neg hfits, if_neg (by omega), Option.bind_none]

/-- And the tokens of fields. -/
theorem run_fieldTokens : ∀ {keys : List String} (fields : Entries Json keys)
    {stack : List Container}, stack.length < State.maxDepth →
      run (.firstKey stack) (fieldTokens fields) =
        if stack.length + 1 + fieldsDepth fields ≤ State.maxDepth then
          some (afterFields fields stack) else none
  | _, .nil, _, h => (if_pos h).symm
  | _, @Entries.snoc _ before init key v fresh, stack, h => by
    have hgroup : fieldTokens (init.snoc key v fresh) = fieldTokens init ++
        ((if before.isEmpty then [] else [.comma]) ++ [.string key] ++ [.colon]) ++ v.tokens := by
      simp only [fieldTokens, List.append_assoc]
    have hroom : (Container.object ⟨init⟩ key :: stack).length ≤ State.maxDepth := h
    rw [hgroup, fieldsDepth, run_append, run_append, run_fieldTokens init h]
    by_cases hfits : stack.length + 1 + fieldsDepth init ≤ State.maxDepth
    · rw [if_pos hfits, Option.bind_some, run_afterFields, Option.bind_some,
        run_tokens v hroom, List.length_cons, complete_object init key v fresh]
      refine if_congr ?_ rfl rfl
      omega
    · rw [if_neg hfits, Option.bind_none, Option.bind_none, if_neg (by omega)]

end

theorem ofTokens?_tokens (v : Json) :
    ofTokens? v.tokens = if v.depth ≤ State.maxDepth then some v else none := by
  have hroom : ([] : List Container).length ≤ State.maxDepth := Nat.zero_le _
  have hrun := run_tokens v hroom
  rw [List.length_nil, Nat.zero_add] at hrun
  rw [ofTokens?, ← run, hrun]
  by_cases hfits : v.depth ≤ State.maxDepth
  · rw [if_pos hfits, if_pos hfits, complete]
  · rw [if_neg hfits, if_neg hfits]

/-- **Indented JSON is read as its value, with the doubles that are read back, if arrays and objects
nest less than 128 deep in it, and is refused otherwise.** -/
theorem ofText?_pretty {v : Json} (h : v.Proper) :
    ofText? v.pretty = if v.depth ≤ State.maxDepth then some v.reread else none := by
  rw [ofText?, scan_pretty h, Option.bind_some, ofTokens?_tokens, depth_reread]

end Bson.Json
