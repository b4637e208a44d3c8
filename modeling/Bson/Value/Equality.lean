import Bson.Value.Basic

/-!
# Equality of values

Values are equal if they are of one kind and their contents are. Doubles compare as numbers, so a
NaN differs from itself; documents compare as sets of fields, whatever their order; hooks are equal
if one is a copy of the other, whatever they return.
-/

namespace Bson

mutual

/-- Whether two values are equal. -/
def Value.beq : Value → Value → Bool
  | .double x, .double y => x.ieeeEq y
  | .boxedDouble x, .boxedDouble y => x.ieeeEq y
  | .int32 m, .int32 n => m = n
  | .long m, .long n => m = n
  | .string s, .string t => s = t
  | .document d, .document e => d.size == e.size && Entries.allIn d.entries e
  | .array xs, .array ys => Value.beqItems xs ys
  | .binary a, .binary b => a = b
  | .bytes a, .bytes b => a = b
  | .objectId a, .objectId b => a = b
  | .boolean a, .boolean b => a = b
  | .dateTime m, .dateTime n => m = n
  | .null, .null => true
  | .undefined, .undefined => true
  | .regex a, .regex b => a = b
  | .code s, .code t => s = t
  | .scopedCode s d, .scopedCode t e =>
    s = t && d.size == e.size && Entries.allIn d.entries e
  | .function s, .function t => s = t
  | .symbol s, .symbol t => s = t
  | .timestamp a, .timestamp b => a = b
  | .minKey, .minKey => true
  | .maxKey, .maxKey => true
  | .dbRef c i b, .dbRef c' i' b' => c = c' && i.beq i' && b = b'
  | .hook a _, .hook b _ => a = b
  | .brokenHook v, .brokenHook w => v.beq w
  | _, _ => false

/-- Whether two lists have equal values in the same places. -/
def Value.beqItems : List Value → List Value → Bool
  | [], [] => true
  | x :: xs, y :: ys => x.beq y && Value.beqItems xs ys
  | _, _ => false

/-- Whether every field of the entries has an equal one in a document. -/
def Entries.allIn : {keys : List String} → Entries Value keys → Document → Bool
  | _, .nil, _ => true
  | _, .snoc init key v _, d =>
    Entries.allIn init d && match d.get? key with
      | some w => v.beq w
      | none => false

end

instance : BEq Value := ⟨Value.beq⟩

/-- Whether two documents are equal. -/
def OrderedMap.beq (d e : Document) : Bool := Value.beq (.document d) (.document e)

instance : BEq Document := ⟨OrderedMap.beq⟩

end Bson
