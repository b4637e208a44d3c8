import Bson.Proofs.Grammar.Placement
import Bson.Proofs.RoundTrip.Occurrences

/-!
# Where decoded values come from

Whatever occurs in a decoded document, however deep, is what a well-formed payload of the input
stands for, or a place of an array that was passed over.

* `Value.ReadFrom`: a value that a payload of an input stands for. `Value.PartsReadFrom`: what is
  said of its parts, one case for each kind that has any.
* `Elements.document_readFrom`, `Elements.items_readFrom`: what the elements of a frame store and
  place was read from the input that holds them.
* `Value.ReadFrom.parts`: the parts of a value that was read were read too.
* `Occurs.readFrom`: so was all that occurs in a document.
* `array_frame_of_decode`: an array in a decoded document was read from an array frame.
-/

namespace Bson

open Grammar

/-- Whether a value is what a well-formed payload of an input stands for. -/
def Value.ReadFrom (data : ByteArray) (promote : Bool) (v : Value) : Prop :=
  ∃ p : Payload, p.Valid ∧ p.bytes <:+: data.data.toList ∧ p.value promote = v

/-- Whether the parts of a value were read from an input, and the items of an array from an array
frame. -/
def Value.PartsReadFrom (data : ByteArray) (promote : Bool) : Value → Prop
  | .document d => ∀ q ∈ d.toList, q.2.ReadFrom data promote
  | .array vs =>
    (∃ start stop es, Frame.HoldsArray data start stop es ∧ es.items promote [] = vs) ∧
      ∀ v ∈ vs, v = .undefined ∨ v.ReadFrom data promote
  | .scopedCode _ scope => ∀ q ∈ scope.toList, q.2.ReadFrom data promote
  | .dbRef _ id _ => id.ReadFrom data promote
  | _ => True

section

variable {data : ByteArray} {promote : Bool}

/-! ### The elements of a frame -/

namespace Grammar

theorem infix_enclosed (length : Int32) (content : List UInt8) :
    content <:+: enclosed length content :=
  ⟨int32 length, [0], by rw [enclosed, List.append_assoc]⟩

theorem payload_infix_cons (key : String) (p : Payload) (rest : Elements) :
    p.bytes <:+: (Elements.cons key p rest).bytes :=
  ⟨p.tag.toByte :: cstring key, rest.bytes, by
    rw [bytes_cons, List.cons_append, List.cons_append, List.append_assoc]⟩

theorem rest_infix_cons (key : String) (p : Payload) (rest : Elements) :
    rest.bytes <:+: (Elements.cons key p rest).bytes :=
  ⟨p.tag.toByte :: (cstring key ++ p.bytes), [], by
    rw [bytes_cons, List.append_nil, List.cons_append, List.append_assoc]⟩

/-- The fields that elements store were read from the input that holds the elements. -/
theorem Elements.document_readFrom : ∀ (es : Elements) {d : Document}, es.Valid →
    es.bytes <:+: data.data.toList → (∀ q ∈ d.toList, q.2.ReadFrom data promote) →
      ∀ q ∈ (es.document promote d).toList, q.2.ReadFrom data promote
  | .nil, d, _, _, h => by rwa [Elements.document]
  | .cons key p rest, d, hv, hin, h => by
    obtain ⟨-, hp, hrest⟩ := Frame.valid_cons.1 hv
    have hstored : (p.value promote).ReadFrom data promote :=
      ⟨p, hp, (payload_infix_cons key p rest).trans hin, rfl⟩
    rw [Elements.document]
    exact rest.document_readFrom hrest ((rest_infix_cons key p rest).trans hin)
      (OrderedMap.forall_mem_toList_insert h hstored)

/-- So were the items that they place, but for the places that are passed over. -/
theorem Elements.items_readFrom : ∀ (es : Elements) {vs : List Value}, es.Valid →
    es.bytes <:+: data.data.toList → (∀ v ∈ vs, v = .undefined ∨ v.ReadFrom data promote) →
      ∀ v ∈ es.items promote vs, v = .undefined ∨ v.ReadFrom data promote
  | .nil, vs, _, _, h => by rwa [Elements.items]
  | .cons key p rest, vs, hv, hin, h => by
    obtain ⟨-, hp, hrest⟩ := Frame.valid_cons.1 hv
    rw [Elements.items]
    refine rest.items_readFrom hrest ((rest_infix_cons key p rest).trans hin) fun v hmem => ?_
    rcases mem_placed hmem with hold | hgap | rfl
    · exact h v hold
    · exact .inl hgap
    · exact .inr ⟨p, hp, (payload_infix_cons key p rest).trans hin, rfl⟩

/-- Fields that are stored from the elements of a frame were read. -/
theorem Elements.readFrom (es : Elements) (hv : es.Valid) (hin : es.bytes <:+: data.data.toList) :
    ∀ q ∈ (es.document promote .empty).toList, q.2.ReadFrom data promote :=
  es.document_readFrom hv hin fun _ hq => absurd hq List.not_mem_nil

end Grammar

/-! ### What occurs -/

/-- The bytes of an array frame that are in an input stand somewhere in it. -/
theorem Frame.exists_holdsArray {length : Int32} {es : Elements}
    (hv : (Payload.array length es).Valid)
    (hin : (Payload.array length es).bytes <:+: data.data.toList) :
    ∃ start stop, HoldsArray data start stop es := by
  obtain ⟨front, back, hdata⟩ := hin
  refine ⟨front.length, _, length, hv, rfl, back, ?_⟩
  rw [← hdata, List.append_assoc, List.drop_left]

/-- The parts of a value that was read were read too. -/
theorem Value.ReadFrom.parts {v : Value} (h : v.ReadFrom data promote) :
    v.PartsReadFrom data promote := by
  obtain ⟨p, hv, hin, rfl⟩ := h
  cases p with
  | document length fields =>
    have hfields : ∀ q ∈ (fields.document promote .empty).toList, q.2.ReadFrom data promote :=
      fields.readFrom ⟨hv.1.2, hv.2⟩ ((infix_enclosed length fields.bytes).trans hin)
    rw [Payload.value]
    rcases (fields.document promote .empty).asReference_cases with
      ⟨-, href⟩ | ⟨_, id, _, href, -, hid, -⟩
    · rw [href]
      exact hfields
    · rw [href]
      exact hfields (idKey, id) (OrderedMap.mem_toList_of_get? hid)
  | array length items =>
    obtain ⟨start, stop, hholds⟩ := Frame.exists_holdsArray hv hin
    exact ⟨⟨start, stop, items, hholds, rfl⟩, items.items_readFrom ⟨hv.1.2, hv.2.1⟩
      ((infix_enclosed length items.bytes).trans hin) fun _ h => absurd h List.not_mem_nil⟩
  | scopedCode total length source scopeLength scope =>
    have hscope :
        scope.bytes <:+: (Payload.scopedCode total length source scopeLength scope).bytes :=
      (infix_enclosed scopeLength scope.bytes).trans
        ⟨Grammar.int32 total ++ enclosed length (utf8 source), [], by
          rw [Payload.bytes, List.append_nil, List.append_assoc]⟩
    exact scope.readFrom ⟨hv.1.2.2.2, hv.2⟩ (hscope.trans hin)
  | int64 low high =>
    rw [Payload.value, Grammar.int64Value]
    split <;> trivial
  | _ => trivial

/-- What occurs in a document whose fields were read was read, or is a place of an array that was
passed over. -/
theorem Occurs.readFrom {d : Document} {n : Nat} {place : Place} {v : Value}
    (hd : ∀ q ∈ d.toList, q.2.ReadFrom data promote) (h : Occurs d n place v) :
    v = .undefined ∨ v.ReadFrom data promote := by
  induction h with
  | field mem => exact .inr (hd _ mem)
  | inner _ mem ih => exact .inr ((ih.resolve_left nofun).parts _ mem)
  | scope _ mem ih => exact .inr ((ih.resolve_left nofun).parts _ mem)
  | item _ mem ih => exact (ih.resolve_left nofun).parts.2 _ mem
  | id _ ih => exact .inr (ih.resolve_left nofun).parts

end

/-- The fields of a decoded document were read from its input. -/
theorem readFrom_of_decode {bytes : ByteArray} {options : DecodeOptions} {d : Document}
    (h : decode bytes options = .ok d) :
    ∀ q ∈ d.toList, q.2.ReadFrom bytes options.promoteLongs := by
  obtain ⟨length, es, -, ⟨hvalid, -, rfl⟩, hstarts⟩ := frame_of_decode h
  exact es.readFrom hvalid ((infix_enclosed length es.bytes).trans hstarts.isInfix)

/-- An array that occurs in a decoded document was read from an array frame of the input. -/
theorem array_frame_of_decode {bytes : ByteArray} {options : DecodeOptions} {d : Document}
    (h : decode bytes options = .ok d) {n : Nat} {place : Place} {vs : List Value}
    (hv : Occurs d n place (.array vs)) :
    ∃ start stop es, Frame.HoldsArray bytes start stop es ∧
      es.items options.promoteLongs [] = vs :=
  ((hv.readFrom (readFrom_of_decode h)).resolve_left nofun).parts.1

end Bson
