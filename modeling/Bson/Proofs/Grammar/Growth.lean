import Bson.Proofs.Grammar.Origins
import Mathlib.Tactic.Ring

/-!
# How long arrays grow

An index may pass over as many places as there are bytes behind its element, and each element of a
frame may do so again. So an array can have more items than its frame has bytes: not many more than
the square of the bytes divided by six.

* `length_items_le_iff`: an array has no more items than a bound exactly if its indices are below.
* `three_le_length_cons`: an element takes three bytes at least.
* `Elements.growth`: the bound for any number of items in front, an element at a time.
* `array_growth`: the statement about the arrays of decoded documents.
* `array_growth_beyond_frame`: an array of 25 items in a frame of 20 bytes.
-/

namespace Bson

open Grammar

namespace Grammar

variable {promote : Bool}

/-! ### Length and greatest index -/

/-- An array has no more items than a bound exactly if no element writes at the bound or behind. -/
theorem length_items_le_iff (es : Elements) (bound : Nat) :
    (es.items promote []).length ≤ bound ↔ ∀ w ∈ es.writes promote, w.1 < bound := by
  have hleaves := Leaves.nil.items promote es
  rw [List.nil_append] at hleaves
  rw [hleaves.length]
  constructor
  · intro hle w hw
    exact Nat.lt_of_lt_of_le (lt_extent_iff.2 ⟨w, hw, Nat.le_refl _⟩) hle
  · intro hw
    refine Nat.le_of_not_lt fun hlt => ?_
    obtain ⟨w, hmem, hle⟩ := lt_extent_iff.1 hlt
    exact absurd (hw w hmem) (Nat.not_lt.2 hle)

/-! ### Growth -/

/-- An element of an array takes three bytes at least: its tag, a digit and the zero byte behind
it. -/
theorem three_le_length_cons {key : String} (hkey : IsIndex key) (p : Payload) (rest : Elements) :
    rest.bytes.length + 3 ≤ (Elements.cons key p rest).bytes.length := by
  have hdigit : utf8 key ≠ [] := by
    intro hnil
    apply hkey.1
    rw [← String.toByteArray_inj]
    apply ByteArray.ext
    apply Array.toList_inj.1
    exact hnil
  have hpos : 0 < (utf8 key).length := List.length_pos_iff.2 hdigit
  rw [bytes_cons]
  simp only [List.length_cons, List.length_append, length_cstring]
  omega

/-- One gap and one item more for each byte behind, then the growth of the rest. -/
theorem growth_step {r s : Nat} (h : r + 3 ≤ s) : 6 * (r + 1) + r * (r - 1) ≤ s * (s - 1) := by
  have hmono : (r + 3) * (r + 2) ≤ s * (s - 1) := Nat.mul_le_mul h (by omega)
  have hexact : 6 * (r + 1) + r * (r - 1) = (r + 3) * (r + 2) := by
    cases r with
    | zero => rfl
    | succ r =>
      rw [Nat.add_sub_cancel]
      ring
  omega

/-- **Growth.** Elements whose gaps are no wider than the bytes behind them make a list longer by no
more than a sixth of the square of their bytes. -/
theorem Elements.growth (promote : Bool) : ∀ (es : Elements) (vs : List Value),
    es.Indexed vs.length →
    6 * (es.items promote vs).length ≤
      6 * vs.length + es.bytes.length * (es.bytes.length - 1)
  | .nil, vs, _ => by
    rw [Elements.items]
    exact Nat.le_add_right _ _
  | .cons key p rest, vs, h => by
    obtain ⟨hkey, hgap, hrest⟩ := h
    have hlength := Frame.length_placed vs (indexOf key) (p.value promote)
    have ih := rest.growth promote (placed vs (indexOf key) (p.value promote)) (hlength ▸ hrest)
    have hstep := growth_step (three_le_length_cons hkey p rest)
    rw [Elements.items]
    omega

end Grammar

/-- An array frame has at most a sixth of the square of its bytes as items. -/
theorem Frame.HoldsArray.growth {data : ByteArray} {start stop : Nat} {es : Elements}
    (h : HoldsArray data start stop es) (promote : Bool) :
    6 * (es.items promote []).length ≤ (stop - start - 5) * (stop - start - 6) := by
  obtain ⟨length, hv, rfl, -⟩ := h
  have hbytes : (Payload.array length es).bytes.length = es.bytes.length + 5 := by
    rw [Payload.bytes, length_enclosed]
  have hgrowth := es.growth promote [] hv.2.2
  rw [hbytes, Nat.add_sub_cancel_left, Nat.add_sub_cancel,
    Nat.add_sub_add_right es.bytes.length 5 1]
  simpa using hgrowth

/-- **How long the arrays of a decoded document are.** Each array that occurs in it, however deep,
was read from an array frame of the input; it has no more items than that frame has bytes exactly if
none of the indices in the frame reaches the number of its bytes, and whatever the indices are, six
times its items are no more than the square of the bytes between its length and its end. -/
theorem array_growth {bytes : ByteArray} {options : DecodeOptions} {d : Document}
    (hd : decode bytes options = .ok d) {n : Nat} {place : Place} {vs : List Value}
    (hv : Occurs d n place (.array vs)) :
    (∃ start stop es, Frame.HoldsArray bytes start stop es ∧
        es.items options.promoteLongs [] = vs) ∧
      ∀ start stop es, Frame.HoldsArray bytes start stop es →
        es.items options.promoteLongs [] = vs →
          (vs.length ≤ stop - start ↔
            ∀ w ∈ es.writes options.promoteLongs, w.1 < stop - start) ∧
          6 * vs.length ≤ (stop - start - 5) * (stop - start - 6) := by
  refine ⟨array_frame_of_decode hd hv, ?_⟩
  rintro start stop es hes rfl
  exact ⟨length_items_le_iff es _, hes.growth _⟩

/-- An array of an array, in which the key `3` passes over three places. -/
def nestedArrays : ByteArray :=
  ⟨#[27, 0, 0, 0, 4, 97, 0, 19, 0, 0, 0, 4, 48, 0, 11, 0, 0, 0, 10, 51, 0, 10, 52, 0, 0, 0, 0]⟩

/-- The elements of the inner array. -/
def passingElements : Elements := .cons "3" .null (.cons "4" .null .nil)

/-- The inner array has five items in eleven bytes, as many as there can be. -/
theorem array_growth_nested :
    ∃ d, decode nestedArrays {} = .ok d ∧
      Occurs d 2 .item (.array [.undefined, .undefined, .undefined, .null, .null]) ∧
      Frame.HoldsArray nestedArrays 14 25 passingElements ∧
      (5 ≤ 25 - 14 ↔ ∀ w ∈ passingElements.writes true, w.1 < 25 - 14) ∧
      6 * 5 = (25 - 14 - 5) * (25 - 14 - 6) ∧ 6 * 5 ≤ (25 - 14 - 5) * (25 - 14 - 6) := by
  have hd : decode nestedArrays {} = .ok (.ofList [("a", .array [.array
      [.undefined, .undefined, .undefined, .null, .null]])]) := by rfl
  have hocc : Occurs (.ofList [("a", .array [.array
      [.undefined, .undefined, .undefined, .null, .null]])]) 2 .item
      (.array [.undefined, .undefined, .undefined, .null, .null]) :=
    .item (.field List.mem_cons_self) List.mem_cons_self
  obtain ⟨clean3, index3⟩ := Frame.indexKey "3" 3 rfl
  obtain ⟨clean4, index4⟩ := Frame.indexKey "4" 4 rfl
  have hes : Frame.HoldsArray nestedArrays 14 25 passingElements :=
    ⟨11, ⟨⟨rfl, trivial, trivial, trivial⟩, ⟨clean3, trivial, clean4, trivial, trivial⟩,
      ⟨index3, by decide, index4, by decide, trivial⟩⟩, rfl, by decide⟩
  obtain ⟨hiff, hle⟩ := (array_growth hd hocc).2 14 25 passingElements hes rfl
  exact ⟨_, hd, hocc, hes, hiff, rfl, hle⟩

/-- A document with one array, whose keys `9`, `18` and `23` pass over as many places as there are
bytes behind their elements. -/
def sparseDocument : ByteArray :=
  ⟨#[28, 0, 0, 0, 4, 97, 0, 20, 0, 0, 0, 10, 57, 0, 10, 49, 56, 0, 10, 50, 51, 0, 10, 50, 52, 0, 0,
    0]⟩

/-- The elements of the array. -/
def sparseElements : Elements :=
  .cons "9" .null (.cons "18" .null (.cons "23" .null (.cons "24" .null .nil)))

/-- The elements of the document. -/
def sparseFields : Elements := .cons "a" (.array 20 sparseElements) .nil

/-- Its array has 25 items, in a frame of 20 bytes. -/
theorem array_growth_beyond_frame :
    ∃ d vs, decode sparseDocument {} = .ok d ∧ Occurs d 1 .field (.array vs) ∧
      Frame.HoldsArray sparseDocument 7 27 sparseElements ∧ sparseElements.items true [] = vs ∧
      vs.length = 25 ∧ ¬vs.length ≤ 27 - 7 := by
  obtain ⟨clean9, index9⟩ := Frame.indexKey "9" 9 rfl
  obtain ⟨clean18, index18⟩ := Frame.indexKey "18" 18 rfl
  obtain ⟨clean23, index23⟩ := Frame.indexKey "23" 23 rfl
  obtain ⟨clean24, index24⟩ := Frame.indexKey "24" 24 rfl
  have hvalid : (Payload.array 20 sparseElements).Valid :=
    ⟨⟨rfl, trivial, trivial, trivial, trivial, trivial⟩,
      ⟨clean9, trivial, clean18, trivial, clean23, trivial, clean24, trivial, trivial⟩,
      ⟨index9, by decide, index18, by decide, index23, by decide, index24, by decide, trivial⟩⟩
  have hmeans : Frame.MeansDocument true maxDepth sparseFields _ :=
    ⟨⟨⟨hvalid.1, trivial⟩, nulFree_iff.2 (by decide), hvalid.2, trivial⟩, by decide, rfl⟩
  have hmeasures : MeasuresFrame 28 sparseFields.bytes := by rfl
  obtain ⟨hmin, r, hr, hread⟩ : minDocumentSize ≤ sparseDocument.size ∧ _ :=
    readDocument_enclosed hmeasures hmeans (by decide)
  have hd : decode sparseDocument {} = .ok _ := decode_eq_ok.2 ⟨hmin, r, hr, by rw [hread]⟩
  exact ⟨_, _, hd, .field List.mem_cons_self, ⟨20, hvalid, rfl, by decide⟩, rfl, rfl, by decide⟩

end Bson
