import Bson.Codec
import Bson.Proofs.Writing.Runs

/-!
# Encoding is layout

Counting and writing both follow the layout of the document, so an encoding is the bytes of the
layout, if there are not too many of them, and its fault is that of the layout.

* `countBytes_eq`: counting gives the number of the bytes.
* `writeWindow_eq_ok`: a buffer with enough room receives the bytes.
* `encode_eq`: the encoding.
* `encode_eq_layout`: the same, with the lengths in the encoding.
-/

namespace Bson

open Grammar

variable {options : WriteOptions} {d : Document}

/-- Counting gives the number of the bytes that are laid out. -/
theorem countBytes_eq :
    countBytes options d = (Layout.document options d).map fun p => p.bytes.length := by
  have h : Writes Tally.law 0 (Writer.document options d) _ := Writer.document_writes d
  unfold countBytes
  cases hp : Layout.document options d with
  | error e =>
    rw [hp] at h
    obtain ⟨t, hrun⟩ := h.tally_error_from {}
    rw [hrun]
    rfl
  | ok p =>
    rw [hp] at h
    rw [h.tally_ok]
    rfl

/-- A buffer with enough room receives the bytes of the layout. -/
theorem writeWindow_eq_ok (buffer : ByteArray) (offset maxSize : Nat) {p : Payload}
    (hp : Layout.document options d = .ok p) (hfits : p.bytes.length ≤ room buffer offset maxSize) :
    ∃ w, writeWindow options d (.ofBuffer buffer offset maxSize) = .ok w ∧
      (Window.ofBuffer buffer offset maxSize).HoldsFrom w p.bytes := by
  obtain ⟨w, hrun, hholds⟩ := (Writer.document_ofBuffer hp).window_ok hfits
  unfold writeWindow
  rw [hrun]
  exact ⟨w, rfl, hholds⟩

/-- Encoding gives the bytes of the layout or its fault, unless the bytes are too many. -/
theorem encode_eq (d : Document) (options : EncodeOptions) :
    encode d options = (Layout.document options.toWriteOptions d).bind fun p =>
      if p.bytes.length ≤ options.maxSize then .ok p.bytes.toByteArray
      else .error (.sizeExceeded options.maxSize) := by
  unfold encode
  rw [countBytes_eq]
  cases hp : Layout.document options.toWriteOptions d with
  | error e => rfl
  | ok p =>
    change (if options.maxSize < p.bytes.length then _ else _ : Except Error ByteArray) =
      if p.bytes.length ≤ options.maxSize then _ else _
    by_cases hsize : p.bytes.length ≤ options.maxSize
    · rw [if_pos hsize, if_neg (Nat.not_lt.2 hsize)]
      have hzero := size_zeroBytes p.bytes.length
      obtain ⟨w, hw, hholds⟩ := writeWindow_eq_ok (zeroBytes p.bytes.length) 0 options.maxSize hp
        (by rw [room, hzero]; omega)
      have hsize : Sink.size w = p.bytes.length :=
        (Window.law _ (Window.ofBuffer_inBuffer _ 0 options.maxSize)).size_eq hholds
      change (writeWindow _ _ _).bind _ = _
      rw [hw]
      refine congrArg Except.ok (ByteArray.ext (Array.toList_inj.1 ?_))
      rw [ByteArray.data_extract, Array.toList_extract, List.extract_eq_take_drop, hsize,
        hholds.buffer_eq]
      simp [Window.ofBuffer]
    · rw [if_neg hsize, if_pos (Nat.lt_of_not_le hsize)]
      rfl

/-- Documents with the same layout have the same encoding. -/
theorem encode_congr {d d' : Document} {options : EncodeOptions}
    (h : Layout.document options.toWriteOptions d = Layout.document options.toWriteOptions d') :
    encode d options = encode d' options := by
  rw [encode_eq, encode_eq, h]

theorem encode_eq_ok {d : Document} {options : EncodeOptions} {b : ByteArray} :
    encode d options = .ok b ↔ ∃ p, Layout.document options.toWriteOptions d = .ok p ∧
      p.bytes.length ≤ options.maxSize ∧ b = p.bytes.toByteArray := by
  rw [encode_eq]
  cases Layout.document options.toWriteOptions d with
  | error e => exact ⟨nofun, fun ⟨_, hp, _⟩ => nomatch hp⟩
  | ok p =>
    change (if p.bytes.length ≤ options.maxSize then _ else _) = _ ↔ _
    split
    · rename_i hsize
      simp [hsize, eq_comm]
    · rename_i hsize
      simp [hsize]

/-- **Encoding is layout, and every length in it is right.** Encoding gives the fault of the
layout if it has one, the bytes of the layout if they are few enough, and else the refusal of their
number. With a greatest size that a length field holds, each length in an encoding is that of what
it stands in front of. -/
theorem encode_eq_layout (d : Document) (options : EncodeOptions)
    (hmax : options.maxSize ≤ maxLengthField) :
    (encode d options = match Layout.document options.toWriteOptions d with
      | .error e => .error e
      | .ok p =>
        if p.bytes.length ≤ options.maxSize then .ok p.bytes.toByteArray
        else .error (.sizeExceeded options.maxSize)) ∧
      ∀ b, encode d options = .ok b → ∃ p, Layout.document options.toWriteOptions d = .ok p ∧
        b.data.toList = p.bytes ∧ p.Measured true := by
  refine ⟨?_, fun b hb => ?_⟩
  · rw [encode_eq]
    cases Layout.document options.toWriteOptions d <;> rfl
  · obtain ⟨p, hp, hsize, rfl⟩ := encode_eq_ok.1 hb
    refine ⟨p, hp, List.toList_data_toByteArray, ?_⟩
    exact Layout.payload_measured (.document d) hp (Nat.le_trans hsize hmax)

/-- A document with a field that is left out, an array in which the same value is kept, and code
with a scope. -/
def nestedDocument : Document :=
  .ofList [("u", .undefined), ("a", .array [.undefined, .boolean true]),
    ("c", .scopedCode "f" (.ofList [("x", .minKey)]))]

/-- Its layout. -/
theorem layout_nestedDocument : Layout.document {} nestedDocument = .ok (.document 41
    (.cons "a" (.array 12 (.cons "0" .null (.cons "1" (.boolean 1) .nil)))
      (.cons "c" (.scopedCode 18 2 "f" 8 (.cons "x" .minKey .nil)) .nil))) := by
  rfl

/-- The lengths in an encoding with three kinds of frame. -/
theorem encode_eq_layout_nested :
    defaultMaxSize ≤ maxLengthField ∧
      encode nestedDocument {} = .ok [41, 0, 0, 0, 4, 97, 0, 12, 0, 0, 0, 10, 48, 0, 8, 49, 0, 1,
        0, 15, 99, 0, 18, 0, 0, 0, 2, 0, 0, 0, 102, 0, 8, 0, 0, 0, 255, 120, 0, 0, 0].toByteArray ∧
      ∃ p, Layout.document {} nestedDocument = .ok p ∧ p.bytes.length = 41 ∧
        p.Measured true := by
  have hp := layout_nestedDocument
  have hmax : defaultMaxSize ≤ maxLengthField := by decide
  have henc := (encode_eq_layout nestedDocument { maxSize := defaultMaxSize } hmax).1
  rw [hp] at henc
  obtain ⟨p, hp', -, hmeasured⟩ := (encode_eq_layout _ _ hmax).2 _ henc
  cases hp.symm.trans hp'
  exact ⟨hmax, henc, _, hp, rfl, hmeasured⟩

end Bson
