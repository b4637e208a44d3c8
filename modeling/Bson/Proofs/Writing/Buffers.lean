import Bson.Proofs.Writing.Encode

/-!
# Writing into a buffer

What becomes of a buffer into which a document is written, also if the document does not fit or
has a fault.

* `Spliced`: a buffer with bytes in place of some of those of another one. `SameOutside`: two
  buffers that differ within a range only.
* `writeInto_of_le`, `writeInto_of_lt`, `writeInto_of_error`: the three ways in which writing ends.
* `writeInto_agrees`: writing into a buffer and encoding agree, and nothing else is touched.
-/

namespace Bson

open Grammar

/-! ### Buffers with bytes put into them -/

/-- After bytes were put over those of a buffer from a position on. -/
structure Spliced (start : Nat) (bytes : List UInt8) (before after : ByteArray) : Prop where
  stop_le : start + bytes.length ≤ before.size
  toList_eq : after.data.toList =
    before.data.toList.take start ++ (bytes ++ before.data.toList.drop (start + bytes.length))

/-- Two buffers of one size with the same bytes outside a range. -/
structure SameOutside (start stop : Nat) (before after : ByteArray) : Prop where
  size_eq : after.size = before.size
  byte_eq (i : Nat) : i < start ∨ stop ≤ i → after.data[i]? = before.data[i]?

namespace Spliced

variable {start : Nat} {bytes : List UInt8} {before after : ByteArray}

theorem length_take (h : Spliced start bytes before after) :
    (before.data.toList.take start).length = start := by
  have := h.stop_le
  rw [List.length_take, length_toList_data]
  omega

/-- What was put where determines the buffer. -/
theorem unique {after' : ByteArray} (h : Spliced start bytes before after)
    (h' : Spliced start bytes before after') : after = after' :=
  ByteArray.ext (Array.toList_inj.1 (h.toList_eq.trans h'.toList_eq.symm))

/-- The bytes stand where they were put. -/
theorem extract_eq (h : Spliced start bytes before after) :
    after.extract start (start + bytes.length) = bytes.toByteArray := by
  refine ByteArray.ext (Array.toList_inj.1 ?_)
  rw [ByteArray.data_extract, Array.toList_extract, List.extract_eq_take_drop, h.toList_eq,
    List.drop_append_of_le_length (Nat.le_of_eq h.length_take.symm),
    List.drop_of_length_le (Nat.le_of_eq h.length_take), List.nil_append, Nat.add_sub_cancel_left,
    List.take_left, List.toList_data_toByteArray]

theorem sameOutside (h : Spliced start bytes before after) {stop : Nat}
    (hstop : start + bytes.length ≤ stop) : SameOutside start stop before after := by
  have hle := h.stop_le
  have hlen := h.length_take
  have hsize := length_toList_data before
  constructor
  · rw [← length_toList_data after, h.toList_eq, List.length_append, List.length_append, hlen,
      List.length_drop]
    omega
  · intro i hi
    rw [← Array.getElem?_toList, ← Array.getElem?_toList, h.toList_eq]
    rcases hi with hi | hi
    · rw [List.getElem?_append_left (by omega), List.getElem?_take_of_lt hi]
    · rw [List.getElem?_append_right (by omega), List.getElem?_append_right (by omega),
        List.getElem?_drop]
      congr 1
      omega

end Spliced

theorem Window.HoldsFrom.spliced {buffer : ByteArray} {offset maxSize : Nat} {w : Window}
    {l : List UInt8} (h : (ofBuffer buffer offset maxSize).HoldsFrom w l) :
    Spliced (min offset buffer.size) l buffer w.buffer :=
  ⟨Nat.le_trans h.position_le (ofBuffer_inBuffer buffer offset maxSize).limit_le, h.buffer_eq⟩

/-! ### How writing ends -/

section Endings

variable {d : Document} {options : EncodeOptions} {dest : ByteArray} {offset : Nat}

/-- A document that fits is written. -/
theorem writeInto_of_le {p : Payload} (hp : Layout.document options.toWriteOptions d = .ok p)
    (hfits : p.bytes.length ≤ room dest offset options.maxSize) :
    ∃ dest', writeInto d offset options dest =
        .ok (min offset dest.size + p.bytes.length) dest' ∧
      Spliced (min offset dest.size) p.bytes dest dest' := by
  obtain ⟨w, hrun, hholds⟩ := (Writer.document_ofBuffer hp).window_ok hfits
  refine ⟨w.buffer, ?_, hholds.spliced⟩
  unfold writeInto
  rw [hrun]
  exact congrArg (EStateM.Result.ok · w.buffer) hholds.position_eq

/-- A document that does not fit is refused. -/
theorem writeInto_of_lt {p : Payload} (hp : Layout.document options.toWriteOptions d = .ok p)
    (hfull : room dest offset options.maxSize < p.bytes.length) :
    ∃ dest' l, writeInto d offset options dest =
        .error (.sizeExceeded (room dest offset options.maxSize)) dest' ∧
      l.length ≤ room dest offset options.maxSize ∧
      Spliced (min offset dest.size) l dest dest' := by
  obtain ⟨w, l, hrun, hholds⟩ := (Writer.document_ofBuffer hp).window_full hfull
  refine ⟨w.sink.buffer, l, ?_, hholds.length_le, hholds.spliced⟩
  unfold writeInto
  rw [hrun]

/-- A document with a fault fails with it, or is refused before. -/
theorem writeInto_of_error {e : Error} (hp : Layout.document options.toWriteOptions d = .error e) :
    ∃ e' dest' l, writeInto d offset options dest = .error e' dest' ∧
      (e' = e ∨ e' = .sizeExceeded (room dest offset options.maxSize)) ∧
      l.length ≤ room dest offset options.maxSize ∧
      Spliced (min offset dest.size) l dest dest' := by
  obtain ⟨e', w, l, hrun, he, hholds⟩ := (Writer.document_ofBuffer hp).window_error
  refine ⟨e', w.sink.buffer, l, ?_, he, hholds.length_le, hholds.spliced⟩
  unfold writeInto
  rw [hrun]

/-- A document that is written fits and stands in the buffer. -/
theorem writeInto_eq_ok {stop : Nat} {dest' : ByteArray}
    (h : writeInto d offset options dest = .ok stop dest') :
    ∃ p, Layout.document options.toWriteOptions d = .ok p ∧
      p.bytes.length ≤ room dest offset options.maxSize ∧
      stop = min offset dest.size + p.bytes.length ∧
      Spliced (min offset dest.size) p.bytes dest dest' := by
  cases hp : Layout.document options.toWriteOptions d with
  | error e =>
    obtain ⟨e', _, _, hrun, -⟩ := writeInto_of_error hp
    cases h.symm.trans hrun
  | ok p =>
    by_cases hfits : p.bytes.length ≤ room dest offset options.maxSize
    · obtain ⟨_, hrun, hspliced⟩ := writeInto_of_le hp hfits
      cases h.symm.trans hrun
      exact ⟨p, rfl, hfits, rfl, hspliced⟩
    · obtain ⟨_, _, hrun, -⟩ := writeInto_of_lt hp (Nat.not_le.1 hfits)
      cases h.symm.trans hrun

/-- A failure changes nothing outside the room. -/
theorem writeInto_eq_error {e : Error} {dest' : ByteArray}
    (h : writeInto d offset options dest = .error e dest') :
    SameOutside (min offset dest.size) (min offset dest.size + room dest offset options.maxSize)
      dest dest' := by
  cases hp : Layout.document options.toWriteOptions d with
  | error e =>
    obtain ⟨_, _, l, hrun, -, hl, hspliced⟩ := writeInto_of_error hp
    cases h.symm.trans hrun
    exact hspliced.sameOutside (Nat.add_le_add_left hl _)
  | ok p =>
    by_cases hfits : p.bytes.length ≤ room dest offset options.maxSize
    · obtain ⟨_, hrun, -⟩ := writeInto_of_le hp hfits
      cases h.symm.trans hrun
    · obtain ⟨_, l, hrun, hl, hspliced⟩ := writeInto_of_lt hp (Nat.not_le.1 hfits)
      cases h.symm.trans hrun
      exact hspliced.sameOutside (Nat.add_le_add_left hl _)

end Endings

/-- **Writing into a buffer agrees with encoding and touches nothing else.** Where encoding without
a limit gives some bytes, they are written from the offset on if there is room for them, whatever
stood there, and refused otherwise; where it gives a fault of the document, writing gives the same
fault, or a refusal if the room ends first. Outside the bytes that were written, or outside the room
after a failure, the buffer is as it was. -/
theorem writeInto_agrees (d : Document) (options : EncodeOptions) (dest : ByteArray)
    (offset : Nat) :
    let start := min offset dest.size
    let room := min options.maxSize (dest.size - start)
    (∀ maxSize bytes, encode d { options with maxSize } = .ok bytes →
      (bytes.size ≤ room → ∃ dest',
        writeInto d offset options dest = .ok (start + bytes.size) dest' ∧
          dest'.extract start (start + bytes.size) = bytes ∧
          SameOutside start (start + bytes.size) dest dest') ∧
      (room < bytes.size → ∃ dest',
        writeInto d offset options dest = .error (.sizeExceeded room) dest')) ∧
    (∀ e, Layout.document options.toWriteOptions d = .error e →
      Layout.IsFault e ∧ (∀ maxSize, encode d { options with maxSize } = .error e) ∧
        ∃ e' dest', writeInto d offset options dest = .error e' dest' ∧
          (e' = e ∨ e' = .sizeExceeded room)) ∧
    ∀ e dest', writeInto d offset options dest = .error e dest' →
      SameOutside start (start + room) dest dest' := by
  refine ⟨fun maxSize bytes henc => ?_, fun e he => ?_, fun e dest' h => writeInto_eq_error h⟩
  · obtain ⟨p, hp, -, rfl⟩ := encode_eq_ok.1 henc
    change Layout.document options.toWriteOptions d = .ok p at hp
    rw [List.size_toByteArray]
    refine ⟨fun hfits => ?_, fun hfull => ?_⟩
    · obtain ⟨dest', hrun, hspliced⟩ := writeInto_of_le hp hfits
      exact ⟨dest', hrun, hspliced.extract_eq, hspliced.sameOutside (Nat.le_refl _)⟩
    · obtain ⟨dest', _, hrun, -⟩ := writeInto_of_lt hp hfull
      exact ⟨dest', hrun⟩
  · refine ⟨Layout.document_isFault he, fun maxSize => ?_, ?_⟩
    · rw [encode_eq, he]
      rfl
    · obtain ⟨e', dest', _, hrun, he', -⟩ := writeInto_of_error he
      exact ⟨e', dest', hrun, he'⟩

/-- Twelve bytes go into a buffer of twenty from its fifth byte on, and are refused from its
thirteenth on. -/
theorem writeInto_agrees_twice :
    ∃ dest bytes : ByteArray, dest.data = .replicate 20 0xFF ∧
      encode (.ofList [("a", .int32 1)]) {} = .ok bytes ∧
      (∃ dest', writeInto (.ofList [("a", .int32 1)]) 4 {} dest = .ok 16 dest' ∧
        dest'.extract 4 16 = bytes ∧ SameOutside 4 16 dest dest') ∧
      ∃ dest', writeInto (.ofList [("a", .int32 1)]) 12 {} dest = .error (.sizeExceeded 8) dest' ∧
        SameOutside 12 20 dest dest' := by
  have henc : encode (.ofList [("a", .int32 1)]) { maxSize := defaultMaxSize } =
      .ok [12, 0, 0, 0, 16, 97, 0, 1, 0, 0, 0, 0].toByteArray :=
    encode_eq_ok.2 ⟨.document 12 (.cons "a" (.int32 1) .nil), by rfl, by decide, by rfl⟩
  have hagrees := writeInto_agrees (.ofList [("a", .int32 1)]) { maxSize := defaultMaxSize }
    ⟨.replicate 20 0xFF⟩
  obtain ⟨dest', hrefused⟩ := ((hagrees 12).1 _ _ henc).2 (by decide)
  exact ⟨_, _, rfl, henc, ((hagrees 4).1 _ _ henc).1 (by decide), dest', hrefused,
    (hagrees 12).2.2 _ _ hrefused⟩

end Bson
