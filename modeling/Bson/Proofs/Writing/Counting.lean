import Bson.Proofs.Writing.Buffers

/-!
# Counting before writing

Counting and writing take the same steps, so a count tells how writing ends: well if the bytes fit,
and with a refusal if they do not.

* `Predicts`: that a run over a window ends as the run over a tally tells.
* `Writes.predicts`: so it is for whatever a writer appends to every sink.
* `encodedSize_eq_ok_iff`: the count of a document is the size of its encoding.
* `counting_predicts_writing`: all of it, for values, documents and arrays.
-/

namespace Bson

open Grammar

/-- What a run over a tally tells of the same run over a window with some room. If the bytes that
were counted fit, the run ends with the same result and as many bytes, else it is refused; where
counting meets a fault, writing meets it too unless it is refused before. -/
def Predicts {α : Type} (room : Nat) :
    EStateM.Result Error (Writer Tally) α → EStateM.Result Error (Writer Window) α → Prop
  | .ok a counted, run =>
    (counted.sink.count ≤ room →
      ∃ w, run = .ok a w ∧ Sink.size w.sink = counted.sink.count) ∧
    (room < counted.sink.count → ∃ w, run = .error (.sizeExceeded room) w)
  | .error e _, run => ∃ e' w, run = .error e' w ∧ (e' = e ∨ e' = .sizeExceeded room)

section Runs

variable {α : Type} {depth : Nat} {buffer : ByteArray} {offset maxSize : Nat}

/-- Counting tells how writing ends if both append the same. -/
theorem Writes.predicts {counting : WriteM Tally α} {writing : WriteM Window α}
    {x : Except Error (α × List UInt8)} (hcounting : Writes Tally.law depth counting x)
    (hwriting : Writes.OfBuffer buffer offset maxSize depth writing x) :
    Predicts (room buffer offset maxSize) (counting ⟨({} : Tally), depth⟩)
      (writing ⟨.ofBuffer buffer offset maxSize, depth⟩) := by
  cases x with
  | error e =>
    obtain ⟨t, hcount⟩ := hcounting.tally_error_from {}
    obtain ⟨e', w, _, hrun, he, -⟩ := hwriting.window_error
    rw [hcount]
    exact ⟨e', w, hrun, he⟩
  | ok p =>
    obtain ⟨a, bytes⟩ := p
    rw [hcounting.tally_ok]
    refine ⟨fun hfits => ?_, fun hfull => ?_⟩
    · obtain ⟨w, hrun, hholds⟩ := hwriting.window_ok hfits
      exact ⟨_, hrun, (Window.law _ (Window.ofBuffer_inBuffer _ _ _)).size_eq hholds⟩
    · obtain ⟨w, _, hrun, -⟩ := hwriting.window_full hfull
      exact ⟨w, hrun⟩

end Runs

/-- The count of a document is the size of its encoding, whatever the greatest size if it is not
below the count. -/
theorem encodedSize_eq_ok_iff {d : Document} {keepFunctions : Bool} {n maxSize : Nat}
    (h : n ≤ maxSize) :
    encodedSize d keepFunctions = .ok n ↔
      ∃ b, encode d { checkKeys := false, keepFunctions, maxSize } = .ok b ∧ b.size = n := by
  have hcount : encodedSize d keepFunctions = .ok n ↔
      ∃ p, Layout.document { checkKeys := false, keepFunctions } d = .ok p ∧
        p.bytes.length = n := by
    unfold encodedSize
    rw [countBytes_eq]
    cases Layout.document { checkKeys := false, keepFunctions } d <;> simp [Except.map]
  rw [hcount]
  constructor
  · rintro ⟨p, hp, rfl⟩
    exact ⟨_, encode_eq_ok.2 ⟨p, hp, h, rfl⟩, List.size_toByteArray⟩
  · rintro ⟨b, hb, rfl⟩
    obtain ⟨p, hp, -, rfl⟩ := encode_eq_ok.1 hb
    exact ⟨p, hp, List.size_toByteArray.symm⟩

/-- A greater greatest size does not change an encoding. -/
theorem encode_of_le {d : Document} {options : EncodeOptions} {b : ByteArray} {maxSize : Nat}
    (h : encode d options = .ok b) (hle : options.maxSize ≤ maxSize) :
    encode d { options with maxSize } = .ok b := by
  obtain ⟨p, hp, hsize, hb⟩ := encode_eq_ok.1 h
  exact encode_eq_ok.2 ⟨p, hp, Nat.le_trans hsize hle, hb⟩

/-- Nor what is written into a buffer. -/
theorem writeInto_of_maxSize_le {d : Document} {offset : Nat} {options : EncodeOptions}
    {dest dest' : ByteArray} {stop maxSize : Nat}
    (h : writeInto d offset options dest = .ok stop dest') (hle : options.maxSize ≤ maxSize) :
    writeInto d offset { options with maxSize } dest = .ok stop dest' := by
  obtain ⟨p, hp, hfits, rfl, hspliced⟩ := writeInto_eq_ok h
  let raised : EncodeOptions := { options with maxSize }
  have hp : Layout.document raised.toWriteOptions d = .ok p := hp
  have hroom : p.bytes.length ≤ room dest offset raised.maxSize := by
    refine Nat.le_trans hfits ?_
    change min options.maxSize _ ≤ min maxSize _
    omega
  obtain ⟨dest'', hrun, hspliced'⟩ := writeInto_of_le hp hroom
  rw [hrun, hspliced'.unique hspliced]

/-- **Counting tells how writing ends.** Whatever value, document or array is given to a writer, at
whatever depth, over a fresh tally and over a fresh window: if the count is within the room, the run
over the window ends with the same tag and as many bytes; if it is beyond the room, the run is
refused; and if counting meets a fault, so does the run, or it is refused. So a document has the
size that is counted for it, and a greater greatest size changes nothing that was written. -/
theorem counting_predicts_writing (options : WriteOptions) (depth : Nat) (buffer : ByteArray)
    (offset maxSize : Nat) :
    let window := Window.ofBuffer buffer offset maxSize
    let room := min maxSize (buffer.size - min offset buffer.size)
    (∀ v, Predicts room (Writer.value options v ⟨({} : Tally), depth⟩)
      (Writer.value options v ⟨window, depth⟩)) ∧
    (∀ d, Predicts room (Writer.document options d ⟨({} : Tally), depth⟩)
      (Writer.document options d ⟨window, depth⟩)) ∧
    (∀ list, Predicts room (Writer.array options list ⟨({} : Tally), depth⟩)
      (Writer.array options list ⟨window, depth⟩)) ∧
    (∀ d keepFunctions n, n ≤ maxSize →
      (encodedSize d keepFunctions = .ok n ↔
        ∃ b, encode d { checkKeys := false, keepFunctions, maxSize } = .ok b ∧ b.size = n)) ∧
    ∀ d greater, maxSize ≤ greater →
      (∀ b, encode d { toWriteOptions := options, maxSize } = .ok b →
        encode d { toWriteOptions := options, maxSize := greater } = .ok b) ∧
      ∀ stop written,
        writeInto d offset { toWriteOptions := options, maxSize } buffer = .ok stop written →
        writeInto d offset { toWriteOptions := options, maxSize := greater } buffer =
          .ok stop written := by
  refine ⟨fun v => ?_, fun d => ?_, fun list => ?_, fun d keepFunctions n hn => ?_,
    fun d greater hle => ⟨fun b hb => ?_, fun stop written h => ?_⟩⟩
  · exact (Writer.value_writes v depth).predicts (Writer.value_writes v depth)
  · exact (Writer.document_writesAt d depth).predicts (Writer.document_writesAt d depth)
  · exact (Writer.array_writesAt list depth).predicts (Writer.array_writesAt list depth)
  · exact encodedSize_eq_ok_iff hn
  · exact encode_of_le hb hle
  · exact writeInto_of_maxSize_le h hle

/-- Forty-one bytes are counted, written from the tenth byte of fifty on, refused from the eleventh
on, and encoded with every greatest size from forty-one on. -/
theorem counting_predicts_writing_nested :
    (∃ counted, Writer.document {} nestedDocument ⟨({} : Tally), 0⟩ = .ok () counted ∧
      counted.sink.count = 41) ∧
      (∃ w, Writer.document {} nestedDocument ⟨Window.ofBuffer (zeroBytes 50) 9 41, 0⟩ = .ok () w ∧
        Sink.size w.sink = 41) ∧
      (∃ w, Writer.document {} nestedDocument ⟨Window.ofBuffer (zeroBytes 50) 10 41, 0⟩ =
        .error (.sizeExceeded 40) w) ∧
      encodedSize nestedDocument false = .ok 41 ∧ 41 ≤ defaultMaxSize ∧
      ∃ b, b.size = 41 ∧ encode nestedDocument { maxSize := 41 } = .ok b ∧
        encode nestedDocument { maxSize := defaultMaxSize } = .ok b := by
  obtain ⟨counted, hcount, hcounted⟩ : ∃ counted : Writer Tally,
      Writer.document {} nestedDocument ⟨({} : Tally), 0⟩ = .ok () counted ∧
        counted.sink.count = 41 := by
    have h : Writes Tally.law 0 (Writer.document {} nestedDocument) _ :=
      Writer.document_writes nestedDocument
    rw [layout_nestedDocument] at h
    exact ⟨_, h.tally_ok, by rfl⟩
  have hle : 41 ≤ defaultMaxSize := by decide
  have hroom : ∀ offset, min 41 ((zeroBytes 50).size - min offset (zeroBytes 50).size) =
      min 41 (50 - min offset 50) := fun offset => by rw [size_zeroBytes]
  obtain ⟨-, hdocument, -, hsize, hgreater⟩ :=
    counting_predicts_writing {} 0 (zeroBytes 50) 9 41
  have hfits := hdocument nestedDocument
  rw [hcount, hroom, Predicts, hcounted] at hfits
  have hfull := (counting_predicts_writing {} 0 (zeroBytes 50) 10 41).2.1 nestedDocument
  rw [hcount, hroom, Predicts, hcounted] at hfull
  have hencoded : encodedSize nestedDocument false = .ok 41 := by
    change countBytes {} nestedDocument = _
    rw [countBytes, hcount, ← hcounted]
  obtain ⟨b, hb, hbsize⟩ := (hsize nestedDocument false 41 (Nat.le_refl _)).1 hencoded
  exact ⟨⟨_, hcount, hcounted⟩, hfits.1 (by decide), hfull.2 (by decide), hencoded, hle, b, hbsize,
    hb, (hgreater nestedDocument _ hle).1 b hb⟩

end Bson
