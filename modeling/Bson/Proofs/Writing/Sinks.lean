import Bson.Proofs.Writing.Layout
import Bson.Sink.Tally
import Bson.Sink.Window

/-!
# What sinks have in common

A sink that keeps a `Sink.Law` holds the bytes that were put into it, takes more of them as long as
they fit, refuses with one error what does not fit, and fills in tags and lengths where it reserved
them.

* `Tally.law`: a tally keeps the law, everything fits, and what it knows of its bytes is their
  number.
* `Window.law`: a window keeps it, with the bytes in their place and the rest of the buffer as it
  was.
-/

namespace Bson

open Grammar

/-- What the steps of a sink do, in terms of the bytes it holds. -/
structure Sink.Law (σ : Type) [Sink σ] where
  /-- That a sink holds bytes. -/
  Holds : σ → List UInt8 → Prop
  /-- That there is room for a number of bytes in all. -/
  Fits : Nat → Prop
  /-- The error of a step for which there is no room. -/
  fault : Error
  /-- The position of the first byte. -/
  base : Nat
  fits_of_le {m n : Nat} : m ≤ n → Fits n → Fits m
  fits_of_holds {s : σ} {l : List UInt8} : Holds s l → Fits l.length
  size_eq {s : σ} {l : List UInt8} : Holds s l → Sink.size s = l.length
  put {s : σ} {l : List UInt8} (b : ByteArray) : Holds s l →
    (Fits (l.length + b.size) ∧ ∃ s', Sink.put b s = .ok s' ∧ Holds s' (l ++ b.data.toList)) ∨
      (¬Fits (l.length + b.size) ∧ Sink.put b s = .error fault)
  reserve {s : σ} {l : List UInt8} (n : Nat) : Holds s l →
    (Fits (l.length + n) ∧ ∃ s', Sink.reserve n s = .ok (base + l.length, s') ∧
        Holds s' (l ++ List.replicate n 0)) ∨
      (¬Fits (l.length + n) ∧ Sink.reserve n s = .error fault)
  commitTag {s : σ} {l m : List UInt8} (tag : Tag) : Holds s (l ++ ([0] ++ m)) →
    Holds (Sink.commitTag (base + l.length) tag s) (l ++ ([tag.toByte] ++ m))
  commitLength {s : σ} {l m : List UInt8} : Holds s (l ++ (List.replicate 4 0 ++ m)) →
    Holds (Sink.commitLength (base + l.length) s)
      (l ++ (int32 (Int32.ofNat (m.length + 4)) ++ m))

/-- A tally counts whatever it is given. -/
def Tally.law : Sink.Law Tally where
  Holds t l := t.count = l.length
  Fits _ := True
  fault := .sizeExceeded 0
  base := 0
  fits_of_le _ _ := trivial
  fits_of_holds _ := trivial
  size_eq h := h
  put b h := .inl ⟨trivial, _, rfl, by simpa using h⟩
  reserve n h := .inl ⟨trivial, _, by rw [Nat.zero_add, ← h]; rfl, by simpa using h⟩
  commitTag tag h := by simpa [Sink.commitTag] using h
  commitLength {s l m} h := by
    simp only [List.length_append, List.length_replicate] at h
    simp only [Sink.commitLength, List.length_append, length_int32, h]

/-! ### Windows -/

theorem toList_overwrite {buffer bytes : ByteArray} {front old back : List UInt8}
    (hb : buffer.data.toList = front ++ (old ++ back)) (ho : old.length = bytes.size) :
    (overwrite buffer front.length bytes).data.toList = front ++ (bytes.data.toList ++ back) := by
  have hsize : buffer.size = front.length + (old.length + back.length) := by
    rw [← List.length_append, ← List.length_append, ← hb, length_toList_data]
  have hbytes := length_toList_data bytes
  have hcopied : min bytes.size (bytes.data.size - 0) = old.length := by
    rw [ho]
    exact Nat.min_self bytes.size
  have hrest : buffer.data.size - (front.length + old.length) = back.length := by
    change buffer.size - _ = _
    omega
  rw [overwrite, if_pos (by omega)]
  simp only [ByteArray.copySlice, Array.toList_append, Array.toList_extract,
    List.extract_eq_take_drop, hb, hcopied, hrest]
  rw [← List.append_assoc front old, ← List.length_append, List.drop_left, List.take_length]
  simp only [Nat.sub_zero, Nat.zero_add, List.drop_zero, List.append_assoc, List.take_left,
    List.take_of_length_le (Nat.le_of_eq hbytes)]

theorem toList_zeroBytes (n : Nat) : (zeroBytes n).data.toList = List.replicate n 0 := by
  induction n with
  | zero => rfl
  | succ n ih =>
    change ((zeroBytes n).data.push 0).toList = _
    rw [Array.toList_push, ih, List.replicate_succ']

namespace Window

/-- A window lies in its buffer. -/
structure InBuffer (w : Window) : Prop where
  start_le : w.start ≤ w.limit
  limit_le : w.limit ≤ w.buffer.size

theorem ofBuffer_inBuffer (buffer : ByteArray) (start maxSize : Nat) :
    (ofBuffer buffer start maxSize).InBuffer := by
  constructor
  · simp only [ofBuffer]
    omega
  · simp only [ofBuffer]
    omega

/-- The bytes that a window was given stand from its start on; the rest of the buffer is as it
was in `w₀`. -/
structure HoldsFrom (w₀ w : Window) (l : List UInt8) : Prop where
  start_eq : w.start = w₀.start
  limit_eq : w.limit = w₀.limit
  position_eq : w.position = w₀.start + l.length
  position_le : w₀.start + l.length ≤ w₀.limit
  buffer_eq : w.buffer.data.toList =
    w₀.buffer.data.toList.take w₀.start ++ (l ++ w₀.buffer.data.toList.drop (w₀.start + l.length))

variable {w₀ w : Window}

theorem HoldsFrom.put {l : List UInt8} (h₀ : w₀.InBuffer) (h : w₀.HoldsFrom w l)
    {b : ByteArray} (hfits : w₀.start + (l.length + b.size) ≤ w₀.limit) :
    ∃ w', w.put b = .ok w' ∧ w₀.HoldsFrom w' (l ++ b.data.toList) := by
  have hb := length_toList_data b
  have hlen := length_toList_data w₀.buffer
  have hlimit := h₀.limit_le
  rw [Window.put, if_pos (by rw [h.position_eq, h.limit_eq]; omega)]
  refine ⟨_, rfl, h.start_eq, h.limit_eq, ?_, ?_, ?_⟩
  · simp only [h.position_eq, List.length_append, hb]
    omega
  · rw [List.length_append, hb]
    exact hfits
  · -- the bytes go over the next ones of the buffer
    have hsplit : w.buffer.data.toList = (w₀.buffer.data.toList.take w₀.start ++ l) ++
        ((w₀.buffer.data.toList.drop (w₀.start + l.length)).take b.size ++
          w₀.buffer.data.toList.drop (w₀.start + (l ++ b.data.toList).length)) := by
      have hnext : w₀.buffer.data.toList.drop (w₀.start + (l ++ b.data.toList).length) =
          (w₀.buffer.data.toList.drop (w₀.start + l.length)).drop b.size := by
        rw [List.drop_drop, List.length_append, hb, Nat.add_assoc]
      rw [h.buffer_eq, hnext, List.take_append_drop, List.append_assoc]
    have hfront : (w₀.buffer.data.toList.take w₀.start ++ l).length = w.position := by
      rw [List.length_append, List.length_take, h.position_eq]
      omega
    simp only [← hfront]
    rw [toList_overwrite hsplit (by rw [List.length_take, List.length_drop]; omega)]
    simp only [List.append_assoc]

theorem HoldsFrom.put_error {l : List UInt8} (h : w₀.HoldsFrom w l) {b : ByteArray}
    (hfits : ¬w₀.start + (l.length + b.size) ≤ w₀.limit) :
    w.put b = .error (.sizeExceeded w₀.capacity) := by
  rw [Window.put, if_neg (by rw [h.position_eq, h.limit_eq]; omega), capacity, capacity,
    h.start_eq, h.limit_eq]

/-- Bytes that take the place of as many others leave the rest where it is. -/
theorem HoldsFrom.patch {l old m : List UInt8} (h₀ : w₀.InBuffer)
    (h : w₀.HoldsFrom w (l ++ (old ++ m))) {b : ByteArray} (hb : old.length = b.size) :
    w₀.HoldsFrom (w.patch (w₀.start + l.length) b) (l ++ (b.data.toList ++ m)) := by
  have hlen : (l ++ (b.data.toList ++ m)).length = (l ++ (old ++ m)).length := by
    have := length_toList_data b
    simp only [List.length_append]
    omega
  have hstart : (w₀.buffer.data.toList.take w₀.start ++ l).length = w₀.start + l.length := by
    have := length_toList_data w₀.buffer
    have := h₀.start_le
    have := h₀.limit_le
    rw [List.length_append, List.length_take]
    omega
  refine ⟨h.start_eq, h.limit_eq, by rw [hlen]; exact h.position_eq,
    by rw [hlen]; exact h.position_le, ?_⟩
  have hsplit := h.buffer_eq
  rw [List.append_assoc l, List.append_assoc old, ← List.append_assoc _ l] at hsplit
  rw [Window.patch, ← hstart, toList_overwrite hsplit hb, hlen]
  simp only [List.append_assoc]

/-- A window keeps the law of sinks. -/
def law (w₀ : Window) (h₀ : w₀.InBuffer) : Sink.Law Window where
  Holds := w₀.HoldsFrom
  Fits n := w₀.start + n ≤ w₀.limit
  fault := .sizeExceeded w₀.capacity
  base := w₀.start
  fits_of_le hmn hn := by omega
  fits_of_holds h := h.position_le
  size_eq h := by simp only [Sink.size, h.position_eq, h.start_eq]; omega
  put b h := by
    rcases Decidable.em (w₀.start + (_ + b.size) ≤ w₀.limit) with hfits | hfits
    · exact .inl ⟨hfits, h.put h₀ hfits⟩
    · exact .inr ⟨hfits, h.put_error hfits⟩
  reserve n h := by
    have hn := size_zeroBytes n
    rcases Decidable.em (w₀.start + (_ + n) ≤ w₀.limit) with hfits | hfits
    · obtain ⟨w', hw, hholds⟩ := h.put h₀ (b := zeroBytes n) (by rwa [hn])
      refine .inl ⟨hfits, w', ?_, toList_zeroBytes n ▸ hholds⟩
      rw [← h.position_eq]
      exact congrArg (Except.map (_, ·)) hw
    · refine .inr ⟨hfits, ?_⟩
      exact congrArg (Except.map (_, ·)) (h.put_error (b := zeroBytes n) (by rwa [hn]))
  commitTag tag h := h.patch h₀ rfl
  commitLength {w l m} h := by
    have hpatch := h.patch h₀ (b := LittleEndian.ofInt32 (Int32.ofNat (m.length + 4))) rfl
    have hlength : Int32.ofInt (w.position - (w₀.start + l.length : Nat)) =
        Int32.ofNat (m.length + 4) := by
      rw [h.position_eq, ← Int32.ofInt_eq_ofNat]
      congr 1
      simp only [List.length_append, List.length_replicate]
      omega
    have hcommit : Sink.commitLength (w₀.start + l.length) w =
        w.patch (w₀.start + l.length) (LittleEndian.ofInt32 (Int32.ofNat (m.length + 4))) :=
      congrArg (fun n => w.patch _ (LittleEndian.ofInt32 n)) hlength
    rw [hcommit]
    exact hpatch

end Window

end Bson
