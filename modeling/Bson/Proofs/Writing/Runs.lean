import Bson.Proofs.Writing.Writes

/-!
# Runs over a fresh sink

How a writer ends that starts with nothing written, in terms of the bytes that it should append.

* `room`: the number of bytes that may be written into a buffer.
* `Writes.tally_ok_from`, `Writes.tally_error_from`: a tally counts the bytes and meets the fault.
  `Writes.tally_ok`: so does a fresh one.
* `Writes.window_ok`: a window with room for the bytes receives them.
* `Writes.window_full`, `Writes.window_error`: without the room, and where there is a fault, the
  window is left with some bytes that fit into it.
* `Writer.document_ofBuffer`: all this holds of a document and its layout.
-/

namespace Bson

open Grammar

/-- The room in a buffer from an offset on: up to a greatest size and to the end of the buffer. -/
def room (buffer : ByteArray) (offset maxSize : Nat) : Nat :=
  min maxSize (buffer.size - min offset buffer.size)

/-! ### Fresh windows -/

namespace Window

variable {buffer : ByteArray} {offset maxSize : Nat}

theorem holds_nil :
    (ofBuffer buffer offset maxSize).HoldsFrom (ofBuffer buffer offset maxSize) [] := by
  refine ⟨rfl, rfl, rfl, (ofBuffer_inBuffer buffer offset maxSize).start_le, ?_⟩
  rw [List.nil_append, List.length_nil, Nat.add_zero, List.take_append_drop]

theorem capacity_ofBuffer :
    (ofBuffer buffer offset maxSize).capacity = room buffer offset maxSize := by
  simp only [capacity, ofBuffer, room]
  omega

theorem fits_iff {n : Nat} :
    (ofBuffer buffer offset maxSize).start + (0 + n) ≤ (ofBuffer buffer offset maxSize).limit ↔
      n ≤ room buffer offset maxSize := by
  simp only [ofBuffer, room]
  omega

theorem HoldsFrom.length_le {w : Window} {l : List UInt8}
    (h : (ofBuffer buffer offset maxSize).HoldsFrom w l) :
    l.length ≤ room buffer offset maxSize := by
  rw [← fits_iff, Nat.zero_add]
  exact h.position_le

end Window

/-! ### Whole runs -/

variable {σ α : Type} {depth : Nat} {a : α} {bytes : List UInt8} {e : Error}

theorem Stops.eq_error [Sink σ] {law : Sink.Law σ} {l : List UInt8}
    {run : EStateM.Result Error (Writer σ) α} (h : Stops law l e run) :
    ∃ w l', run = .error e w ∧ law.Holds w.sink (l ++ l') := by
  cases run with
  | ok b w => exact h.elim
  | error e' w =>
    obtain ⟨rfl, l', hl⟩ := h
    exact ⟨w, l', rfl, hl⟩

namespace Writes

/-- From any count on, what is written is counted. -/
theorem tally_ok_from {m : WriteM Tally α} (h : Writes Tally.law depth m (.ok (a, bytes)))
    (t : Tally) : m ⟨t, depth⟩ = .ok a ⟨⟨t.count + bytes.length⟩, depth⟩ := by
  have hcounted : t.count = (List.replicate t.count (0 : UInt8)).length :=
    List.length_replicate.symm
  rcases h t _ hcounted with ⟨-, t', hrun, hcount⟩ | ⟨hfull, -⟩
  · have ht : t' = ⟨t.count + bytes.length⟩ := by
      refine congrArg Tally.mk (hcount.trans ?_)
      rw [List.length_append, List.length_replicate]
    exact ht ▸ hrun
  · exact absurd trivial hfull

theorem tally_error_from {m : WriteM Tally α} (h : Writes Tally.law depth m (.error e))
    (t : Tally) : ∃ w, m ⟨t, depth⟩ = .error e w := by
  have hcounted : t.count = (List.replicate t.count (0 : UInt8)).length :=
    List.length_replicate.symm
  rcases h t _ hcounted with hstop | ⟨⟨_, hfull⟩, -⟩
  · obtain ⟨w, -, hrun, -⟩ := hstop.eq_error
    exact ⟨w, hrun⟩
  · exact absurd trivial hfull

theorem tally_ok {m : WriteM Tally α} (h : Writes Tally.law depth m (.ok (a, bytes))) :
    m ⟨({} : Tally), depth⟩ = .ok a ⟨⟨bytes.length⟩, depth⟩ := by
  rw [h.tally_ok_from, Nat.zero_add]

section Windows

variable {buffer : ByteArray} {offset maxSize : Nat} {m : WriteM Window α}

/-- At a depth, a writer does what `x` says to the window of a buffer. -/
abbrev OfBuffer (buffer : ByteArray) (offset maxSize depth : Nat) (m : WriteM Window α)
    (x : Except Error (α × List UInt8)) : Prop :=
  Writes (Window.law _ (Window.ofBuffer_inBuffer buffer offset maxSize)) depth m x

theorem window_ok (h : OfBuffer buffer offset maxSize depth m (.ok (a, bytes)))
    (hfits : bytes.length ≤ room buffer offset maxSize) :
    ∃ w, m ⟨.ofBuffer buffer offset maxSize, depth⟩ = .ok a ⟨w, depth⟩ ∧
      (Window.ofBuffer buffer offset maxSize).HoldsFrom w bytes := by
  rcases h _ [] Window.holds_nil with ⟨-, w, hrun, hholds⟩ | ⟨hfull, -⟩
  · exact ⟨w, hrun, hholds⟩
  · exact absurd (Window.fits_iff.2 hfits) hfull

theorem window_full (h : OfBuffer buffer offset maxSize depth m (.ok (a, bytes)))
    (hfull : room buffer offset maxSize < bytes.length) :
    ∃ w l, m ⟨.ofBuffer buffer offset maxSize, depth⟩ =
        .error (.sizeExceeded (room buffer offset maxSize)) w ∧
      (Window.ofBuffer buffer offset maxSize).HoldsFrom w.sink l := by
  rw [← Window.capacity_ofBuffer]
  rcases h _ [] Window.holds_nil with ⟨-, w, -, hholds⟩ | ⟨-, hstop⟩
  · exact absurd hholds.length_le (Nat.not_le.2 hfull)
  · exact hstop.eq_error

theorem window_error (h : OfBuffer buffer offset maxSize depth m (.error e)) :
    ∃ e' w l, m ⟨.ofBuffer buffer offset maxSize, depth⟩ = .error e' w ∧
      (e' = e ∨ e' = .sizeExceeded (room buffer offset maxSize)) ∧
      (Window.ofBuffer buffer offset maxSize).HoldsFrom w.sink l := by
  rw [← Window.capacity_ofBuffer]
  rcases h _ [] Window.holds_nil with hstop | ⟨-, hstop⟩
  · obtain ⟨w, l, hrun, hholds⟩ := hstop.eq_error
    exact ⟨e, w, l, hrun, .inl rfl, hholds⟩
  · obtain ⟨w, l, hrun, hholds⟩ := hstop.eq_error
    exact ⟨_, w, l, hrun, .inr rfl, hholds⟩

end Windows

end Writes

/-- A document is written into a window as it is laid out. -/
theorem Writer.document_ofBuffer {options : WriteOptions} {d : Document} {buffer : ByteArray}
    {offset maxSize : Nat} {x : Except Error Payload} (hp : Layout.document options d = x) :
    Writes.OfBuffer buffer offset maxSize 0 (Writer.document options d)
      (x.map fun p => ((), p.bytes)) := by
  subst hp
  exact Writer.document_writes d

end Bson
