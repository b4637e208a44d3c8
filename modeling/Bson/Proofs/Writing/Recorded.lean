import Bson.Proofs.Writing.Buffers
import Bson.Proofs.Writing.Ledger

/-!
# Sinks keep their ledgers

After any calls, a window holds the chunks of its ledger and nothing else of the buffer has
changed.

* `Window.Takes`: that steps on a window append chunks, up to the first for which there is no room.
  `Takes.claim`: so does a claim.
* `Window.Records`: that a window holds what a ledger says. `Records.call` is one call,
  `Records.run` are several.
* `Ledger.tally_agrees`: as long as no call fails, a tally answers as a ledger that starts at zero.
* `Window.calls_recorded`: what is known of a window after any calls.
-/

namespace Bson

open Grammar

/-! ### Windows -/

namespace Window

variable {w₀ w : Window} {α β : Type}

theorem HoldsFrom.length_le_capacity {l : List UInt8} (h : w₀.HoldsFrom w l) :
    l.length ≤ w₀.capacity := by
  have := h.position_le
  unfold capacity
  omega

/-- Steps on a window append chunks, up to the first for which there is no room, and fail if there
is one. -/
def Takes (w₀ : Window) (m : SinkM Window α) (result : Nat → α) (chunks : List Chunk) : Prop :=
  ∀ w l, w₀.HoldsFrom w l → ∃ w',
    w₀.HoldsFrom w' (l ++ Chunk.bytesOf (Chunk.fitting (w₀.capacity - l.length) chunks)) ∧
      m w =
        if l.length + (Chunk.bytesOf chunks).length ≤ w₀.capacity then .ok (result w.position) w'
        else .error (.sizeExceeded w₀.capacity) w'

namespace Takes

theorem of_put (h₀ : w₀.InBuffer) {b : ByteArray} {c : Chunk} (hc : c.bytes = b.data.toList)
    {f : Window → Except Error (α × Window)} {result : Nat → α}
    (hf : ∀ w, f w = (w.put b).map (result w.position, ·)) :
    w₀.Takes (Sink.lift f) result [c] := by
  intro w l h
  have hstart := h₀.start_le
  have hl := h.position_le
  have hlength : (Chunk.bytesOf [c]).length = b.size := by
    rw [Chunk.bytesOf_cons, Chunk.bytesOf_nil, List.append_nil, hc, length_toList_data]
  have hsize : c.bytes.length = b.size := by rw [hc, length_toList_data]
  by_cases hfits : l.length + b.size ≤ w₀.capacity
  · have hroom : w₀.start + (l.length + b.size) ≤ w₀.limit := by
      unfold capacity at hfits
      omega
    obtain ⟨w', hput, hholds⟩ := h.put h₀ hroom
    refine ⟨w', ?_, ?_⟩
    · rw [Chunk.fitting_cons_of_le (by omega), Chunk.fitting, Chunk.bytesOf_cons,
        Chunk.bytesOf_nil, List.append_nil, hc]
      exact hholds
    · rw [if_pos (by omega), Sink.lift, hf, hput]
      rfl
  · have hroom : ¬w₀.start + (l.length + b.size) ≤ w₀.limit := by
      unfold capacity at hfits
      omega
    refine ⟨w, ?_, ?_⟩
    · rw [Chunk.fitting_cons_of_lt (by omega), Chunk.bytesOf_nil, List.append_nil]
      exact h
    · rw [if_neg (by omega), Sink.lift, hf, h.put_error hroom]
      rfl

/-- A chunk in front of others. -/
theorem cons {m : SinkM Window α} {result : Nat → α} {c : Chunk} (hm : w₀.Takes m result [c])
    {m' : SinkM Window β} {b : β} {rest : List Chunk} (hm' : w₀.Takes m' (fun _ => b) rest) :
    w₀.Takes (m >>= fun _ => m') (fun _ => b) (c :: rest) := by
  intro w l h
  have hl := h.length_le_capacity
  obtain ⟨w₁, hholds, hrun⟩ := hm w l h
  have hlength : (Chunk.bytesOf [c]).length = c.bytes.length := by
    rw [Chunk.bytesOf_cons, Chunk.bytesOf_nil, List.append_nil]
  rw [hlength] at hrun
  rw [Chunk.bytesOf_cons, List.length_append, ← Nat.add_assoc]
  by_cases hfits : l.length + c.bytes.length ≤ w₀.capacity
  · -- the others have the room that the first chunk leaves
    rw [if_pos hfits] at hrun
    rw [Chunk.fitting_cons_of_le (by omega), Chunk.fitting, Chunk.bytesOf_cons,
      Chunk.bytesOf_nil, List.append_nil] at hholds
    obtain ⟨w₂, hholds₂, hrun₂⟩ := hm' w₁ _ hholds
    rw [List.length_append] at hholds₂ hrun₂
    refine ⟨w₂, ?_, ?_⟩
    · rw [Chunk.fitting_cons_of_le (by omega), Chunk.bytesOf_cons, ← List.append_assoc,
        Nat.sub_sub]
      exact hholds₂
    · rw [Error.bind_eq_of_ok _ hrun, hrun₂]
  · rw [if_neg hfits] at hrun
    rw [Chunk.fitting_cons_of_lt (by omega)] at hholds
    refine ⟨w₁, ?_, ?_⟩
    · rw [Chunk.fitting_cons_of_lt (by omega)]
      exact hholds
    · rw [Error.bind_eq_of_error _ hrun, if_neg (by omega)]

theorem bind_pure {m : SinkM Window α} {result : Nat → α} {chunks : List Chunk}
    (hm : w₀.Takes m result chunks) (f : α → β) :
    w₀.Takes (m >>= fun a => pure (f a)) (fun position => f (result position)) chunks := by
  intro w l h
  obtain ⟨w', hholds, hrun⟩ := hm w l h
  refine ⟨w', hholds, ?_⟩
  split at hrun <;> rename_i hfits
  · rw [Error.bind_eq_of_ok _ hrun, if_pos hfits]
    rfl
  · rw [Error.bind_eq_of_error _ hrun, if_neg hfits]

section Steps

variable (h₀ : w₀.InBuffer)

include h₀

theorem write (b : ByteArray) : w₀.Takes (Sink.write b) (fun _ => ()) [.data b.data.toList] :=
  of_put h₀ rfl fun _ => rfl

theorem writeByte (b : UInt8) : w₀.Takes (Sink.writeByte b) (fun _ => ()) [.data [b]] :=
  write h₀ [b].toByteArray

theorem writeInt32 (n : Int32) :
    w₀.Takes (Sink.writeInt32 n) (fun _ => ()) [.data (Grammar.int32 n)] :=
  toList_ofInt32 n ▸ write h₀ (LittleEndian.ofInt32 n)

theorem writeInt64 (n : Int64) :
    w₀.Takes (Sink.writeInt64 n) (fun _ => ()) [.data (Grammar.int64 n)] :=
  toList_ofInt64 n ▸ write h₀ (LittleEndian.ofInt64 n)

theorem writeDouble (x : Double) :
    w₀.Takes (Sink.writeDouble x) (fun _ => ()) [.data (Grammar.double x)] :=
  toList_ofUInt64 x.bits ▸ write h₀ (LittleEndian.ofUInt64 x.bits)

theorem writeCString (s : String) :
    w₀.Takes (Sink.writeCString s) (fun _ => ()) [.data (utf8 s), .data [0]] :=
  (write h₀ s.toUTF8).cons (writeByte h₀ 0)

theorem writeString (s : String) :
    w₀.Takes (Sink.writeString s) (fun _ => ())
      [.data (Grammar.int32 (.ofNat ((utf8 s).length + 1))), .data (utf8 s), .data [0]] :=
  (writeInt32 h₀ _).cons (writeCString h₀ s)

theorem openTag : w₀.Takes Sink.openTag id [.tag 0] :=
  of_put (b := zeroBytes 1) h₀ rfl fun _ => rfl

theorem openLength : w₀.Takes Sink.openLength id [.length 0] :=
  of_put (b := zeroBytes 4) h₀ rfl fun _ => rfl

/-- A claim takes its chunks. -/
theorem claim (c : Sink.Claim) :
    w₀.Takes c.run (fun position => c.index position) c.chunks := by
  cases c with
  | byte b => exact (writeByte h₀ b).bind_pure _
  | int32 n => exact (writeInt32 h₀ n).bind_pure _
  | int64 n => exact (writeInt64 h₀ n).bind_pure _
  | double x => exact (writeDouble h₀ x).bind_pure _
  | bytes b => exact (write h₀ b).bind_pure _
  | cstring s => exact (writeCString h₀ s).bind_pure _
  | string s => exact (writeString h₀ s).bind_pure _
  | reserve slot =>
    cases slot with
    | tag => exact (openTag h₀).bind_pure _
    | length => exact (openLength h₀).bind_pure _

end Steps

end Takes

/-- A window holds what a ledger says, and the ledger has the slots of which a log tells. -/
structure Records (w₀ : Window) (log : Sink.Call.Log) (l : Ledger) (w : Window) : Prop where
  start_eq : l.start = w₀.start
  room_eq : l.room = w₀.capacity
  holds : w₀.HoldsFrom w l.bytes
  slots {slot : Sink.Slot} {position : Nat} : log.Gave slot position → l.HasSlot slot position

namespace Records

variable {log : Sink.Call.Log} {l : Ledger}

theorem position_eq (h : w₀.Records log l w) : w.position = l.position := by
  rw [h.holds.position_eq, Ledger.position, h.start_eq]

/-- What gives no position says nothing of slots. -/
theorem pass (h : w₀.Records log l w) {c : Sink.Call} {answer : Sink.Answer}
    (ha : answer = .ok none) : w₀.Records ((c, answer) :: log) l w := by
  refine ⟨h.start_eq, h.room_eq, h.holds, fun {slot position} hgave => ?_⟩
  rcases List.mem_cons.1 hgave with hnew | hold
  · cases (Prod.mk.inj hnew).2.trans ha
  · exact h.slots hold

/-- A claim is answered as the ledger says, and recorded. -/
theorem claim (h₀ : w₀.InBuffer) (h : w₀.Records log l w) (c : Sink.Claim) :
    (Sink.Call.claim c).answer w = l.answer (.claim c) ∧
      w₀.Records ((.claim c, l.answer (.claim c)) :: log) (l.after (.claim c))
        ((Sink.Call.claim c).after w) := by
  obtain ⟨w', hholds, hrun⟩ := Takes.claim h₀ c w _ h.holds
  rw [← h.room_eq] at hholds hrun
  rw [h.position_eq] at hrun
  have hcall : (Sink.Call.claim c).answer w = l.answer (.claim c) ∧
      (Sink.Call.claim c).after w = w' := by
    rw [Ledger.answer]
    by_cases hfits : l.bytes.length + (Chunk.bytesOf c.chunks).length ≤ l.room
    · rw [if_pos hfits] at hrun ⊢
      exact Sink.Call.run_eq_ok hrun
    · rw [if_neg hfits] at hrun ⊢
      exact Sink.Call.run_eq_error hrun
  refine ⟨hcall.1, h.start_eq, h.room_eq, ?_, fun {slot position} hgave => ?_⟩
  · rw [hcall.2]
    rw [Ledger.bytes, ← Chunk.bytesOf_append] at hholds
    exact hholds
  · rcases List.mem_cons.1 hgave with hnew | hold
    · obtain ⟨hclaim, hposition⟩ := Prod.mk.inj hnew
      obtain rfl := Sink.Call.claim.inj hclaim
      exact Ledger.hasSlot_of_answer hposition.symm
    · exact (h.slots hold).append _

/-- A slot that is filled in is filled in on the ledger. -/
theorem fillIn (h₀ : w₀.InBuffer) (h : w₀.Records log l w) {slot : Sink.Slot} {position : Nat}
    (hslot : l.HasSlot slot position) {f : Chunk → Chunk} (hf : Chunk.FillsIn f) {b : ByteArray}
    (hb : ∀ c : Chunk, c.slot? = some slot → (f c).bytes = b.data.toList) :
    w₀.Records log (l.change f position) (w.patch position b) := by
  refine ⟨h.start_eq, h.room_eq, ?_, fun hgave => (h.slots hgave).change hf position⟩
  obtain ⟨front, c, back, hchunks, hc, hposition⟩ := hslot
  have hbytes : l.bytes = Chunk.bytesOf front ++ (c.bytes ++ Chunk.bytesOf back) := by
    rw [Ledger.bytes, hchunks, Chunk.bytesOf_append, Chunk.bytesOf_cons]
  have hlength : c.bytes.length = b.size := by
    rw [← hf.length_eq, hb c hc, length_toList_data]
  have hholds := h.holds
  rw [hbytes] at hholds
  have hpatched := hholds.patch h₀ hlength
  rw [← h.start_eq, hposition, ← hb c hc, ← Chunk.bytesOf_cons, ← Chunk.bytesOf_append,
    ← Chunk.change_slot hf hc hposition, ← hchunks] at hpatched
  exact hpatched

/-- A call is answered as the ledger says, and recorded. -/
theorem call (h₀ : w₀.InBuffer) (h : w₀.Records log l w) {c : Sink.Call} (hc : c.Follows log) :
    c.answer w = l.answer c ∧ w₀.Records ((c, c.answer w) :: log) (l.after c) (c.after w) := by
  cases c with
  | claim c =>
    obtain ⟨hanswer, hrecords⟩ := h.claim h₀ c
    exact ⟨hanswer, hanswer ▸ hrecords⟩
  | closeTag position tag =>
    have hslot := h.slots hc
    have hfilled := h.fillIn h₀ hslot (Chunk.fillsIn_setTag tag.toByte)
      (b := [tag.toByte].toByteArray) fun c hc => by
        cases c with
        | tag byte => rfl
        | _ => cases hc
    exact ⟨rfl, hfilled.pass rfl⟩
  | closeLength position =>
    have hslot := h.slots hc
    have hle := hslot.le_position
    have hdistance : Int32.ofInt (w.position - position) =
        Int32.ofNat (l.position - position) := by
      rw [h.position_eq, ← Int32.ofInt_eq_ofNat, Int.ofNat_sub hle]
    have hfilled := h.fillIn h₀ hslot (Chunk.fillsIn_setLength (.ofNat (l.position - position)))
      (b := LittleEndian.ofInt32 (Int32.ofInt (w.position - position))) fun c hc => by
        rw [toList_ofInt32, hdistance]
        cases c with
        | length n => rfl
        | _ => cases hc
    exact ⟨rfl, hfilled.pass rfl⟩

/-- A call that fails tells the size of the window. -/
theorem error_eq (h₀ : w₀.InBuffer) (h : w₀.Records log l w) {c : Sink.Call} {e : Error}
    (he : c.answer w = .error e) : e = .sizeExceeded w₀.capacity := by
  cases c with
  | claim c =>
    rw [(h.claim h₀ c).1, Ledger.answer, h.room_eq] at he
    split at he
    · cases he
    · exact (Except.error.inj he).symm
  | closeTag position tag => cases he
  | closeLength position => cases he

/-- Calls are answered as the ledger says, and recorded. -/
theorem run (h₀ : w₀.InBuffer) : ∀ (calls : List Sink.Call) {log : Sink.Call.Log} {l : Ledger}
    {w : Window}, w₀.Records log l w → Sink.Call.Matched log calls w →
      Sink.Call.answers calls w = Ledger.answers calls l ∧
        ∃ log', w₀.Records log' (Ledger.afterAll calls l) (Sink.Call.afterAll calls w)
  | [], log, _, _, h, _ => ⟨rfl, log, h⟩
  | c :: rest, _, _, _, h, hmatched => by
    obtain ⟨hfollows, hrest⟩ := hmatched
    obtain ⟨hanswer, hrecords⟩ := h.call h₀ hfollows
    obtain ⟨hanswers, hlast⟩ := run h₀ rest hrecords hrest
    refine ⟨?_, hlast⟩
    rw [Sink.Call.answers, Ledger.answers, hanswer, hanswers]

end Records

end Window

/-! ### Tallies -/

/-- A tally counts the bytes of a claim. -/
theorem Sink.Claim.run_tally (c : Sink.Claim) (t : Tally) :
    c.run t = .ok (c.index t.count) ⟨t.count + (Chunk.bytesOf c.chunks).length⟩ := by
  have hcount {m n : Nat} (index : Option Nat) (h : m = n) :
      (.ok index ⟨m⟩ : EStateM.Result Error Tally (Option Nat)) = .ok index ⟨n⟩ := h ▸ rfl
  cases c with
  | byte b => rfl
  | int32 n => rfl
  | int64 n => rfl
  | double x => rfl
  | bytes b =>
    refine hcount none ?_
    rw [chunks, Chunk.bytesOf_cons, Chunk.bytesOf_nil, List.append_nil, Chunk.bytes,
      length_toList_data]
  | cstring s =>
    refine hcount none ?_
    simp only [chunks, Chunk.bytesOf_cons, Chunk.bytesOf_nil, Chunk.bytes, List.length_append,
      length_utf8, ← Nat.add_assoc]
    rfl
  | string s =>
    refine hcount none ?_
    simp only [chunks, Chunk.bytesOf_cons, Chunk.bytesOf_nil, Chunk.bytes, List.length_append,
      length_utf8, ← Nat.add_assoc]
    rfl
  | reserve slot =>
    cases slot with
    | tag => rfl
    | length => rfl

namespace Ledger

/-- A call that does not fail gives a tally the position that it gives a ledger, from its start
on. -/
theorem tally_agrees_call {t : Tally} (l : Ledger) (ht : t.count = l.bytes.length) {c : Sink.Call}
    (hok : (l.answer c).isOk) :
    l.answer c = (c.answer t).map (Option.map (l.start + ·)) ∧
      (c.after t).count = (l.after c).bytes.length := by
  cases c with
  | claim c =>
    by_cases hfits : l.bytes.length + (Chunk.bytesOf c.chunks).length ≤ l.room
    · obtain ⟨hanswer, hafter⟩ := Sink.Call.run_eq_ok (c := .claim c) (c.run_tally t)
      rw [hanswer, hafter, bytes, chunks_after_claim hfits, Chunk.bytesOf_append,
        List.length_append, answer, if_pos hfits, ht]
      refine ⟨?_, rfl⟩
      cases c <;> rfl
    · rw [answer, if_neg hfits] at hok
      cases hok
  | closeTag position tag =>
    refine ⟨rfl, ht.trans ?_⟩
    exact (Chunk.length_change (Chunk.fillsIn_setTag _) l.start l.chunks).symm
  | closeLength position =>
    refine ⟨rfl, ht.trans ?_⟩
    exact (Chunk.length_change (Chunk.fillsIn_setLength _) l.start l.chunks).symm

/-- As long as no call fails, a tally that has counted the bytes of a ledger gives the positions of
the ledger, from its start on, and keeps counting its bytes. -/
theorem tally_agrees : ∀ (calls : List Sink.Call) {l : Ledger} {t : Tally},
    t.count = l.bytes.length → (∀ a ∈ answers calls l, a.isOk) →
      answers calls l =
          (Sink.Call.answers calls t).map (Except.map (Option.map (l.start + ·))) ∧
        (Sink.Call.afterAll calls t).count = (afterAll calls l).bytes.length
  | [], _, _, ht, _ => ⟨rfl, ht⟩
  | c :: rest, l, t, ht, hok => by
    obtain ⟨hc, hrest⟩ := List.forall_mem_cons.1 hok
    obtain ⟨hanswer, hcount⟩ := l.tally_agrees_call ht hc
    obtain ⟨hanswers, hlast⟩ := tally_agrees rest hcount hrest
    refine ⟨?_, hlast⟩
    rw [answers, Sink.Call.answers, List.map_cons, hanswer, hanswers, start_after]

end Ledger

/-! ### Any calls -/

namespace Window

variable {buffer : ByteArray} {start maxSize : Nat}

theorem records_nil : (ofBuffer buffer start maxSize).Records []
    ⟨min start buffer.size, room buffer start maxSize, []⟩ (ofBuffer buffer start maxSize) :=
  ⟨rfl, capacity_ofBuffer.symm, holds_nil, fun h => absurd h List.not_mem_nil⟩

/-- **A window keeps to its bounds and to its ledger.** After any calls that fill in slots only
where they were given, be the calls successful or not, the window lies in its buffer, holds no more
than was allowed, and nothing before its start or from its position on has changed. A call that
fails tells the size of the window, and does nothing unless it writes a text. Between the start and
the position stand the chunks that were claimed, with the slots as they were filled in last, and
the positions that were given are those of the slots. As long as no call has failed, a tally gives
the same positions, counted from the start of the window, and the same size. -/
theorem calls_recorded (buffer : ByteArray) (start maxSize : Nat) (calls : List Sink.Call)
    (hmatched : Sink.Call.Matched [] calls (ofBuffer buffer start maxSize)) :
    let first := min start buffer.size
    let room := min maxSize (buffer.size - first)
    let fresh := ofBuffer buffer start maxSize
    let w := Sink.Call.afterAll calls fresh
    let ledger : Ledger := ⟨first, room, []⟩
    (w.start = first ∧ first ≤ w.position ∧ w.position ≤ w.limit ∧ w.limit ≤ w.buffer.size) ∧
    Sink.size w ≤ room ∧
    SameOutside first w.position buffer w.buffer ∧
    (∀ (c : Sink.Call) (e : Error), c.answer w = .error e →
      e = .sizeExceeded (w.limit - first) ∧ (c.isText = false → c.after w = w)) ∧
    w.buffer.extract first w.position = (Ledger.afterAll calls ledger).bytes.toByteArray ∧
    Sink.Call.answers calls fresh = Ledger.answers calls ledger ∧
    ((∀ a ∈ Sink.Call.answers calls fresh, a.isOk) →
      Sink.Call.answers calls fresh =
          (Sink.Call.answers calls ({} : Tally)).map (Except.map (Option.map (first + ·))) ∧
        Sink.size (Sink.Call.afterAll calls ({} : Tally)) = Sink.size w) := by
  intro first room fresh w ledger
  have h₀ := ofBuffer_inBuffer buffer start maxSize
  obtain ⟨hanswers, log, hrecords⟩ := Records.run h₀ calls records_nil hmatched
  have hholds : fresh.HoldsFrom w (Ledger.afterAll calls ledger).bytes := hrecords.holds
  have hposition : w.position = first + (Ledger.afterAll calls ledger).bytes.length :=
    hholds.position_eq
  have hsize : Sink.size w = (Ledger.afterAll calls ledger).bytes.length := by
    change w.position - w.start = _
    rw [hposition, hholds.start_eq]
    exact Nat.add_sub_cancel_left _ _
  have hrest : SameOutside first w.position buffer w.buffer :=
    hholds.spliced.sameOutside (Nat.le_of_eq hposition.symm)
  refine ⟨⟨hholds.start_eq, ?_, ?_, ?_⟩, ?_, hrest, fun c e he => ⟨?_, ?_⟩, ?_, hanswers, ?_⟩
  · rw [hposition]
    exact Nat.le_add_right _ _
  · rw [hposition, hholds.limit_eq]
    exact hholds.position_le
  · rw [hrest.size_eq, hholds.limit_eq]
    exact h₀.limit_le
  · rw [hsize]
    exact hholds.length_le
  · rw [hholds.limit_eq]
    exact hrecords.error_eq h₀ he
  · exact Sink.Call.after_eq_of_error he
  · rw [hposition]
    exact hholds.spliced.extract_eq
  · intro hok
    rw [hanswers] at hok ⊢
    obtain ⟨hsame, hcount⟩ := Ledger.tally_agrees calls (l := ledger) (t := {}) rfl hok
    exact ⟨hsame, hcount.trans hsize.symm⟩

/-- A length that is filled in twice, around a text that fails half-way. -/
theorem calls_recorded_half_text :
    let calls : List Sink.Call :=
      [.claim (.reserve .length), .closeLength 2, .claim (.reserve .tag), .claim (.string "ab"),
        .claim (.byte 7), .closeTag 6 .string, .closeLength 2]
    let fresh := ofBuffer (List.replicate 12 0xAA).toByteArray 2 9
    let w := Sink.Call.afterAll calls fresh
    Sink.Call.Matched [] calls fresh ∧
      Sink.Call.answers calls fresh =
        [.ok (some 2), .ok none, .ok (some 6), .error (.sizeExceeded 9), .error (.sizeExceeded 9),
          .ok none, .ok none] ∧
      w.buffer.extract 2 w.position = [9, 0, 0, 0, 2, 3, 0, 0, 0].toByteArray := by
  intro calls fresh w
  have hmatched : Sink.Call.Matched [] calls fresh :=
    ⟨trivial, .head _, trivial, trivial, trivial, .tail _ (.tail _ (.head _)),
      .tail _ (.tail _ (.tail _ (.tail _ (.tail _ (.head _))))), trivial⟩
  obtain ⟨-, -, -, -, hcontent, hanswers, -⟩ :=
    calls_recorded (List.replicate 12 0xAA).toByteArray 2 9 calls hmatched
  exact ⟨hmatched, hanswers, hcontent⟩

/-- A window gives positions in its buffer, a tally gives them from zero on. -/
theorem tally_gives_other_positions :
    let calls : List Sink.Call := [.claim (.reserve .tag)]
    let fresh := ofBuffer (zeroBytes 8) 1 8
    Sink.Call.Matched [] calls fresh ∧ (∀ a ∈ Sink.Call.answers calls fresh, a.isOk) ∧
      Sink.Call.answers calls fresh = [.ok (some 1)] ∧
      Sink.Call.answers calls ({} : Tally) = [.ok (some 0)] ∧
      Sink.Call.answers calls fresh ≠ Sink.Call.answers calls ({} : Tally) := by
  intro calls fresh
  have hwindow : Sink.Call.answers calls fresh = [.ok (some 1)] := rfl
  have htally : Sink.Call.answers calls ({} : Tally) = [.ok (some 0)] := rfl
  refine ⟨⟨trivial, trivial⟩, ?_, hwindow, htally, ?_⟩
  · rw [hwindow]
    exact fun a ha => List.mem_singleton.1 ha ▸ rfl
  · rw [hwindow, htally]
    intro h
    cases h

end Window

end Bson
