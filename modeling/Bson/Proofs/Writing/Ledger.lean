import Bson.Proofs.Grammar.Basic
import Bson.Sink.Basic

/-!
# Calls of a sink, and what they ask for

A sink can be called in any order: calls go on after failures, and tags and lengths are filled in
late, out of turn or again. A ledger keeps what was asked for, chunk after chunk: the bytes of what
was written, and a slot for each tag and each length, which is zero until it is filled in.

* `Sink.Claim`, `Sink.Call`: what a sink can be asked. `Call.answer`, `Call.after`: what a call
  gives and the sink that it leaves; `Call.answers`, `Call.afterAll`: the same of several calls.
* `Call.Matched`: that slots are filled in only at positions that were given for such slots.
* `Call.after_eq_of_error`: a call that fails does nothing, unless it writes a text.
* `Chunk.fitting`: chunks up to the first for which there is no room. `Chunk.change`: chunks with
  a slot filled in; `Chunk.change_slot`: only that slot changes.
* `Ledger`: the chunks that were claimed. `Ledger.answers`, `Ledger.afterAll`: what calls give and
  leave, said of chunks alone.
-/

namespace Bson

open Grammar

/-! ### Calls -/

namespace Sink

/-- What is filled in later. -/
inductive Slot
  | tag
  | length
  deriving DecidableEq

/-- A call that appends something. -/
inductive Claim
  | byte (b : UInt8)
  | int32 (n : Int32)
  | int64 (n : Int64)
  | double (x : Double)
  | bytes (b : ByteArray)
  | cstring (s : String)
  | string (s : String)
  | reserve (slot : Slot)

/-- A call of a sink. -/
inductive Call
  | claim (c : Claim)
  | closeTag (position : Nat) (tag : Tag)
  | closeLength (position : Nat)

/-- What a call gives: the position of a slot that it reserved, or an error. -/
abbrev Answer := Except Error (Option Nat)

variable {σ α β : Type}

/-- A run that fails does nothing. -/
def Atomic (m : SinkM σ α) : Prop := ∀ s e s', m s = .error e s' → s' = s

theorem Atomic.lift (f : σ → Except Error (α × σ)) : Atomic (Sink.lift f) := by
  intro s e s' h
  unfold Sink.lift at h
  cases hf : f s with
  | ok p =>
    rw [hf] at h
    cases h
  | error e' =>
    rw [hf] at h
    cases h
    rfl

theorem Atomic.bind_pure {m : SinkM σ α} (hm : Atomic m) (f : α → β) :
    Atomic (m >>= fun a => pure (f a)) := by
  intro s e s' h
  cases hrun : m s with
  | ok a t =>
    rw [Error.bind_eq_of_ok _ hrun] at h
    cases h
  | error e' t =>
    rw [Error.bind_eq_of_error _ hrun] at h
    cases h
    exact hm s e s' hrun

variable [Sink σ]

/-- The steps of a call that appends something. -/
def Claim.run : Claim → SinkM σ (Option Nat)
  | .byte b => do
    Sink.writeByte b
    return none
  | .int32 n => do
    Sink.writeInt32 n
    return none
  | .int64 n => do
    Sink.writeInt64 n
    return none
  | .double x => do
    Sink.writeDouble x
    return none
  | .bytes b => do
    Sink.write b
    return none
  | .cstring s => do
    Sink.writeCString s
    return none
  | .string s => do
    Sink.writeString s
    return none
  | .reserve .tag => do
    return some (← Sink.openTag)
  | .reserve .length => do
    return some (← Sink.openLength)

namespace Call

/-- The steps of a call. -/
def run : Call → SinkM σ (Option Nat)
  | .claim c => c.run
  | .closeTag position tag => do
    Sink.closeTag position tag
    return none
  | .closeLength position => do
    Sink.closeLength position
    return none

/-- What a call gives. -/
def answer (c : Call) (s : σ) : Answer :=
  match c.run s with
  | .ok index _ => .ok index
  | .error e _ => .error e

/-- The sink that a call leaves. -/
def after (c : Call) (s : σ) : σ :=
  match c.run s with
  | .ok _ s' => s'
  | .error _ s' => s'

/-- What several calls give, be they successful or not. -/
def answers : List Call → σ → List Answer
  | [], _ => []
  | c :: rest, s => c.answer s :: answers rest (c.after s)

/-- The sink that several calls leave, be they successful or not. -/
def afterAll (calls : List Call) (s : σ) : σ := calls.foldl (fun s c => c.after s) s

/-- Whether a call writes a text, which takes several steps. -/
def isText : Call → Bool
  | .claim (.cstring _) => true
  | .claim (.string _) => true
  | _ => false

/-- Calls that were made, with what they gave. -/
abbrev Log := List (Call × Answer)

/-- That a position was given for a slot. -/
def Log.Gave (log : Log) (slot : Slot) (position : Nat) : Prop :=
  (.claim (.reserve slot), .ok (some position)) ∈ log

/-- That a call may be made after others: it fills in a slot only where one was given. -/
def Follows (log : Log) : Call → Prop
  | .claim _ => True
  | .closeTag position _ => log.Gave .tag position
  | .closeLength position => log.Gave .length position

/-- That each of several calls may be made after those before it. -/
def Matched (log : Log) : List Call → σ → Prop
  | [], _ => True
  | c :: rest, s => c.Follows log ∧ Matched ((c, c.answer s) :: log) rest (c.after s)

theorem run_eq_ok {c : Call} {s s' : σ} {index : Option Nat} (h : c.run s = .ok index s') :
    c.answer s = .ok index ∧ c.after s = s' := by
  simp only [answer, after, h, and_self]

theorem run_eq_error {c : Call} {s s' : σ} {e : Error} (h : c.run s = .error e s') :
    c.answer s = .error e ∧ c.after s = s' := by
  simp only [answer, after, h, and_self]

theorem run_atomic {c : Call} (hc : c.isText = false) :
    Atomic (c.run : SinkM σ (Option Nat)) := by
  cases c with
  | claim c =>
    cases c with
    | byte b => exact (Atomic.lift _).bind_pure _
    | int32 n => exact (Atomic.lift _).bind_pure _
    | int64 n => exact (Atomic.lift _).bind_pure _
    | double x => exact (Atomic.lift _).bind_pure _
    | bytes b => exact (Atomic.lift _).bind_pure _
    | cstring s => cases hc
    | string s => cases hc
    | reserve slot =>
      cases slot with
      | tag => exact (Atomic.lift _).bind_pure _
      | length => exact (Atomic.lift _).bind_pure _
  | closeTag position tag =>
    intro s e s' h
    cases h
  | closeLength position =>
    intro s e s' h
    cases h

/-- A call that fails does nothing, unless it writes a text. -/
theorem after_eq_of_error {c : Call} {s : σ} {e : Error} (h : c.answer s = .error e)
    (hc : c.isText = false) : c.after s = s := by
  unfold answer at h
  unfold after
  cases hrun : c.run s with
  | ok index s' =>
    rw [hrun] at h
    cases h
  | error e' s' => exact run_atomic hc s e' s' hrun

end Call

end Sink

/-! ### Ledgers -/

/-- What a sink was asked to hold at a place. -/
inductive Chunk
  | data (bytes : List UInt8)
  | tag (byte : UInt8)
  | length (n : Int32)

namespace Chunk

/-- The bytes of a chunk. -/
def bytes : Chunk → List UInt8
  | .data bytes => bytes
  | .tag byte => [byte]
  | .length n => int32 n

/-- The bytes of one chunk after another. -/
def bytesOf (chunks : List Chunk) : List UInt8 := chunks.flatMap bytes

/-- The slot that a chunk is. -/
def slot? : Chunk → Option Sink.Slot
  | .data _ => none
  | .tag _ => some .tag
  | .length _ => some .length

/-- Fills in a tag. -/
def setTag (byte : UInt8) : Chunk → Chunk
  | .tag _ => .tag byte
  | c => c

/-- Fills in a length. -/
def setLength (n : Int32) : Chunk → Chunk
  | .length _ => .length n
  | c => c

/-- Chunks up to the first for which there is no room. -/
def fitting (room : Nat) : List Chunk → List Chunk
  | [] => []
  | c :: rest =>
    if c.bytes.length ≤ room then c :: fitting (room - c.bytes.length) rest else []

/-- Changes what stands at a position, given the position of the first chunk. -/
def change (f : Chunk → Chunk) (position : Nat) : Nat → List Chunk → List Chunk
  | _, [] => []
  | here, c :: rest =>
    (if here = position then f c else c) :: change f position (here + c.bytes.length) rest

@[simp] theorem bytesOf_nil : bytesOf [] = [] := rfl

@[simp] theorem bytesOf_cons (c : Chunk) (rest : List Chunk) :
    bytesOf (c :: rest) = c.bytes ++ bytesOf rest := List.flatMap_cons

@[simp] theorem bytesOf_append (chunks rest : List Chunk) :
    bytesOf (chunks ++ rest) = bytesOf chunks ++ bytesOf rest := List.flatMap_append

theorem fitting_cons_of_le {room : Nat} {c : Chunk} (h : c.bytes.length ≤ room)
    (rest : List Chunk) : fitting room (c :: rest) = c :: fitting (room - c.bytes.length) rest :=
  if_pos h

theorem fitting_cons_of_lt {room : Nat} {c : Chunk} (h : room < c.bytes.length)
    (rest : List Chunk) : fitting room (c :: rest) = [] := if_neg (Nat.not_le.2 h)

theorem fitting_of_le : ∀ {room : Nat} {chunks : List Chunk},
    (bytesOf chunks).length ≤ room → fitting room chunks = chunks
  | _, [], _ => rfl
  | room, c :: rest, h => by
    rw [bytesOf_cons, List.length_append] at h
    rw [fitting_cons_of_le (by omega), fitting_of_le (by omega)]

/-! ### Filling in -/

/-- A change that fills in a slot: all chunks stay what they are and as long as they are. -/
structure FillsIn (f : Chunk → Chunk) : Prop where
  length_eq (c : Chunk) : (f c).bytes.length = c.bytes.length
  slot?_eq (c : Chunk) : (f c).slot? = c.slot?
  data_eq (bytes : List UInt8) : f (.data bytes) = .data bytes

theorem fillsIn_setTag (byte : UInt8) : FillsIn (setTag byte) where
  length_eq c := by cases c <;> rfl
  slot?_eq c := by cases c <;> rfl
  data_eq _ := rfl

theorem fillsIn_setLength (n : Int32) : FillsIn (setLength n) where
  length_eq c := by
    cases c with
    | data bytes => rfl
    | tag byte => rfl
    | length m => exact (length_int32 n).trans (length_int32 m).symm
  slot?_eq c := by cases c <;> rfl
  data_eq _ := rfl

/-- Slots are not empty. -/
theorem length_pos_of_slot? {c : Chunk} {slot : Sink.Slot} (h : c.slot? = some slot) :
    0 < c.bytes.length := by
  cases c with
  | data bytes => cases h
  | tag byte => exact Nat.one_pos
  | length n =>
    rw [bytes, length_int32]
    exact Nat.succ_pos 3

section Changes

variable {f : Chunk → Chunk} {position : Nat}

theorem change_append : ∀ (here : Nat) (front back : List Chunk),
    change f position here (front ++ back) =
      change f position here front ++ change f position (here + (bytesOf front).length) back
  | _, [], _ => rfl
  | here, c :: rest, back => by
    rw [List.cons_append, change, change, change_append, bytesOf_cons, List.length_append,
      ← Nat.add_assoc, List.cons_append]

theorem length_change (hf : FillsIn f) : ∀ (here : Nat) (chunks : List Chunk),
    (bytesOf (change f position here chunks)).length = (bytesOf chunks).length
  | _, [] => rfl
  | here, c :: rest => by
    have hc : (if here = position then f c else c).bytes.length = c.bytes.length := by
      split
      · exact hf.length_eq c
      · rfl
    rw [change, bytesOf_cons, bytesOf_cons, List.length_append, List.length_append, hc,
      length_change hf]

/-- Nothing changes behind the position. -/
theorem change_of_lt : ∀ {here : Nat} (chunks : List Chunk), position < here →
    change f position here chunks = chunks
  | _, [], _ => rfl
  | here, c :: rest, h => by
    rw [change, if_neg (by omega), change_of_lt rest (by omega)]

/-- Nothing changes before the position, even if data of no length stands there. -/
theorem change_of_le (hf : FillsIn f) : ∀ {here : Nat} (chunks : List Chunk),
    here + (bytesOf chunks).length ≤ position → change f position here chunks = chunks
  | _, [], _ => rfl
  | here, c :: rest, h => by
    rw [bytesOf_cons, List.length_append] at h
    have hc : (if here = position then f c else c) = c := by
      split
      · cases hslot : c.slot? with
        | some slot =>
          have := length_pos_of_slot? hslot
          omega
        | none =>
          cases c with
          | data bytes => exact hf.data_eq bytes
          | tag byte => cases hslot
          | length n => cases hslot
      · rfl
    rw [change, hc, change_of_le hf rest (by omega)]

/-- Only the slot changes that stands at the position. -/
theorem change_slot (hf : FillsIn f) {here : Nat} {front back : List Chunk} {c : Chunk}
    {slot : Sink.Slot} (hc : c.slot? = some slot)
    (hposition : here + (bytesOf front).length = position) :
    change f position here (front ++ c :: back) = front ++ f c :: back := by
  have hpos := length_pos_of_slot? hc
  -- what follows the slot starts behind the position, since the slot is not empty
  rw [change_append, change_of_le hf front (Nat.le_of_eq hposition), change, if_pos hposition,
    change_of_lt back (by omega)]

end Changes

end Chunk

/-- The chunks that a claim asks for. -/
def Sink.Claim.chunks : Sink.Claim → List Chunk
  | .byte b => [.data [b]]
  | .int32 n => [.data (Grammar.int32 n)]
  | .int64 n => [.data (Grammar.int64 n)]
  | .double x => [.data (Grammar.double x)]
  | .bytes b => [.data b.data.toList]
  | .cstring s => [.data (utf8 s), .data [0]]
  | .string s => [.data (Grammar.int32 (.ofNat ((utf8 s).length + 1))), .data (utf8 s), .data [0]]
  | .reserve .tag => [.tag 0]
  | .reserve .length => [.length 0]

/-- The position that a claim gives, made at a position. -/
def Sink.Claim.index (position : Nat) : Sink.Claim → Option Nat
  | .reserve _ => some position
  | _ => none

/-- The chunks that a sink holds, from a position on. -/
structure Ledger where
  /-- The position of the first chunk. -/
  start : Nat
  /-- The number of bytes for which there is room. -/
  room : Nat
  chunks : List Chunk

namespace Ledger

/-- The bytes of all chunks. -/
def bytes (l : Ledger) : List UInt8 := Chunk.bytesOf l.chunks

/-- The position after the last chunk. -/
def position (l : Ledger) : Nat := l.start + l.bytes.length

/-- What a call gives. -/
def answer (l : Ledger) : Sink.Call → Sink.Answer
  | .claim c =>
    if l.bytes.length + (Chunk.bytesOf c.chunks).length ≤ l.room then .ok (c.index l.position)
    else .error (.sizeExceeded l.room)
  | _ => .ok none

/-- Changes what stands at a position. -/
def change (f : Chunk → Chunk) (position : Nat) (l : Ledger) : Ledger :=
  { l with chunks := Chunk.change f position l.start l.chunks }

/-- The chunks after a call. A length is the distance to where the last chunk ends now, and stays
when others follow. -/
def after (l : Ledger) : Sink.Call → Ledger
  | .claim c =>
    { l with chunks := l.chunks ++ Chunk.fitting (l.room - l.bytes.length) c.chunks }
  | .closeTag position tag => l.change (.setTag tag.toByte) position
  | .closeLength position => l.change (.setLength (.ofNat (l.position - position))) position

/-- What several calls give. -/
def answers : List Sink.Call → Ledger → List Sink.Answer
  | [], _ => []
  | c :: rest, l => l.answer c :: answers rest (l.after c)

/-- The chunks after several calls. -/
def afterAll (calls : List Sink.Call) (l : Ledger) : Ledger := calls.foldl after l

@[simp] theorem start_after (l : Ledger) (c : Sink.Call) : (l.after c).start = l.start := by
  cases c <;> rfl

/-- A claim for which there is room. -/
theorem chunks_after_claim {l : Ledger} {c : Sink.Claim}
    (h : l.bytes.length + (Chunk.bytesOf c.chunks).length ≤ l.room) :
    (l.after (.claim c)).chunks = l.chunks ++ c.chunks :=
  congrArg (l.chunks ++ ·) (Chunk.fitting_of_le (Nat.le_sub_of_add_le' h))

/-! ### Slots -/

/-- That a slot stands at a position. -/
def HasSlot (l : Ledger) (slot : Sink.Slot) (position : Nat) : Prop :=
  ∃ front c back, l.chunks = front ++ c :: back ∧ c.slot? = some slot ∧
    l.start + (Chunk.bytesOf front).length = position

theorem HasSlot.le_position {l : Ledger} {slot : Sink.Slot} {position : Nat}
    (h : l.HasSlot slot position) : position ≤ l.position := by
  obtain ⟨front, c, back, hchunks, -, hposition⟩ := h
  rw [Ledger.position, bytes, hchunks, Chunk.bytesOf_append, List.length_append]
  omega

theorem HasSlot.append {l : Ledger} {slot : Sink.Slot} {position : Nat}
    (h : l.HasSlot slot position) (more : List Chunk) :
    HasSlot { l with chunks := l.chunks ++ more } slot position := by
  obtain ⟨front, c, back, hchunks, hc, hposition⟩ := h
  refine ⟨front, c, back ++ more, ?_, hc, hposition⟩
  simp only [hchunks, List.append_assoc, List.cons_append]

theorem HasSlot.change {l : Ledger} {slot : Sink.Slot} {position : Nat}
    (h : l.HasSlot slot position) {f : Chunk → Chunk} (hf : Chunk.FillsIn f) (other : Nat) :
    (l.change f other).HasSlot slot position := by
  obtain ⟨front, c, back, hchunks, hc, hposition⟩ := h
  refine ⟨Chunk.change f other l.start front, if position = other then f c else c,
    Chunk.change f other (position + c.bytes.length) back, ?_, ?_, ?_⟩
  · simp only [Ledger.change, hchunks, Chunk.change_append, Chunk.change, hposition]
  · split
    · rw [hf.slot?_eq, hc]
    · exact hc
  · rw [Chunk.length_change hf]
    exact hposition

/-- A slot stands where it was given. -/
theorem hasSlot_of_answer {l : Ledger} {slot : Sink.Slot} {position : Nat}
    (h : l.answer (.claim (.reserve slot)) = .ok (some position)) :
    (l.after (.claim (.reserve slot))).HasSlot slot position := by
  by_cases hfits : l.bytes.length + (Chunk.bytesOf (Sink.Claim.reserve slot).chunks).length ≤ l.room
  · rw [answer, if_pos hfits] at h
    have hposition : l.position = position := Option.some.inj (Except.ok.inj h)
    have hchunks := chunks_after_claim hfits
    cases slot with
    | tag => exact ⟨l.chunks, .tag 0, [], hchunks, rfl, hposition⟩
    | length => exact ⟨l.chunks, .length 0, [], hchunks, rfl, hposition⟩
  · rw [answer, if_neg hfits] at h
    cases h

end Ledger

end Bson
