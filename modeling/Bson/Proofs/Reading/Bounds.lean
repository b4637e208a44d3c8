import Bson.Codec
import Bson.Proofs.Reading.Steps

/-!
# Reading stays in bounds

No read of a document ends in an `Error.reader`. Each of these errors stands for a step that must
not be taken, and the steps ask before they are taken: for the range of every slice and the offset
of every byte, for a text that starts behind the terminator in force, for every subtraction, for
the place of cursor and terminator in the input, and for two bytes in every round of a loop.

The invariant is that the terminator in force lies in the input and the cursor at most one byte
behind it. A payload starts before the terminator; only a frame in it may swallow the terminator
and end one byte behind, and nothing is read there.

* `document_ends`: one document frame, from any offset of the input.
* `Reader.InInput.readEach`: reads one after another, failed ones among them.
-/

namespace Bson

namespace Region

variable {r : Region} {start stop : Nat}

theorem checkRange_eq_ok : r.checkRange start stop = .ok () ↔ start ≤ stop ∧ stop ≤ r.data.size := by
  unfold checkRange
  split <;> simp [*]

theorem plus_eq (h : start + stop ≤ r.data.size) : r.plus start stop = .ok (start + stop) :=
  if_pos h

theorem slice_eq (h₁ : start ≤ stop) (h₂ : stop ≤ r.data.size) :
    r.slice start stop = .ok (r.data.extract start stop) := by
  rw [slice, checkRange_eq_ok.2 ⟨h₁, h₂⟩]
  rfl

theorem findZero?_bounds {offset count : Nat} (hf : r.findZero? offset count = some stop) :
    offset ≤ stop ∧ stop < offset + count := by
  induction count generalizing offset with
  | zero => cases hf
  | succ count ih =>
    unfold findZero? at hf
    split at hf
    · cases hf; omega
    · have := ih hf; omega

theorem byteAt_eq (h : start < r.data.size) : r.byteAt start = .ok r.data[start] := by
  rw [byteAt, dif_pos h]

end Region

theorem minus_eq {a b : Nat} (h : b ≤ a) : minus a b = .ok (a - b) := if_pos h

namespace Cursor

variable {r : Region} {pos : Nat}

/-! ### Bytes, numbers and texts -/

/-- In the input the cursor is found where it is. -/
theorem here_eq (h : r.limit < r.data.size) (hp : pos ≤ r.data.size) :
    here r pos = .ok (pos, pos) := by
  change (if _ then _ else _ : Cursor Nat) pos = _
  rw [if_pos ⟨h, hp⟩]
  rfl

theorem Ends.here_bind {β : Type} {f : Nat → Cursor β} {R : β → Nat → Prop}
    (h : r.limit < r.data.size) (hp : pos ≤ r.data.size) (hf : Ends (f pos) pos R) :
    Ends (here r >>= f) pos R := by
  have hb : (here r >>= f) pos = f pos pos := by
    change Except.bind (here r pos) _ = _
    rw [here_eq h hp]
    rfl
  unfold Ends
  rwa [hb]

theorem take_ends (h : r.limit < r.data.size) (hp : pos ≤ r.data.size) (n : Nat) :
    Ends (take r n) pos fun bytes stop => stop = pos + n ∧ stop ≤ r.limit ∧ bytes.size = n := by
  refine .here_bind h hp (.guard nofun fun hle => .lift_bind (r.plus_eq (by omega)) ?_)
  refine .bind (.set (Q := fun _ stop => stop = pos + n) rfl) fun _ _ hs => ?_
  subst hs
  have hs := r.slice_eq (Nat.le_add_right pos n) (by omega)
  refine .lift (by rw [hs]; nofun) fun bytes hb => ⟨rfl, by omega, ?_⟩
  rw [hs] at hb
  cases hb
  rw [ByteArray.size_extract]
  omega

/-- Bytes are taken if they stand in front of the terminator. -/
theorem take_eq (h : r.limit < r.data.size) (hp : pos ≤ r.data.size) (n : Nat) :
    take r n pos =
      if r.limit < pos + n then .error (.boundsExceeded pos (.readPast n r.limit))
      else .ok (r.data.extract pos (pos + n), pos + n) := by
  rw [take, bind_of_ok (here_eq h hp)]
  by_cases hlimit : r.limit < pos + n
  · exact (guard_of hlimit).trans (if_pos hlimit).symm
  · refine (guard_of_not hlimit).trans (Eq.trans ?_ (if_neg hlimit).symm)
    have hstop : r.plus pos n = .ok (pos + n) := r.plus_eq (by omega)
    refine (lift_bind_of_ok hstop).trans ?_
    change (liftM (r.slice pos (pos + n)) : Cursor ByteArray) (pos + n) = _
    rw [r.slice_eq (Nat.le_add_right pos n) (by omega)]
    rfl

theorem int32_eq (h : r.limit < r.data.size) (hp : pos ≤ r.data.size) :
    int32 r pos =
      if r.limit < pos + 4 then .error (.boundsExceeded pos (.readPast 4 r.limit))
      else .ok (LittleEndian.toInt32 (r.data.extract pos (pos + 4)), pos + 4) := by
  by_cases hlimit : r.limit < pos + 4
  · rw [if_pos hlimit]
    exact bind_of_error ((take_eq h hp 4).trans (if_pos hlimit))
  · rw [if_neg hlimit]
    exact bind_of_ok ((take_eq h hp 4).trans (if_neg hlimit))

theorem byte_ends (h : r.limit < r.data.size) (hp : pos ≤ r.data.size) :
    Ends (byte r) pos fun _ stop => stop = pos + 1 ∧ stop ≤ r.limit := by
  refine .here_bind h hp ((take_ends h hp 1).bind fun _ stop ⟨hs, hl, _⟩ => ?_)
  exact .lift (by rw [r.byteAt_eq (by omega)]; nofun) fun _ _ => ⟨hs, hl⟩

theorem int32_ends (h : r.limit < r.data.size) (hp : pos ≤ r.data.size) :
    Ends (int32 r) pos fun _ stop => stop = pos + 4 ∧ stop ≤ r.limit :=
  (take_ends h hp 4).bind fun _ _ ⟨hs, hl, _⟩ => .pure ⟨hs, hl⟩

theorem int64_ends (h : r.limit < r.data.size) (hp : pos ≤ r.data.size) :
    Ends (int64 r) pos fun _ stop => stop = pos + 8 ∧ stop ≤ r.limit :=
  (take_ends h hp 8).bind fun _ _ ⟨hs, hl, _⟩ => .pure ⟨hs, hl⟩

theorem double_ends (h : r.limit < r.data.size) (hp : pos ≤ r.data.size) :
    Ends (double r) pos fun _ stop => stop = pos + 8 ∧ stop ≤ r.limit :=
  (take_ends h hp 8).bind fun _ _ ⟨hs, hl, _⟩ => .pure ⟨hs, hl⟩

theorem utf8_ne_fault (bytes : ByteArray) (offset : Nat) (fault : ReaderFault) :
    utf8 bytes offset ≠ .error (.reader fault) := by
  unfold utf8
  split <;> nofun

/-- A text may start anywhere up to the terminator. -/
theorem cstring_ends (h : r.limit < r.data.size) (hp : pos ≤ r.limit) :
    Ends (cstring r) pos fun _ stop => pos + 1 ≤ stop ∧ stop ≤ r.limit := by
  have hr := Region.checkRange_eq_ok.2 ⟨hp, Nat.le_of_lt h⟩
  refine .here_bind h (by omega) (.lift_bind hr ?_)
  split
  · exact .throw nofun
  · rename_i stop hf
    obtain ⟨h₁, h₂⟩ := Region.findZero?_bounds hf
    refine .lift_bind (r.plus_eq (by omega)) ?_
    refine (take_ends h (by omega) _).bind fun _ mid ⟨hm, hl, _⟩ => ?_
    refine .lift_bind (r.slice_eq h₁ (by omega)) (.lift (utf8_ne_fault _ _) fun _ _ => ?_)
    omega

theorem string_ends (h : r.limit < r.data.size) (hp : pos ≤ r.data.size) :
    Ends (string r) pos fun _ stop => pos + 5 ≤ stop ∧ stop ≤ r.limit := by
  refine .here_bind h hp ((int32_ends h hp).bind fun length mid ⟨hm, hl⟩ => ?_)
  refine .guard nofun fun hpos => .here_bind h (by omega) ?_
  refine (take_ends h (by omega) _).bind fun _ stop ⟨hs, hl', _⟩ => ?_
  refine .lift_bind (minus_eq (by omega)) (.lift_bind (r.byteAt_eq (by omega)) ?_)
  refine .guard nofun fun _ => .lift_bind (r.slice_eq (by omega) (by omega)) ?_
  exact .lift (utf8_ne_fault _ _) fun _ _ => by omega

end Cursor

namespace Frame

open Cursor

variable {r : Region} {pos : Nat} {α : Type}

/-! ### Frames and loops -/

theorem terminator_ends (h : r.limit < r.data.size) (hp : pos ≤ r.data.size) :
    Ends (terminator r) pos fun stop mid => mid = pos + 4 ∧ mid ≤ stop ∧ stop ≤ r.limit := by
  refine .here_bind h hp ((int32_ends h hp).bind fun length mid ⟨hm, _⟩ => ?_)
  refine .guard nofun fun hmin => ?_
  simp only [minDocumentSize] at hmin
  refine .lift_bind (minus_eq (by omega)) (.guard nofun fun hl => ?_)
  refine .lift_bind (r.byteAt_eq (by omega)) (.guard nofun fun _ => .pure ?_)
  omega

/-- A frame ends behind its terminator, which may be the terminator in force. -/
theorem framed_ends {body : Region → Cursor α} (h : r.limit < r.data.size)
    (hp : pos ≤ r.data.size)
    (hb : ∀ stop mid, mid ≤ stop → stop ≤ r.limit →
      Ends (body { r with limit := stop }) mid fun _ _ => True) :
    Ends (framed body r) pos fun _ stop => pos + 5 ≤ stop ∧ stop ≤ r.limit + 1 := by
  refine (terminator_ends h hp).bind fun stop mid ⟨hm, hs, hl⟩ => ?_
  refine (hb stop mid hs hl).bind fun _ _ _ => .lift_bind (r.plus_eq (by omega)) ?_
  refine .bind (.set (Q := fun _ last => last = stop + 1) rfl) fun _ _ he => .pure ?_
  omega

/-- A step of a loop in a window: it takes two bytes at least and passes the terminator by one
byte at most. -/
def StepEnds (r : Region) (step : Cursor α) : Prop :=
  ∀ pos < r.limit, Ends step pos fun _ stop => pos + 2 ≤ stop ∧ stop ≤ r.limit + 1

theorem round_ends {step : Cursor α} (h : r.limit < r.data.size) (hs : StepEnds r step)
    (hp : pos < r.limit) :
    Ends (round r step) pos fun _ stop => pos + 2 ≤ stop ∧ stop ≤ r.limit + 1 := by
  refine .here_bind h (by omega) ((hs pos hp).bind fun _ mid ⟨h₁, h₂⟩ => ?_)
  refine .here_bind h (by omega) ?_
  rw [if_neg (by omega)]
  exact .pure ⟨h₁, h₂⟩

/-- With as many rounds as bytes a loop reaches the terminator. -/
theorem rounds_ends {step : α → Cursor α} (h : r.limit < r.data.size)
    (hs : ∀ a, StepEnds r (step a)) (n : Nat) (a : α) (hp : pos ≤ r.limit + 1)
    (hn : r.limit ≤ pos + n) :
    Ends (rounds r step n a) pos fun _ stop => r.limit ≤ stop ∧ stop ≤ r.limit + 1 := by
  -- the rounds that are left are at least as many as the bytes before the terminator
  induction n generalizing a pos with
  | zero =>
    refine .here_bind h (by omega) ?_
    rw [if_neg (by omega)]
    exact .pure ⟨hn, hp⟩
  | succ n ih =>
    refine .here_bind h (by omega) ?_
    split
    · rename_i hlt
      refine (round_ends h (hs a) hlt).bind fun a' mid ⟨h₁, h₂⟩ => ?_
      exact ih a' h₂ (by omega)
    · exact .pure ⟨by omega, hp⟩

theorem elements_ends {step : α → Cursor α} (h : r.limit < r.data.size)
    (hs : ∀ a, StepEnds r (step a)) (a : α) (hp : pos ≤ r.limit) :
    Ends (elements r step a) pos fun _ stop => stop = r.limit := by
  refine .here_bind h (by omega) ?_
  refine (rounds_ends h hs _ a (by omega) (by omega)).bind fun a' stop ⟨_, h₂⟩ => ?_
  refine .here_bind h (by omega) (.guard nofun fun he => .pure ?_)
  exact Decidable.of_not_not he

/-! ### Payloads -/

/-- A reader of payloads that stays in bounds: from before the terminator it moves on, and passes
the terminator by one byte at most. -/
def PayloadEnds (payload : PayloadReader) : Prop :=
  ∀ (r : Region) (tag : Tag) (pos : Nat), r.limit < r.data.size → pos ≤ r.limit →
    Ends (payload r tag) pos fun _ stop => pos ≤ stop ∧ stop ≤ r.limit + 1

/-- The same of a reader of frames. -/
def FrameEnds (frame : Region → Cursor α) : Prop :=
  ∀ (r : Region) (pos : Nat), r.limit < r.data.size → pos ≤ r.data.size →
    Ends (frame r) pos fun _ stop => pos ≤ stop ∧ stop ≤ r.limit + 1

theorem element_ends {κ : Type} {payload : PayloadReader} {key : String → Except Error κ}
    (hp : PayloadEnds payload) (hk : ∀ s fault, key s ≠ .error (.reader fault))
    (h : r.limit < r.data.size) : StepEnds r (element payload key r) := by
  intro pos hlt
  refine .here_bind h (by omega) ?_
  refine (byte_ends h (by omega)).bind fun tagByte _ ⟨h₁, h₂⟩ => ?_
  refine (cstring_ends h h₂).bind fun s mid ⟨h₃, h₄⟩ => ?_
  refine .bind (.lift (Q := fun _ e => e = mid) (hk s) fun _ _ => rfl) fun k _ he => ?_
  subst he
  split
  · exact .throw nofun
  · refine (hp r _ _ h h₄).bind fun v stop ⟨h₅, h₆⟩ => .pure ?_
    omega

theorem field_ends {payload : PayloadReader} (hp : PayloadEnds payload)
    (h : r.limit < r.data.size) (d : Document) : StepEnds r (field payload r d) := by
  intro pos hlt
  exact (element_ends hp (fun _ _ hf => by cases hf) h pos hlt).bind fun _ stop hs => .pure hs

theorem fields_ends {payload : PayloadReader} (hp : PayloadEnds payload)
    (h : r.limit < r.data.size) (hpos : pos ≤ r.limit) :
    Ends (fields payload r) pos fun _ stop => stop = r.limit :=
  elements_ends h (field_ends hp h) _ hpos

theorem index_ne_fault (key : String) (fault : ReaderFault) :
    index key ≠ .error (.reader fault) := by
  unfold index
  split <;> nofun

theorem place_ne_fault (items : Array Value) (key : String) (n : Nat) (v : Value)
    (bytesLeft : Nat) (fault : ReaderFault) :
    place items key n v bytesLeft ≠ .error (.reader fault) := by
  unfold place
  split
  · nofun
  · rw [minus_eq (by omega)]
    change (if _ then _ else _ : Except Error (Array Value)) ≠ _
    split <;> nofun

theorem item_ends {payload : PayloadReader} (hp : PayloadEnds payload)
    (h : r.limit < r.data.size) (all : Array Value) : StepEnds r (item payload r all) := by
  intro pos hlt
  refine (element_ends hp index_ne_fault h pos hlt).bind fun kv stop hs => ?_
  exact .here_bind h (by omega) (.lift (place_ne_fault _ _ _ _ _) fun _ _ => hs)

theorem items_ends {payload : PayloadReader} (hp : PayloadEnds payload)
    (h : r.limit < r.data.size) (hpos : pos ≤ r.limit) :
    Ends (items payload r) pos fun _ stop => stop = r.limit :=
  (elements_ends h (item_ends hp h) _ hpos).bind fun _ _ hs => .pure hs

theorem binaryData_ends (h : r.limit < r.data.size) (hp : pos ≤ r.data.size) (lengthAt : Nat)
    (subtype : UInt8) (length : Int32) :
    Ends (binaryData r lengthAt subtype length) pos fun _ stop => pos ≤ stop ∧ stop ≤ r.limit := by
  rw [binaryData]
  refine .guard nofun fun _ => (take_ends h hp _).bind fun _ stop ⟨hs, hl, _⟩ => .pure ?_
  omega

theorem binary_ends (h : r.limit < r.data.size) (hp : pos ≤ r.data.size) :
    Ends (binary r) pos fun _ stop => pos ≤ stop ∧ stop ≤ r.limit := by
  refine .here_bind h hp ((int32_ends h hp).bind fun outer mid ⟨hm, hl⟩ => ?_)
  refine (byte_ends h (by omega)).bind fun subtype mid' ⟨hm', hl'⟩ => ?_
  split
  · refine (int32_ends h (by omega)).bind fun length at_ ⟨ha, hl⟩ => ?_
    exact (binaryData_ends h (by omega) _ _ _).mono fun _ _ ⟨hs, hl⟩ => ⟨by omega, hl⟩
  · exact (binaryData_ends h (by omega) _ _ _).mono fun _ _ ⟨hs, hl⟩ => ⟨by omega, hl⟩

theorem objectId_ends (h : r.limit < r.data.size) (hp : pos ≤ r.data.size) :
    Ends (objectId r) pos fun _ stop => pos ≤ stop ∧ stop ≤ r.limit := by
  refine .here_bind h hp ((take_ends h hp 12).bind fun bytes stop ⟨hs, hl, hb⟩ => ?_)
  rw [ObjectId.ofBytes, dif_pos hb]
  exact .pure ⟨by omega, hl⟩

theorem int64Value_ends (promote : Bool) (h : r.limit < r.data.size) (hp : pos ≤ r.data.size) :
    Ends (int64Value promote r) pos fun _ stop => pos ≤ stop ∧ stop ≤ r.limit := by
  refine (int32_ends h hp).bind fun low mid ⟨hm, hl⟩ => ?_
  refine (int32_ends h (by omega)).bind fun high stop ⟨hs, hl'⟩ => ?_
  dsimp only
  split
  · exact .pure ⟨by omega, hl'⟩
  · exact .pure ⟨by omega, hl'⟩

theorem scopedCode_ends {document : Region → Cursor Document} (hd : FrameEnds document)
    (h : r.limit < r.data.size) (hp : pos ≤ r.data.size) :
    Ends (scopedCode document r) pos fun _ stop => pos ≤ stop ∧ stop ≤ r.limit + 1 := by
  refine .here_bind h hp ((int32_ends h hp).bind fun total mid ⟨hm, _⟩ => ?_)
  refine (string_ends h (by omega)).bind fun source mid' ⟨hm', _⟩ => ?_
  refine (hd r mid' h (by omega)).bind fun scope stop ⟨hs, hl⟩ => ?_
  refine .here_bind h (by omega) (.lift_bind (minus_eq (by omega)) (.guard nofun fun _ => .pure ?_))
  omega

theorem payloadWith_ends (promote : Bool) {document : Region → Cursor Document}
    {array : Region → Cursor (List Value)} (hd : FrameEnds document) (ha : FrameEnds array) :
    PayloadEnds (payloadWith promote document array) := by
  intro r tag pos h hp
  have hp' : pos ≤ r.data.size := by omega
  have still : ∀ v : Value, Ends (pure v) pos fun _ stop => pos ≤ stop ∧ stop ≤ r.limit + 1 :=
    fun _ => .pure ⟨Nat.le_refl pos, by omega⟩
  cases tag with
  | double => exact (double_ends h hp').bind fun _ _ ⟨hs, hl⟩ => .pure ⟨by omega, by omega⟩
  | string => exact (string_ends h hp').bind fun _ _ ⟨hs, hl⟩ => .pure ⟨by omega, by omega⟩
  | document => exact (hd r pos h hp').bind fun _ _ hs => .pure hs
  | array => exact (ha r pos h hp').bind fun _ _ hs => .pure hs
  | binary => exact (binary_ends h hp').bind fun _ _ ⟨hs, hl⟩ => .pure ⟨hs, by omega⟩
  | undefined => exact still _
  | objectId => exact (objectId_ends h hp').bind fun _ _ ⟨hs, hl⟩ => .pure ⟨hs, by omega⟩
  | boolean => exact (byte_ends h hp').bind fun _ _ ⟨hs, hl⟩ => .pure ⟨by omega, by omega⟩
  | dateTime => exact (int64_ends h hp').bind fun _ _ ⟨hs, hl⟩ => .pure ⟨by omega, by omega⟩
  | null => exact still _
  | regex =>
    refine (cstring_ends h hp).bind fun pattern mid ⟨hm, hl⟩ => ?_
    exact (cstring_ends h hl).bind fun options stop ⟨hs, hl'⟩ => .pure ⟨by omega, by omega⟩
  | code => exact (string_ends h hp').bind fun _ _ ⟨hs, hl⟩ => .pure ⟨by omega, by omega⟩
  | symbol => exact (string_ends h hp').bind fun _ _ ⟨hs, hl⟩ => .pure ⟨by omega, by omega⟩
  | scopedCode => exact scopedCode_ends hd h hp'
  | int32 => exact (int32_ends h hp').bind fun _ _ ⟨hs, hl⟩ => .pure ⟨by omega, by omega⟩
  | timestamp =>
    refine (int32_ends h hp').bind fun low mid ⟨hm, hl⟩ => ?_
    exact (int32_ends h (by omega)).bind fun high stop ⟨hs, hl'⟩ => .pure ⟨by omega, by omega⟩
  | int64 => exact (int64Value_ends promote h hp').mono fun _ _ ⟨hs, hl⟩ => ⟨hs, by omega⟩
  | maxKey => exact still _
  | minKey => exact still _

theorem tooDeep_ends : FrameEnds (fun _ => (tooDeep : Cursor α)) :=
  fun _ _ _ _ => .throw nofun

/-- However deep the frames in it may nest, a payload is read in bounds. -/
theorem payload_ends (promote : Bool) (levels : Nat) : PayloadEnds (payload promote levels) := by
  -- a frame inside has one level less, and its own terminator in force
  induction levels with
  | zero => exact payloadWith_ends promote tooDeep_ends tooDeep_ends
  | succ levels ih =>
    refine payloadWith_ends promote (fun r pos h hp => ?_) fun r pos h hp => ?_
    · refine (framed_ends h hp fun stop mid hm hs => ?_).mono fun _ _ _ => by omega
      exact (fields_ends ih (show stop < r.data.size by omega) hm).mono fun _ _ _ => trivial
    · refine (framed_ends h hp fun stop mid hm hs => ?_).mono fun _ _ _ => by omega
      exact (items_ends ih (show stop < r.data.size by omega) hm).mono fun _ _ _ => trivial

theorem document_ends (promote : Bool) (levels : Nat) : FrameEnds (document promote levels) := by
  cases levels with
  | zero => exact tooDeep_ends
  | succ levels =>
    intro r pos h hp
    refine (framed_ends h hp fun stop mid hm hs => ?_).mono fun _ _ _ => by omega
    exact (fields_ends (payload_ends promote levels) (show stop < r.data.size by omega) hm).mono
      fun _ _ _ => trivial

end Frame

/-! ### Reading on -/

namespace Reader

/-- What holds of a reader at all times: its terminator and its cursor are in the input. -/
structure InInput (r : Reader) : Prop where
  limit_lt : r.limit < r.data.size
  position_le : r.position ≤ r.data.size

/-- A reader is made at an offset of the input if the input ends in a zero byte. -/
theorem ofBytes_eq {data : ByteArray} {start : Nat} (promote : Bool) (h : start < data.size) :
    ofBytes data start promote =
      if data.data.toList.getLast? = some 0 then
        .ok { data, limit := data.size - 1, position := start, promote }
      else .error (.missingTerminator (data.size - 1)) := by
  have hlt : data.size - 1 < data.size := by omega
  have last : data.data.toList.getLast? = some data[data.size - 1] := by
    rw [List.getLast?_eq_getElem?, Array.getElem?_toList]
    exact Array.getElem?_eq_getElem hlt
  unfold ofBytes
  rw [if_neg (by omega), minus_eq (by omega)]
  change (Region.byteAt _ _ >>= _ : Except Error Reader) = _
  rw [Region.byteAt_eq hlt, last]
  by_cases hz : data[data.size - 1] = 0
  · rw [if_pos (congrArg some hz)]
    change (if _ then _ else _ : Except Error Reader) = _
    exact if_neg (not_not_intro hz)
  · rw [if_neg (fun h => hz (Option.some.inj h))]
    change (if _ then _ else _ : Except Error Reader) = _
    exact if_pos hz

theorem ofBytes_eq_ok {data : ByteArray} {start : Nat} {promote : Bool} {r : Reader} :
    ofBytes data start promote = .ok r ↔
      start < data.size ∧ data.data.toList.getLast? = some 0 ∧
        r = { data, limit := data.size - 1, position := start, promote } := by
  by_cases h : start < data.size
  · rw [ofBytes_eq promote h]
    by_cases hz : data.data.toList.getLast? = some 0
    · rw [if_pos hz]
      exact ⟨fun he => ⟨h, hz, by cases he; rfl⟩, fun ⟨_, _, he⟩ => he ▸ rfl⟩
    · rw [if_neg hz]
      exact ⟨nofun, fun ⟨_, hz', _⟩ => absurd hz' hz⟩
  · have : ofBytes data start promote = .error (.boundsExceeded start (.startBeyond data.size)) :=
      if_pos (by omega)
    simp [this, h]

theorem ofBytes_ne_fault (data : ByteArray) (start : Nat) (promote : Bool) (fault : ReaderFault) :
    ofBytes data start promote ≠ .error (.reader fault) := by
  by_cases h : start < data.size
  · rw [ofBytes_eq promote h]
    split <;> nofun
  · unfold ofBytes
    rw [if_pos (by omega)]
    nofun

theorem InInput.ofBytes {data : ByteArray} {start : Nat} {promote : Bool} {r : Reader}
    (h : ofBytes data start promote = .ok r) : r.InInput := by
  obtain ⟨h₁, _, rfl⟩ := ofBytes_eq_ok.1 h
  exact ⟨show data.size - 1 < data.size by omega, show start ≤ data.size by omega⟩

theorem InInput.nextPosition_le {r : Reader} (h : r.InInput) : r.nextPosition ≤ r.data.size := by
  have hl := h.limit_lt
  have hp := h.position_le
  unfold nextPosition
  split
  · exact hp
  · split
    · rename_i stop mid ht
      have hs := (Frame.terminator_ends (r := r.region) hl hp).2 stop mid ht
      have hs' : stop ≤ r.limit := hs.2.2
      omega
    · split <;> omega

/-- One read keeps a reader in its input and ends in no fault. -/
theorem InInput.readDocument {r : Reader} (h : r.InInput) :
    r.readDocument.2.InInput ∧ ∀ fault, r.readDocument.1 ≠ .error (.reader fault) := by
  refine ⟨⟨h.limit_lt, h.nextPosition_le⟩, fun fault hf => ?_⟩
  have hd := (Frame.document_ends r.promote r.levels r.region r.position h.limit_lt
    h.position_le).1 fault
  simp only [Reader.readDocument] at hf
  cases hr : Frame.document r.promote r.levels r.region r.position with
  | ok p => rw [hr] at hf; cases hf
  | error e =>
    rw [hr] at hf
    cases hf
    exact hd hr

/-- Reading on after a failure is as safe as the first read. -/
theorem InInput.readEach {r : Reader} (h : r.InInput) (count : Nat) :
    ∀ step ∈ r.readEach count, step.2.InInput ∧ ∀ fault, step.1 ≠ .error (.reader fault) := by
  induction count generalizing r with
  | zero => intro step hs; cases hs
  | succ count ih =>
    intro step hs
    rcases List.mem_cons.1 hs with rfl | hs
    · exact h.readDocument
    · exact ih h.readDocument.1 step hs

theorem InInput.readAll_ne_fault {r : Reader} (h : r.InInput) (count : Nat)
    (fault : ReaderFault) : r.readAll count ≠ .error (.reader fault) := by
  induction count generalizing r with
  | zero => nofun
  | succ count ih =>
    intro hf
    obtain ⟨hn, hd⟩ := h.readDocument
    change Except.bind r.readDocument.1 (fun d =>
      Except.bind (r.readDocument.2.readAll count) fun p => .ok (d :: p.1, p.2)) = _ at hf
    cases hr : r.readDocument.1 with
    | error e => rw [hr] at hf; cases hf; exact hd fault hr
    | ok d =>
      rw [hr] at hf
      change Except.bind (r.readDocument.2.readAll count) _ = _ at hf
      cases ha : r.readDocument.2.readAll count with
      | error e => rw [ha] at hf; cases hf; exact ih hn ha
      | ok p => rw [ha] at hf; cases hf

end Reader

theorem decodeMany_ne_fault (data : ByteArray) (start count : Nat) (options : DecodeOptions)
    (fault : ReaderFault) : decodeMany data start count options ≠ .error (.reader fault) := by
  intro hf
  unfold decodeMany at hf
  split at hf
  · cases hf
  · change Except.bind (Reader.ofBytes _ _ _) _ = _ at hf
    cases hr : Reader.ofBytes data start options.promoteLongs with
    | error e => rw [hr] at hf; cases hf; exact Reader.ofBytes_ne_fault _ _ _ fault hr
    | ok r =>
      rw [hr] at hf
      change Except.bind (r.readAll count) _ = _ at hf
      cases ha : r.readAll count with
      | error e =>
        rw [ha] at hf
        cases hf
        exact (Reader.InInput.ofBytes hr).readAll_ne_fault count fault ha
      | ok p => rw [ha] at hf; cases hf

/-- **Reading never leaves its bounds and always ends.** Whatever the input, the offset and the
number of reads, and with failed reads among them, no read ends in a fault of the reader, and the
terminator and the cursor stay in the input. In every window that a frame of the input opens, a
round of the loop over its elements takes two bytes at least. -/
theorem reading_in_bounds (data : ByteArray) (start count : Nat) (promote : Bool) :
    (∀ fault, Reader.ofBytes data start promote ≠ .error (.reader fault)) ∧
      (∀ fault, decodeMany data start count { promoteLongs := promote } ≠
        .error (.reader fault)) ∧
      (∀ r, Reader.ofBytes data start promote = .ok r →
        r.InInput ∧ ∀ step ∈ r.readEach count,
          step.2.InInput ∧ ∀ fault, step.1 ≠ .error (.reader fault)) ∧
      ∀ levels stop, stop < data.size →
        Frame.StepEnds ⟨data, stop⟩
            (Frame.element (Frame.payload promote levels) .ok ⟨data, stop⟩) ∧
          Frame.StepEnds ⟨data, stop⟩
            (Frame.element (Frame.payload promote levels) Frame.index ⟨data, stop⟩) := by
  refine ⟨Reader.ofBytes_ne_fault data start promote, decodeMany_ne_fault data start count _,
    fun _ hr => ⟨.ofBytes hr, (Reader.InInput.ofBytes hr).readEach count⟩,
    fun levels stop hs => ⟨?_, ?_⟩⟩
  · exact Frame.element_ends (Frame.payload_ends promote levels) (fun _ _ hf => by cases hf) hs
  · exact Frame.element_ends (Frame.payload_ends promote levels) Frame.index_ne_fault hs

/-- Three reads from the second byte on, where no document stands: each fails, and none leaves the
input. -/
theorem reading_in_bounds_after_failures :
    (Reader.ofBytes ⟨#[7, 5, 0, 0, 0, 1, 0]⟩ 1 true = .ok ⟨⟨#[7, 5, 0, 0, 0, 1, 0]⟩, 6, 1, 0, true⟩) ∧
      ∀ step ∈ Reader.readEach ⟨⟨#[7, 5, 0, 0, 0, 1, 0]⟩, 6, 1, 0, true⟩ 3,
        step.2.InInput ∧ ∀ fault, step.1 ≠ .error (.reader fault) :=
  have h : Reader.ofBytes ⟨#[7, 5, 0, 0, 0, 1, 0]⟩ 1 true =
      .ok ⟨⟨#[7, 5, 0, 0, 0, 1, 0]⟩, 6, 1, 0, true⟩ := by rfl
  ⟨h, ((reading_in_bounds _ 1 3 true).2.2.1 _ h).2⟩

end Bson
