import Bson.Codec
import Bson.Proofs.Grammar.Reading
import Bson.Proofs.Reading.Moved

/-!
# A frame is read from its own bytes

Bytes that start with their own length are a frame, be they well formed or not. What is read from a
frame, or the error that is met in it, depends on nothing but its bytes, its place and the number of
frames that may be opened: not on what stands in front of it or behind it, nor on how far the window
reaches in which it stands. And a frame that is cut off is not read.

* `IsFrame`: bytes that start with their own length. `Region.HoldsFrame`: a window that holds them.
* `Frame.terminator_of_holds`: the terminator of a frame, or the byte that stands in its place.
* `Frame.document_of_holds`, `Frame.payload_of_holds`: a frame is read as if it were the whole
  input.
* `decode_frame_append`: so it is decoded, with or without bytes behind it.
* `frames_confined`: all of it.
-/

namespace Bson

/-- Bytes that start with their own length; the others may be anything. -/
structure IsFrame (f : ByteArray) : Prop where
  le_size : minDocumentSize ≤ f.size
  length_eq : LittleEndian.value (f.data.toList.take 4) = f.size

/-- A frame stands at an offset of the input, and the window holds all of it. -/
structure Region.HoldsFrame (r : Region) (f : ByteArray) (k : Nat) : Prop where
  limit_lt : r.limit < r.data.size
  fits : k + f.size ≤ r.limit + 1
  bytes_prefix : f.data.toList <+: r.data.data.toList.drop k

theorem Error.moved_zero (e : Error) : e.moved 0 = e := by
  have hfault : ∀ fault : BoundsFault, fault.moved 0 = fault := by
    intro fault
    cases fault <;> simp [BoundsFault.moved]
  cases e <;> simp [Error.moved, hfault]

theorem Cursor.moved_zero {α : Type} (x : Except Error (α × Nat)) : moved 0 id x = x := by
  cases x with
  | error e => exact congrArg Except.error e.moved_zero
  | ok p => exact congrArg (fun stop => Except.ok (p.1, stop)) (Nat.zero_add p.2)

/-! ### The window of a frame -/

namespace IsFrame

variable {f : ByteArray}

/-- The length field of a frame. -/
theorem take_four (hf : IsFrame f) :
    f.data.toList.take 4 = Grammar.int32 (Int32.ofNat f.size) ∧
      (Int32.ofNat f.size).toUInt32.toNat = f.size := by
  have hmin := hf.le_size
  have hsize : f.data.toList.length = f.size := rfl
  rw [minDocumentSize] at hmin
  have hfour : (f.data.toList.take 4).length = 4 := by
    rw [List.length_take]
    omega
  have hbytes := LittleEndian.bytes_value (f.data.toList.take 4)
  have hlt := LittleEndian.value_lt (f.data.toList.take 4)
  rw [hfour, hf.length_eq] at hbytes hlt
  have hnat : (Int32.ofNat f.size).toUInt32.toNat = f.size := Nat.mod_eq_of_lt hlt
  exact ⟨by rw [Grammar.int32, hnat, hbytes], hnat⟩

/-- A frame alone is held by the window that it is. -/
theorem holds_self (hf : IsFrame f) : (Region.mk f (f.size - 1)).HoldsFrame f 0 := by
  have hmin := hf.le_size
  rw [minDocumentSize] at hmin
  exact ⟨show f.size - 1 < f.size by omega, show 0 + f.size ≤ f.size - 1 + 1 by omega,
    List.prefix_refl _⟩

end IsFrame

/-- The bytes of a frame stand in the input that holds it, up to any end inside the frame. -/
theorem Region.HoldsFrame.within {r : Region} {f : ByteArray} {k : Nat} (h : r.HoldsFrame f k)
    {stop : Nat} (hs : stop < f.size) :
    (Region.mk f stop).Within { r with limit := k + stop } k :=
  ⟨hs, rfl, h.bytes_prefix⟩

namespace Frame

open Cursor

variable {r r' : Region} {f : ByteArray} {k : Nat} {promote : Bool} {levels : Nat}

/-- The terminator of a frame is found at its last byte, if that is zero. -/
theorem terminator_of_holds (hf : IsFrame f) (h : r.HoldsFrame f k) :
    terminator r k =
      if f.data.toList.getLast? = some 0 then .ok (k + (f.size - 1), k + 4)
      else .error (.missingTerminator (k + (f.size - 1))) := by
  obtain ⟨hlt, hfits, t, ht⟩ := h
  obtain ⟨hfour, hnat⟩ := hf.take_four
  have hmin := hf.le_size
  rw [minDocumentSize] at hmin
  have hlength : int32 r k = .ok (Int32.ofNat f.size, k + 4) := by
    refine (int32_eq_ok hlt).2 ⟨by rw [Grammar.length_int32], by omega, ?_⟩
    rw [← hfour, ← ht]
    exact (List.take_prefix 4 _).trans (List.prefix_append _ t)
  obtain ⟨b, hb⟩ : ∃ b, f.data.toList[f.size - 1]? = some b :=
    ⟨_, List.getElem?_eq_getElem (show f.size - 1 < f.size by omega)⟩
  have hlast : r.byteAt (k + (f.size - 1)) = .ok b := by
    rw [Region.byteAt_eq_ok, ← List.getElem?_drop, ← ht,
      List.getElem?_append_left (show f.size - 1 < f.size by omega), hb]
  rw [terminator, bind_of_ok (here_eq hlt (by omega)), bind_of_ok hlength]
  simp only [hnat]
  refine (guard_of_not (by rw [minDocumentSize]; omega)).trans ?_
  refine (lift_bind_of_ok (minus_eq (by omega))).trans ?_
  refine (guard_of_not (by omega)).trans ((lift_bind_of_ok hlast).trans ?_)
  rw [List.getLast?_eq_getElem?, show f.data.toList.length = f.size from rfl, hb]
  by_cases hz : b = 0
  · rw [if_pos (congrArg some hz)]
    exact guard_of_not (not_not_intro hz)
  · rw [if_neg fun he => hz (Option.some.inj he)]
    exact guard_of hz

/-- So it is found wherever the frame stands. -/
theorem terminator_moves_of_holds (hf : IsFrame f) (h : r.HoldsFrame f k) :
    Moves k (k + ·) (terminator ⟨f, f.size - 1⟩) (terminator r) 0 := by
  rw [Moves, Nat.add_zero, terminator_of_holds hf h, terminator_of_holds hf hf.holds_self]
  split
  · simp only [moved, Nat.zero_add]
  · simp only [moved, Error.moved, Nat.zero_add]

/-! ### Frames in larger inputs -/

/-- A frame is read as if it were the whole input, if what is in it is read so. -/
theorem framed_of_holds {α : Type} {body : Region → Cursor α} (hf : IsFrame f)
    (h : r.HoldsFrame f k)
    (he : ∀ stop mid, mid ≤ stop → stop < f.size → Ends (body ⟨f, stop⟩) mid fun _ _ => True)
    (hb : ∀ stop mid, mid ≤ stop → stop < f.size →
      Moves k id (body ⟨f, stop⟩) (body { r with limit := k + stop }) mid) :
    Moves k id (framed body ⟨f, f.size - 1⟩) (framed body r) 0 := by
  have hmin := hf.le_size
  rw [minDocumentSize] at hmin
  have hfits := h.bytes_prefix.length_le
  rw [List.length_drop] at hfits
  change f.size ≤ r.data.size - k at hfits
  -- inside the frame the window is that of the frame, in both inputs
  have hinside : ∀ {stop}, stop ≤ f.size - 1 → stop < f.size := by omega
  exact framed_moves (terminator_moves_of_holds hf h) (hinside (Nat.le_refl _))
    (show k + f.size ≤ r.data.size by omega) (Nat.zero_le _)
    (fun stop mid hm hs => he stop mid hm (hinside hs))
    fun stop mid hm hs => hb stop mid hm (hinside hs)

theorem document_of_holds (hf : IsFrame f) (h : r.HoldsFrame f k) :
    Moves k id (document promote levels ⟨f, f.size - 1⟩) (document promote levels r) 0 := by
  cases levels with
  | zero => exact .throw rfl
  | succ levels =>
    have he := payload_ends promote levels
    refine framed_of_holds hf h (fun stop mid hm hs => ?_) fun stop mid hm hs => ?_
    · exact (fields_ends he (show stop < f.size from hs) hm).mono fun _ _ _ => trivial
    · exact fields_moves he (payload_moves promote levels) (h.within hs) hm

/-- So are the payloads that are frames. -/
theorem payload_of_holds (hf : IsFrame f) (h : r.HoldsFrame f k) {tag : Tag}
    (htag : tag = .document ∨ tag = .array) :
    Moves k id (payload promote levels ⟨f, f.size - 1⟩ tag) (payload promote levels r tag) 0 := by
  rcases htag with rfl | rfl
  · have hd : Moves k id (document promote levels ⟨f, f.size - 1⟩) (document promote levels r) 0 :=
      document_of_holds hf h
    cases levels with
    | zero => exact .map hd
    | succ levels => exact .map hd
  · cases levels with
    | zero => exact .map (.throw rfl)
    | succ levels =>
      have he := payload_ends promote levels
      refine .map (framed_of_holds hf h (fun stop mid hm hs => ?_) fun stop mid hm hs => ?_)
      · exact (items_ends he (show stop < f.size from hs) hm).mono fun _ _ _ => trivial
      · exact items_moves he (payload_moves promote levels) (h.within hs) hm

end Frame

/-! ### Whole inputs -/

section Decoding

variable {f : ByteArray} (options : DecodeOptions)

/-- A frame is decoded to what its bytes are read as, with or without bytes behind it. -/
theorem decode_frame_append (hf : IsFrame f) (s : ByteArray)
    (hs : s.size = 0 ∨ s.data.toList.getLast? = some 0) :
    decode (f ++ s) options =
      (Frame.document options.promoteLongs maxDepth ⟨f, f.size - 1⟩ 0).map (·.1) := by
  have hmin := hf.le_size
  rw [minDocumentSize] at hmin
  have hsize : (f ++ s).size = f.size + s.size := ByteArray.size_append
  have hlist : (f ++ s).data.toList = f.data.toList ++ s.data.toList := by
    rw [ByteArray.data_append, Array.toList_append]
  have hholds : (Region.mk (f ++ s) ((f ++ s).size - 1)).HoldsFrame f 0 :=
    ⟨show (f ++ s).size - 1 < (f ++ s).size by omega,
      show 0 + f.size ≤ (f ++ s).size - 1 + 1 by omega,
      hlist ▸ List.prefix_append _ _⟩
  have hread : Cursor.Moves _ _ (Frame.document options.promoteLongs maxDepth _) _ 0 :=
    Frame.document_of_holds hf hholds
  rw [Cursor.Moves, Nat.add_zero, Cursor.moved_zero] at hread
  rw [← hread]
  unfold decode
  rw [if_neg (by rw [minDocumentSize]; omega), Reader.ofBytes_eq _ (by omega)]
  by_cases hlast : (f ++ s).data.toList.getLast? = some 0
  · rw [if_pos hlast]
    rfl
  · -- then there is nothing behind the frame, and its last byte is no terminator
    rw [if_neg hlast]
    rw [hlist, List.getLast?_append] at hlast
    have hempty : s.size = 0 := hs.resolve_right fun hz => hlast (by rw [hz]; rfl)
    have hnil : s.data.toList = [] := List.length_eq_zero_iff.1 hempty
    rw [hnil, List.getLast?_nil, Option.none_or] at hlast
    have hterminator := Frame.terminator_of_holds hf hholds
    rw [if_neg hlast] at hterminator
    have hrefused : Frame.document options.promoteLongs maxDepth
        ⟨f ++ s, (f ++ s).size - 1⟩ 0 = .error (.missingTerminator (0 + (f.size - 1))) :=
      Cursor.bind_of_error hterminator
    rw [hrefused, hsize, hempty, Nat.zero_add]
    rfl

/-- A frame that is cut off is not decoded. -/
theorem decode_ne_ok_of_cut (hf : IsFrame f) {p : ByteArray}
    (hp : p.data.toList <+: f.data.toList) (hlt : p.size < f.size) (d : Document) :
    decode p options ≠ .ok d := by
  intro hd
  obtain ⟨length, es, hmeasures, -, hstarts⟩ := frame_of_decode hd
  -- the length that is read is that of the whole frame
  have hfour : f.data.toList.take 4 = Grammar.int32 length := by
    obtain ⟨t, ht⟩ := hstarts.trans hp
    rw [← ht, Grammar.enclosed, List.append_assoc, List.take_left' (Grammar.length_int32 length)]
  have hlength : length.toUInt32.toNat = f.size := by
    rw [← hf.length_eq, hfour, Grammar.int32, LittleEndian.value_bytes]
    exact (Nat.mod_eq_of_lt length.toUInt32.toNat_lt).symm
  have hle : (Grammar.enclosed length es.bytes).length ≤ p.size := hstarts.length_le
  rw [Grammar.MeasuresFrame] at hmeasures
  omega

end Decoding

/-- **The outcome of a frame depends on the frame alone.** Bytes that start with their own length,
well formed or not, are decoded to the same document or the same error, with the same offsets,
whatever follows them, if it is nothing or ends in a zero byte. At the same place in two inputs, in
two windows that hold them, with the same number of frames that may be opened, they are read as the
same document, scope or array or refused with the same error, whatever the other bytes are. And
without its end no frame is decoded. -/
theorem frames_confined (f : ByteArray) (hf : IsFrame f) :
    (∀ (s : ByteArray) (options : DecodeOptions),
      s.size = 0 ∨ s.data.toList.getLast? = some 0 →
        decode (f ++ s) options = decode f options) ∧
    (∀ (promote : Bool) (levels k : Nat) (r r' : Region),
      r.HoldsFrame f k → r'.HoldsFrame f k →
        Frame.document promote levels r' k = Frame.document promote levels r k ∧
        ∀ tag, tag = .document ∨ tag = .array →
          Frame.payload promote levels r' tag k = Frame.payload promote levels r tag k) ∧
    ∀ (p : ByteArray) (options : DecodeOptions), p.data.toList <+: f.data.toList →
      p.size < f.size → ∃ e, decode p options = .error e := by
  refine ⟨fun s options hs => ?_, fun promote levels k r r' h h' => ⟨?_, fun tag htag => ?_⟩,
    fun p options hp hlt => ?_⟩
  · have halone := decode_frame_append options hf .empty (.inl rfl)
    rw [ByteArray.append_empty] at halone
    rw [decode_frame_append options hf s hs, halone]
  · exact (Frame.document_of_holds hf h').trans (Frame.document_of_holds hf h).symm
  · exact (Frame.payload_of_holds hf h' htag).trans (Frame.payload_of_holds hf h htag).symm
  · cases hd : decode p options with
    | error e => exact ⟨e, rfl⟩
    | ok d => exact absurd hd (decode_ne_ok_of_cut options hf hp hlt d)

/-- A frame that ends with the frame in it. -/
def swallowedFrame : ByteArray := ⟨#[12, 0, 0, 0, 3, 100, 0, 5, 0, 0, 0, 0]⟩

/-- It is refused with more bytes behind it, between other bytes and cut off. -/
theorem frames_confined_swallowed :
    IsFrame swallowedFrame ∧
      decode (swallowedFrame ++ ⟨#[1, 2, 0]⟩) {} = .error (.lengthMismatch 11 12) ∧
      (Region.mk (⟨#[7, 7]⟩ ++ swallowedFrame) 13).HoldsFrame swallowedFrame 2 ∧
      (Region.mk (⟨#[9, 0]⟩ ++ swallowedFrame ++ ⟨#[8, 0]⟩) 15).HoldsFrame swallowedFrame 2 ∧
      Frame.payload true 2 ⟨⟨#[9, 0]⟩ ++ swallowedFrame ++ ⟨#[8, 0]⟩, 15⟩ .document 2 =
        .error (.lengthMismatch 13 14) ∧
      ∃ e, decode ⟨#[12, 0, 0, 0, 3, 100, 0, 5, 0, 0, 0]⟩ {} = .error e := by
  have hf : IsFrame swallowedFrame := ⟨by decide, by decide⟩
  obtain ⟨hbehind, hwhere, hcut⟩ := frames_confined swallowedFrame hf
  have halone : decode swallowedFrame {} = .error (.lengthMismatch 11 12) := by rfl
  have hlast : (Region.mk (⟨#[7, 7]⟩ ++ swallowedFrame) 13).HoldsFrame swallowedFrame 2 :=
    ⟨by decide, by decide, by decide⟩
  have hmiddle : (Region.mk (⟨#[9, 0]⟩ ++ swallowedFrame ++ ⟨#[8, 0]⟩) 15).HoldsFrame
      swallowedFrame 2 := ⟨by decide, by decide, by decide⟩
  have hpayload : Frame.payload true 2 ⟨⟨#[7, 7]⟩ ++ swallowedFrame, 13⟩ .document 2 =
      .error (.lengthMismatch 13 14) := by rfl
  refine ⟨hf, ?_, hlast, hmiddle, ?_, hcut _ {} (by decide) (by decide)⟩
  · rw [hbehind ⟨#[1, 2, 0]⟩ {} (.inr (by decide)), halone]
  · rw [(hwhere true 2 2 _ _ hlast hmiddle).2 .document (.inl rfl), hpayload]

end Bson
