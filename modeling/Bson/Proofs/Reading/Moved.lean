import Bson.Proofs.Reading.Spans

/-!
# Reading in a larger input

What stands in a window of an input is read as it would be if the window were the whole input, with
all offsets moved by the place of the window: those at which reading goes on, and those in the
errors.

* `Error.moved`: an error with the offsets in it moved.
* `Region.Within`: the bytes of one region stand in those of another.
* `Cursor.Moves`: steps in the larger region do what the same steps do in the smaller one. The rules
  `Moves.bind`, `Moves.pure`, … follow the way in which steps are put together.
* `Frame.payload_moves`: payloads, by induction on the number of frames that may be opened.
-/

namespace Bson

/-- A fault with the offsets in it moved on. -/
def BoundsFault.moved (k : Nat) : BoundsFault → BoundsFault
  | .readPast count limit => .readPast count (k + limit)
  | fault => fault

/-- An error with the offsets in it moved on. -/
def Error.moved (k : Nat) : Error → Error
  | .boundsExceeded offset fault => .boundsExceeded (k + offset) (fault.moved k)
  | .unterminatedText offset => .unterminatedText (k + offset)
  | .lengthMismatch expected actual => .lengthMismatch (k + expected) (k + actual)
  | .unknownTag byte offset => .unknownTag byte (k + offset)
  | .missingTerminator offset => .missingTerminator (k + offset)
  | .invalidUtf8 offset => .invalidUtf8 (k + offset)
  | e => e

variable {k : Nat}

/-! ### Regions -/

namespace Region

variable {r r' : Region} {a b n : Nat}

/-- The bytes of a region stand in a larger one from offset `k` on, and the same of them may be
read. -/
structure Within (r r' : Region) (k : Nat) : Prop where
  limit_lt : r.limit < r.data.size
  limit_eq : r'.limit = k + r.limit
  bytes_prefix : r.data.data.toList <+: r'.data.data.toList.drop k

theorem Within.size_le (w : r.Within r' k) : k + r.data.size ≤ r'.data.size := by
  have hle := w.bytes_prefix.length_le
  have hlt := w.limit_lt
  rw [List.length_drop] at hle
  change r.data.size ≤ r'.data.size - k at hle
  omega

theorem Within.lt_size (w : r.Within r' k) (hn : n ≤ r.limit) : n < r.data.size :=
  Nat.lt_of_le_of_lt hn w.limit_lt

/-- A narrower window. -/
theorem Within.narrow (w : r.Within r' k) (hn : n < r.data.size) :
    ({ r with limit := n } : Region).Within { r' with limit := k + n } k :=
  ⟨hn, rfl, w.bytes_prefix⟩

theorem Within.drop_prefix (w : r.Within r' k) (a : Nat) :
    r.data.data.toList.drop a <+: r'.data.data.toList.drop (k + a) := by
  obtain ⟨t, ht⟩ := w.bytes_prefix
  rw [← List.drop_drop, ← ht, List.drop_append]
  exact List.prefix_append _ _

theorem Within.byteAt_eq (w : r.Within r' k) (ha : a < r.data.size) :
    r'.byteAt (k + a) = r.byteAt a := by
  obtain ⟨t, ht⟩ := w.bytes_prefix
  refine (byteAt_eq_ok.2 ?_).trans (byteAt_eq_ok.2 (List.getElem?_eq_getElem ha)).symm
  rw [← List.getElem?_drop, ← ht, List.getElem?_append_left ha]
  exact List.getElem?_eq_getElem ha

theorem Within.slice_eq (w : r.Within r' k) (hab : a ≤ b) (hb : b ≤ r.data.size) :
    r'.slice (k + a) (k + b) = r.slice a b := by
  have hsize := w.size_le
  obtain ⟨bytes, hbytes⟩ : ∃ bytes, r.slice a b = .ok bytes := ⟨_, r.slice_eq hab hb⟩
  obtain ⟨hlen, -, hp⟩ := slice_eq_ok.1 hbytes
  rw [hbytes]
  exact slice_eq_ok.2 ⟨by omega, by omega, hp.trans (w.drop_prefix a)⟩

theorem Within.findZero?_eq (w : r.Within r' k) (h : a + n ≤ r.data.size) :
    r'.findZero? (k + a) n = (r.findZero? a n).map (k + ·) := by
  induction n generalizing a with
  | zero => rfl
  | succ n ih =>
    rw [findZero?, findZero?, w.byteAt_eq (by omega)]
    split
    · rfl
    · exact ih (a := a + 1) (by omega)

end Region

/-! ### Steps -/

namespace Cursor

variable {α β γ δ : Type} {pos : Nat}

/-- An outcome with its result changed by `g` and the offset after it, or those in the error, moved
on. -/
def moved (k : Nat) (g : α → β) : Except Error (α × Nat) → Except Error (β × Nat)
  | .ok (a, stop) => .ok (g a, k + stop)
  | .error e => .error (e.moved k)

/-- From `k + pos` on the steps `m'` do what the steps `m` do from `pos` on. -/
def Moves (k : Nat) (g : α → β) (m : Cursor α) (m' : Cursor β) (pos : Nat) : Prop :=
  m' (k + pos) = moved k g (m pos)

namespace Moves

variable {g : α → β} {m : Cursor α} {m' : Cursor β} {f : α → Cursor γ} {f' : β → Cursor δ}
  {h : γ → δ}

theorem bind {Q : α → Nat → Prop} (hm : Moves k g m m' pos) (he : Ends m pos Q)
    (hf : ∀ a mid, Q a mid → Moves k h (f a) (f' (g a)) mid) :
    Moves k h (m >>= f) (m' >>= f') pos := by
  unfold Moves at *
  change Except.bind (m' (k + pos)) _ = moved k h (Except.bind (m pos) _)
  rw [hm]
  cases hp : m pos with
  | error e => rfl
  | ok p => exact hf p.1 p.2 (he.2 _ _ hp)

theorem pure {a : α} {b : β} (hb : b = g a) : Moves k g (pure a) (pure b) pos := by
  rw [hb]
  rfl

theorem throw {e e' : Error} (he : e' = e.moved k) :
    Moves k g (throw e : Cursor α) (throw e') pos := by
  rw [he]
  rfl

theorem lift {x y : Except Error α} (hy : y = x.mapError (Error.moved k)) :
    Moves k id (liftM x) (liftM y) pos := by
  rw [hy]
  cases x <;> rfl

/-- A check that is passed on both sides. -/
theorem lift_bind {x : Except Error α} {y : Except Error β} {a : α} {b : β} (hx : x = .ok a)
    (hy : y = .ok b) (hf : Moves k h (f a) (f' b) pos) :
    Moves k h (liftM x >>= f) (liftM y >>= f') pos := by
  subst hx hy
  exact hf

/-- A refusal under the same condition. -/
theorem guard {c c' : Prop} [Decidable c] [Decidable c'] {e e' : Error} {f : PUnit → Cursor γ}
    {f' : PUnit → Cursor δ} (hc : c' ↔ c) (he : e' = e.moved k)
    (hf : ¬c → Moves k h (f ⟨⟩) (f' ⟨⟩) pos) :
    Moves k h (if c then (MonadExcept.throw e : Cursor PUnit) >>= f else f ⟨⟩)
      (if c' then (MonadExcept.throw e' : Cursor PUnit) >>= f' else f' ⟨⟩) pos := by
  by_cases hcond : c
  · rw [if_pos hcond, if_pos (hc.2 hcond), he]
    rfl
  · rw [if_neg hcond, if_neg (fun h => hcond (hc.1 h))]
    exact hf hcond

theorem set_bind {n : Nat} {f : PUnit → Cursor γ} {f' : PUnit → Cursor δ}
    (hf : Moves k h (f ⟨⟩) (f' ⟨⟩) n) :
    Moves k h (set n >>= f) (set (k + n) >>= f') pos := hf

end Moves

variable {r r' : Region}

/-- The cursor is found at the moved offset. -/
theorem Moves.here_bind {f : Nat → Cursor α} {f' : Nat → Cursor β} {g : α → β}
    (w : r.Within r' k) (hp : pos ≤ r.data.size) (hf : Moves k g (f pos) (f' (k + pos)) pos) :
    Moves k g (here r >>= f) (here r' >>= f') pos := by
  have hlt := w.limit_lt
  have hle := w.size_le
  have hlimit := w.limit_eq
  have hthere : here r' (k + pos) = .ok (k + pos, k + pos) := here_eq (by omega) (by omega)
  have hhere : here r pos = .ok (pos, pos) := here_eq hlt hp
  unfold Moves at *
  change Except.bind (here r' (k + pos)) _ = moved k g (Except.bind (here r pos) _)
  rw [hthere, hhere]
  exact hf

/-! ### Bytes, numbers and texts -/

theorem take_moves (w : r.Within r' k) (hp : pos ≤ r.data.size) (n : Nat) :
    Moves k id (take r n) (take r' n) pos := by
  have hlt := w.limit_lt
  have hle := w.size_le
  have hlimit := w.limit_eq
  refine .here_bind w hp (.guard (by omega) (by rw [hlimit]; rfl) fun hn => ?_)
  refine .lift_bind (r.plus_eq (by omega)) (b := k + (pos + n))
    (Region.plus_eq_ok.2 ⟨by omega, by omega⟩) (.set_bind (.lift ?_))
  rw [w.slice_eq (by omega) (by omega), r.slice_eq (by omega) (by omega)]
  rfl

/-- A step on what was taken. -/
theorem Moves.map {m m' : Cursor α} {f : α → β} (hm : Moves k id m m' pos) :
    Moves k id (do return f (← m)) (do return f (← m')) pos := by
  unfold Moves at *
  change Except.bind (m' (k + pos)) _ = moved k id (Except.bind (m pos) _)
  rw [hm]
  cases m pos <;> rfl

theorem int32_moves (w : r.Within r' k) (hp : pos ≤ r.data.size) :
    Moves k id (int32 r) (int32 r') pos := .map (take_moves w hp 4)

theorem int64_moves (w : r.Within r' k) (hp : pos ≤ r.data.size) :
    Moves k id (int64 r) (int64 r') pos := .map (take_moves w hp 8)

theorem double_moves (w : r.Within r' k) (hp : pos ≤ r.data.size) :
    Moves k id (double r) (double r') pos := .map (take_moves w hp 8)

theorem byte_moves (w : r.Within r' k) (hp : pos ≤ r.data.size) :
    Moves k id (byte r) (byte r') pos := by
  have hlt := w.limit_lt
  refine .here_bind w hp ((take_moves w hp 1).bind (take_ends w.limit_lt hp 1) ?_)
  intro _ stop ⟨hs, hl, _⟩
  refine .lift ?_
  rw [w.byteAt_eq (by omega), r.byteAt_eq (by omega)]
  rfl

theorem utf8_moved (bytes : ByteArray) (offset : Nat) :
    utf8 bytes (k + offset) = (utf8 bytes offset).mapError (Error.moved k) := by
  unfold utf8
  split <;> rfl

theorem cstring_moves (w : r.Within r' k) (hp : pos ≤ r.limit) :
    Moves k id (cstring r) (cstring r') pos := by
  have hlt := w.limit_lt
  have hle := w.size_le
  have hlimit := w.limit_eq
  have hcount : r'.limit - (k + pos) = r.limit - pos := by omega
  refine .here_bind w (by omega) (.lift_bind (Region.checkRange_eq_ok.2 ⟨hp, by omega⟩)
    (Region.checkRange_eq_ok.2 ⟨by omega, by omega⟩) ?_)
  rw [hcount, w.findZero?_eq (by omega)]
  cases hf : r.findZero? pos (r.limit - pos) with
  | none => exact .throw rfl
  | some stop =>
    obtain ⟨h₁, h₂⟩ := Region.findZero?_bounds hf
    have hcount : k + stop - (k + pos) = stop - pos := by omega
    dsimp only [Option.map_some]
    rw [hcount]
    refine .lift_bind (r.plus_eq (by omega)) (b := stop - pos + 1)
      (Region.plus_eq_ok.2 ⟨by omega, rfl⟩) ?_
    refine (take_moves w (by omega) _).bind (take_ends hlt (by omega) _) fun _ _ _ => ?_
    have hslice := r.slice_eq h₁ (show stop ≤ r.data.size by omega)
    exact .lift_bind hslice ((w.slice_eq h₁ (by omega)).trans hslice) (.lift (utf8_moved _ _))

theorem string_moves (w : r.Within r' k) (hp : pos ≤ r.data.size) :
    Moves k id (string r) (string r') pos := by
  have hlt := w.limit_lt
  refine .here_bind w hp ((int32_moves w hp).bind (int32_ends hlt hp) ?_)
  intro length mid ⟨hm, hl⟩
  refine .guard Iff.rfl rfl fun hpos => .here_bind w (by omega) ?_
  refine (take_moves w (by omega) _).bind (take_ends hlt (by omega) _) ?_
  intro _ stop ⟨hs, hl', _⟩
  simp only [id_eq] at hpos hs ⊢
  have hlast : k + mid + (length.toInt.toNat - 1) = k + (mid + (length.toInt.toNat - 1)) := by
    omega
  refine .lift_bind (minus_eq (by omega)) (minus_eq (by omega)) ?_
  rw [hlast]
  have hbyte := r.byteAt_eq (show mid + (length.toInt.toNat - 1) < r.data.size by omega)
  refine .lift_bind hbyte ((w.byteAt_eq (by omega)).trans hbyte) (.guard Iff.rfl rfl fun _ => ?_)
  have hslice := r.slice_eq (show mid ≤ mid + (length.toInt.toNat - 1) by omega) (by omega)
  exact .lift_bind hslice ((w.slice_eq (by omega) (by omega)).trans hslice)
    (.lift (utf8_moved _ _))

end Cursor

namespace Frame

open Cursor

variable {α : Type} {r r' : Region} {pos : Nat}

/-! ### Frames and loops -/

theorem terminator_moves (w : r.Within r' k) (hp : pos ≤ r.data.size) :
    Moves k (k + ·) (terminator r) (terminator r') pos := by
  have hlt := w.limit_lt
  have hlimit := w.limit_eq
  refine .here_bind w hp ((int32_moves w hp).bind (int32_ends hlt hp) ?_)
  intro length mid ⟨hm, _⟩
  simp only [id_eq]
  refine .guard Iff.rfl rfl fun hmin => ?_
  simp only [minDocumentSize] at hmin
  have hlast : k + pos + (length.toUInt32.toNat - 1) =
      k + (pos + (length.toUInt32.toNat - 1)) := by omega
  refine .lift_bind (minus_eq (by omega)) (minus_eq (by omega)) ?_
  rw [hlast]
  refine .guard (by omega) rfl fun hl => ?_
  have hbyte := r.byteAt_eq (show pos + (length.toUInt32.toNat - 1) < r.data.size by omega)
  exact .lift_bind hbyte ((w.byteAt_eq (by omega)).trans hbyte)
    (.guard Iff.rfl rfl fun _ => .pure rfl)

/-- A frame is read in the same way if its terminator is found in the same way. -/
theorem framed_moves {body : Region → Cursor α}
    (ht : Moves k (k + ·) (terminator r) (terminator r') pos) (hlt : r.limit < r.data.size)
    (hle : k + r.data.size ≤ r'.data.size) (hp : pos ≤ r.data.size)
    (he : ∀ stop mid, mid ≤ stop → stop ≤ r.limit →
      Ends (body { r with limit := stop }) mid fun _ _ => True)
    (hb : ∀ stop mid, mid ≤ stop → stop ≤ r.limit →
      Moves k id (body { r with limit := stop }) (body { r' with limit := k + stop }) mid) :
    Moves k id (framed body r) (framed body r') pos := by
  refine ht.bind (terminator_ends hlt hp) fun stop mid ⟨hm, hs, hl⟩ => ?_
  refine (hb stop mid hs hl).bind (he stop mid hs hl) fun _ _ _ => ?_
  exact .lift_bind (r.plus_eq (by omega)) (b := k + (stop + 1))
    (Region.plus_eq_ok.2 ⟨by omega, by omega⟩) (.set_bind (.pure rfl))

/-- A step of a loop does the same in the larger region, before the terminator. -/
def StepMoves (k : Nat) (r : Region) (step step' : Cursor α) : Prop :=
  ∀ pos < r.limit, Moves k id step step' pos

theorem round_moves {step step' : Cursor α} (w : r.Within r' k) (he : StepEnds r step)
    (hs : StepMoves k r step step') (hp : pos < r.limit) :
    Moves k id (round r step) (round r' step') pos := by
  have hlt := w.limit_lt
  refine .here_bind w (by omega) ((hs pos hp).bind (he pos hp) fun _ mid ⟨_, _⟩ => ?_)
  refine .here_bind w (by omega) ?_
  rw [if_neg (by omega), if_neg (by omega)]
  exact .pure rfl

theorem rounds_moves {step step' : α → Cursor α} (w : r.Within r' k)
    (he : ∀ a, StepEnds r (step a)) (hs : ∀ a, StepMoves k r (step a) (step' a)) (n : Nat) (a : α)
    (hp : pos ≤ r.limit + 1) (hn : r.limit ≤ pos + n) :
    Moves k id (rounds r step n a) (rounds r' step' n a) pos := by
  have hlt := w.limit_lt
  have hlimit := w.limit_eq
  -- the terminator is as far away in both regions, so the loops go on and stop together
  induction n generalizing a pos with
  | zero =>
    refine .here_bind w (by omega) ?_
    rw [if_neg (by omega), if_neg (by omega)]
    exact .pure rfl
  | succ n ih =>
    refine .here_bind w (by omega) ?_
    by_cases hcond : pos < r.limit
    · rw [if_pos hcond, if_pos (by omega)]
      refine (round_moves w (he a) (hs a) hcond).bind (round_ends hlt (he a) hcond) ?_
      intro a' mid ⟨h₁, h₂⟩
      exact ih a' h₂ (by omega)
    · rw [if_neg hcond, if_neg (by omega)]
      exact .pure rfl

theorem elements_moves {step step' : α → Cursor α} (w : r.Within r' k)
    (he : ∀ a, StepEnds r (step a)) (hs : ∀ a, StepMoves k r (step a) (step' a)) (a : α)
    (hp : pos ≤ r.limit) : Moves k id (elements r step a) (elements r' step' a) pos := by
  have hlt := w.limit_lt
  have hlimit := w.limit_eq
  have hcount : r'.limit - (k + pos) = r.limit - pos := by omega
  refine .here_bind w (by omega) ?_
  dsimp only
  rw [hcount]
  refine (rounds_moves w he hs _ a (by omega) (by omega)).bind
    (rounds_ends hlt he _ a (by omega) (by omega)) fun a' stop ⟨_, h₂⟩ => ?_
  refine .here_bind w (by omega) (.guard (by omega) (by rw [hlimit]; rfl) fun _ => .pure rfl)

/-! ### Payloads -/

/-- A reader of payloads does the same in a larger region. -/
def PayloadMoves (payload : PayloadReader) : Prop :=
  ∀ ⦃k : Nat⦄ ⦃r r' : Region⦄ (tag : Tag) ⦃pos : Nat⦄, r.Within r' k → pos ≤ r.limit →
    Moves k id (payload r tag) (payload r' tag) pos

/-- The same of a reader of frames. -/
def FrameMoves (frame : Region → Cursor α) : Prop :=
  ∀ ⦃k : Nat⦄ ⦃r r' : Region⦄ ⦃pos : Nat⦄, r.Within r' k → pos ≤ r.data.size →
    Moves k id (frame r) (frame r') pos

theorem element_moves {κ : Type} {payload : PayloadReader} {key : String → Except Error κ}
    (hm : PayloadMoves payload) (hk : ∀ s e, key s = .error e → e.moved k = e)
    (hf : ∀ s fault, key s ≠ .error (.reader fault)) (w : r.Within r' k) :
    StepMoves k r (element payload key r) (element payload key r') := by
  intro pos hlt
  have hl := w.limit_lt
  refine .here_bind w (by omega) ((byte_moves w (by omega)).bind (byte_ends hl (by omega)) ?_)
  intro tagByte mid ⟨h₁, h₂⟩
  refine (cstring_moves w h₂).bind (cstring_ends hl h₂) fun s after ⟨h₃, h₄⟩ => ?_
  have hkey : Moves k id (liftM (key s)) (liftM (key s)) after := by
    refine .lift ?_
    cases he : key s with
    | ok a => rfl
    | error e =>
      change _ = Except.error (e.moved k)
      rw [hk s e he]
  refine hkey.bind (.lift (Q := fun _ e => e = after) (hf s) fun _ _ => rfl) fun a _ he => ?_
  subst he
  simp only [id_eq]
  cases Tag.ofByte? tagByte with
  | none => exact .throw rfl
  | some tag => exact .map (hm tag w h₄)

theorem field_moves {payload : PayloadReader} (hm : PayloadMoves payload) (w : r.Within r' k)
    (d : Document) : StepMoves k r (field payload r d) (field payload r' d) :=
  fun pos hp =>
    .map (element_moves hm (fun _ _ he => by cases he) (fun _ _ hf => by cases hf) w pos hp)

theorem fields_moves {payload : PayloadReader} (he : PayloadEnds payload)
    (hm : PayloadMoves payload) (w : r.Within r' k) (hp : pos ≤ r.limit) :
    Moves k id (fields payload r) (fields payload r') pos :=
  elements_moves w (field_ends he w.limit_lt) (field_moves hm w) _ hp

theorem index_moved {key : String} {e : Error} (h : index key = .error e) : e.moved k = e := by
  unfold index at h
  split at h
  · cases h
  · cases h
    rfl

theorem place_moved {items : Array Value} {key : String} {n : Nat} {v : Value} {bytesLeft : Nat}
    {e : Error} (h : place items key n v bytesLeft = .error e) : e.moved k = e := by
  unfold place at h
  split at h
  · cases h
  · rw [minus_eq (by omega)] at h
    change (if _ then _ else _ : Except Error (Array Value)) = _ at h
    split at h
    · cases h
      rfl
    · cases h

theorem item_moves {payload : PayloadReader} (he : PayloadEnds payload)
    (hm : PayloadMoves payload) (w : r.Within r' k) (all : Array Value) :
    StepMoves k r (item payload r all) (item payload r' all) := by
  intro pos hp
  have hlt := w.limit_lt
  have hlimit := w.limit_eq
  refine (element_moves hm (fun _ _ h => index_moved h) index_ne_fault w pos hp).bind
    (element_ends he index_ne_fault hlt pos hp) fun kv stop ⟨h₁, h₂⟩ => ?_
  refine .here_bind w (by omega) ?_
  have hcount : r'.limit - (k + stop) = r.limit - stop := by omega
  obtain ⟨⟨key, n⟩, v⟩ := kv
  dsimp only [id_eq]
  rw [hcount]
  refine .lift ?_
  cases hplace : place all key n v (r.limit - stop) with
  | ok a => rfl
  | error e =>
    change _ = Except.error (e.moved k)
    rw [place_moved hplace]

theorem items_moves {payload : PayloadReader} (he : PayloadEnds payload)
    (hm : PayloadMoves payload) (w : r.Within r' k) (hp : pos ≤ r.limit) :
    Moves k id (items payload r) (items payload r') pos :=
  .map (elements_moves w (item_ends he w.limit_lt) (item_moves he hm w) _ hp)

theorem binaryData_moves (w : r.Within r' k) (hp : pos ≤ r.data.size) (lengthAt : Nat)
    (subtype : UInt8) (length : Int32) :
    Moves k id (binaryData r lengthAt subtype length)
      (binaryData r' (k + lengthAt) subtype length) pos := by
  rw [binaryData, binaryData]
  exact .guard Iff.rfl rfl fun _ => .map (take_moves w hp _)

theorem binary_moves (w : r.Within r' k) (hp : pos ≤ r.data.size) :
    Moves k id (binary r) (binary r') pos := by
  have hlt := w.limit_lt
  refine .here_bind w hp ((int32_moves w hp).bind (int32_ends hlt hp) ?_)
  intro outer mid ⟨hm, hl⟩
  refine (byte_moves w (by omega)).bind (byte_ends hlt (by omega)) ?_
  intro subtype mid' ⟨hm', hl'⟩
  simp only [id_eq]
  split
  · refine (int32_moves w (by omega)).bind (int32_ends hlt (by omega)) ?_
    intro length stop ⟨hs, hl⟩
    exact binaryData_moves w (by omega) _ _ _
  · exact binaryData_moves w (by omega) _ _ _

theorem objectId_moves (w : r.Within r' k) (hp : pos ≤ r.data.size) :
    Moves k id (objectId r) (objectId r') pos := by
  refine .here_bind w hp ((take_moves w hp 12).bind (take_ends w.limit_lt hp 12) ?_)
  intro bytes stop ⟨_, _, hb⟩
  simp only [id_eq, ObjectId.ofBytes, dif_pos hb]
  exact .pure rfl

theorem int64Value_moves (promote : Bool) (w : r.Within r' k) (hp : pos ≤ r.data.size) :
    Moves k id (int64Value promote r) (int64Value promote r') pos := by
  have hlt := w.limit_lt
  refine (int32_moves w hp).bind (int32_ends hlt hp) fun low mid ⟨hm, hl⟩ => ?_
  refine (int32_moves w (by omega)).bind (int32_ends hlt (by omega)) fun high stop _ => ?_
  simp only [id_eq]
  split
  · exact .pure rfl
  · exact .pure rfl

theorem scopedCode_moves {document : Region → Cursor Document} (he : FrameEnds document)
    (hm : FrameMoves document) (w : r.Within r' k) (hp : pos ≤ r.data.size) :
    Moves k id (scopedCode document r) (scopedCode document r') pos := by
  have hlt := w.limit_lt
  refine .here_bind w hp ((int32_moves w hp).bind (int32_ends hlt hp) ?_)
  intro total mid ⟨hm₁, _⟩
  refine (string_moves w (by omega)).bind (string_ends hlt (by omega)) ?_
  intro source mid' ⟨hm₂, _⟩
  refine (hm w (by omega)).bind (he r mid' hlt (by omega)) fun scope stop ⟨hs, hl⟩ => ?_
  refine .here_bind w (by omega) ?_
  have hcount : k + stop - (k + pos) = stop - pos := by omega
  refine .lift_bind (minus_eq (by omega)) (minus_eq (by omega)) ?_
  dsimp only [id_eq]
  rw [hcount]
  exact .guard Iff.rfl (by rw [Nat.add_assoc]; rfl) fun _ => .pure rfl

theorem payloadWith_moves (promote : Bool) {document : Region → Cursor Document}
    {array : Region → Cursor (List Value)} (hde : FrameEnds document)
    (hd : FrameMoves document) (ha : FrameMoves array) :
    PayloadMoves (payloadWith promote document array) := by
  intro k r r' tag pos w hp
  have hlt := w.limit_lt
  have hp' : pos ≤ r.data.size := by omega
  cases tag with
  | double => exact .map (double_moves w hp')
  | string => exact .map (string_moves w hp')
  | document => exact .map (hd w hp')
  | array => exact .map (ha w hp')
  | binary => exact .map (binary_moves w hp')
  | undefined => exact .pure rfl
  | objectId => exact .map (objectId_moves w hp')
  | boolean => exact .map (byte_moves w hp')
  | dateTime => exact .map (int64_moves w hp')
  | null => exact .pure rfl
  | regex =>
    refine (cstring_moves w hp).bind (cstring_ends hlt hp) fun pattern mid ⟨_, hl⟩ => ?_
    exact .map (cstring_moves w hl)
  | code => exact .map (string_moves w hp')
  | symbol => exact .map (string_moves w hp')
  | scopedCode => exact scopedCode_moves hde hd w hp'
  | int32 => exact .map (int32_moves w hp')
  | timestamp =>
    refine (int32_moves w hp').bind (int32_ends hlt hp') fun low mid ⟨_, hl⟩ => ?_
    exact .map (int32_moves w (by omega))
  | int64 => exact int64Value_moves promote w hp'
  | maxKey => exact .pure rfl
  | minKey => exact .pure rfl

theorem tooDeep_moves : FrameMoves (fun _ => (tooDeep : Cursor α)) :=
  fun _ _ _ _ _ _ => .throw rfl

/-- However deep the frames in it may nest, a payload is read in the same way in a larger
region. -/
theorem payload_moves (promote : Bool) (levels : Nat) : PayloadMoves (payload promote levels) := by
  induction levels with
  | zero => exact payloadWith_moves promote tooDeep_ends tooDeep_moves tooDeep_moves
  | succ levels ih =>
    have he := payload_ends promote levels
    refine payloadWith_moves promote (document_ends promote (levels + 1)) ?_ ?_
    · intro k r r' pos w hp
      exact framed_moves (terminator_moves w hp) w.limit_lt w.size_le hp
        (fun stop mid hm hs =>
          (fields_ends he (show stop < _ from w.lt_size hs) hm).mono fun _ _ _ => trivial)
        fun stop mid hm hs => fields_moves he ih (w.narrow (w.lt_size hs)) hm
    · intro k r r' pos w hp
      exact framed_moves (terminator_moves w hp) w.limit_lt w.size_le hp
        (fun stop mid hm hs =>
          (items_ends he (show stop < _ from w.lt_size hs) hm).mono fun _ _ _ => trivial)
        fun stop mid hm hs => items_moves he ih (w.narrow (w.lt_size hs)) hm

end Frame

end Bson
