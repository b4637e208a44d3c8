import Bson.Proofs.Grammar.Reading
import Bson.Reader.InPlace

/-!
# Reading in place is reading

A reader that is changed step by step gives what the cursor gives, and is left as if nothing but its
position had changed.

* `Follows r m c`: from every position the steps `m` of the reader `r` end as the steps `c` of a
  cursor do, and leave all of the reader but its position as it was.
* `InPlace.framed_follows`: so does a frame, which changes the bounds and takes the changes back.
* `InPlace.payload_follows`: so do all payloads, however deep the frames in them.
* `Reader.readInPlace_eq`: so a document is read in place as it is read by the cursor, and the
  reader after it stands where the next one is looked for.
-/

namespace Bson

open InPlace

variable {α β κ : Type}

/-- Steps of a reader end as those of a cursor, and change nothing but the position. -/
def Follows (r : Reader) (m : ReadM α) (c : Cursor α) : Prop :=
  ∀ position,
    (∃ a stop, c position = .ok (a, stop) ∧
      m { r with position } = .ok a { r with position := stop }) ∨
    ∃ e stop, c position = .error e ∧ m { r with position } = .error e { r with position := stop }

section AtCursor

variable {r : Reader} {m : Region → Cursor α}

theorem InPlace.atCursor_of_ok {a : α} {stop : Nat} (h : m r.region r.position = .ok (a, stop)) :
    atCursor m r = .ok a { r with position := stop } := by
  rw [atCursor, h]

theorem InPlace.atCursor_of_error {e : Error} (h : m r.region r.position = .error e) :
    atCursor m r = .error e r := by
  rw [atCursor, h]

end AtCursor

namespace Follows

variable {r : Reader}

theorem pure (a : α) : Follows r (pure a) (pure a) := fun position => .inl ⟨a, position, rfl, rfl⟩

theorem throw (e : Error) : Follows r (throw e : ReadM α) (throw e) :=
  fun position => .inr ⟨e, position, rfl, rfl⟩

theorem atCursor (m : Region → Cursor α) : Follows r (atCursor m) (m r.region) := by
  intro position
  cases h : m r.region position with
  | ok p => exact .inl ⟨p.1, p.2, rfl, atCursor_of_ok (r := { r with position }) h⟩
  | error e => exact .inr ⟨e, position, rfl, atCursor_of_error (r := { r with position }) h⟩

theorem lift (x : Except Error α) : Follows r (liftM x : ReadM α) (liftM x) := by
  intro position
  cases x with
  | ok a => exact .inl ⟨a, position, rfl, rfl⟩
  | error e => exact .inr ⟨e, position, rfl, rfl⟩

theorem bind {m : ReadM α} {c : Cursor α} {f : α → ReadM β} {g : α → Cursor β}
    (hm : Follows r m c) (hf : ∀ a, Follows r (f a) (g a)) : Follows r (m >>= f) (c >>= g) := by
  intro position
  rcases hm position with ⟨a, stop, hc, hrun⟩ | ⟨e, stop, hc, hrun⟩
  · rw [Cursor.bind_of_ok hc, Error.bind_eq_of_ok f hrun]
    exact hf a stop
  · exact .inr ⟨e, stop, Cursor.bind_of_error hc, Error.bind_eq_of_error f hrun⟩

/-- Steps that ask for the region are told that of the reader. -/
theorem region_bind {f : Region → ReadM β} {c : Cursor β} (h : Follows r (f r.region) c) :
    Follows r (region >>= f) c := h

/-- A refusal that both meet, or none. -/
theorem guard {p : Prop} [Decidable p] {e : Error} {f : PUnit → ReadM β} {g : PUnit → Cursor β}
    (h : Follows r (f ⟨⟩) (g ⟨⟩)) :
    Follows r (if p then (MonadExcept.throw e : ReadM PUnit) >>= f else f ⟨⟩)
      (if p then (MonadExcept.throw e : Cursor PUnit) >>= g else g ⟨⟩) := by
  split
  · exact fun position => .inr ⟨e, position, rfl, rfl⟩
  · exact h

theorem ite {p : Prop} [Decidable p] {m m' : ReadM α} {c c' : Cursor α} (h : Follows r m c)
    (h' : Follows r m' c') : Follows r (if p then m else m') (if p then c else c') := by
  split
  · exact h
  · exact h'

end Follows

namespace InPlace

variable {r : Reader}

theorem here_follows : Follows r here (Cursor.here r.region) := .atCursor _

theorem cstring_follows : Follows r cstring (Cursor.cstring r.region) := by
  refine .region_bind (.bind here_follows fun start => .bind (.lift _) fun _ => ?_)
  cases r.region.findZero? start (r.region.limit - start) with
  | none => exact .throw _
  | some stop =>
    exact .bind (.lift _) fun n => .bind (.atCursor _) fun _ => .bind (.lift _) fun _ => .lift _

theorem string_follows : Follows r string (Cursor.string r.region) :=
  .region_bind <| .bind here_follows fun _ => .bind (.atCursor _) fun _ => .guard <|
    .bind here_follows fun _ => .bind (.atCursor _) fun _ => .bind (.lift _) fun _ =>
      .bind (.lift _) fun _ => .guard <| .bind (.lift _) fun _ => .lift _

theorem binaryData_follows (lengthAt : Nat) (subtype : UInt8) (length : Int32) :
    Follows r (binaryData lengthAt subtype length)
      (Frame.binaryData r.region lengthAt subtype length) := by
  rw [binaryData, Frame.binaryData]
  exact .guard <| .bind (.atCursor _) fun _ => .pure _

theorem binary_follows : Follows r binary (Frame.binary r.region) :=
  .bind here_follows fun _ => .bind (.atCursor _) fun _ => .bind (.atCursor _) fun _ =>
    .ite (.bind (.atCursor _) fun _ => binaryData_follows _ _ _) (binaryData_follows _ _ _)

theorem objectId_follows : Follows r objectId (Frame.objectId r.region) := by
  refine .bind here_follows fun start => .bind (.atCursor _) fun bytes => ?_
  cases ObjectId.ofBytes bytes with
  | ok id => exact .pure _
  | error e => exact .throw _

theorem int64Value_follows : Follows r int64Value (Frame.int64Value r.promote r.region) := by
  intro position
  refine Follows.bind (.atCursor _) (fun low => .bind (.atCursor _) fun high => ?_) position
  exact .ite (.pure _) (.pure _)

theorem scopedCode_follows {document : ReadM Document} {c : Region → Cursor Document}
    (h : Follows r document (c r.region)) :
    Follows r (scopedCode document) (Frame.scopedCode c r.region) :=
  .bind here_follows fun _ => .bind (.atCursor _) fun _ => .bind string_follows fun _ =>
    .bind h fun _ => .bind here_follows fun _ => .bind (.lift _) fun _ => .guard <| .pure _

theorem payloadWith_follows {document : ReadM Document} {array : ReadM (List Value)}
    {c : Region → Cursor Document} {c' : Region → Cursor (List Value)}
    (hd : Follows r document (c r.region)) (ha : Follows r array (c' r.region)) (tag : Tag) :
    Follows r (payloadWith document array tag) (Frame.payloadWith r.promote c c' r.region tag) := by
  cases tag with
  | double => exact .bind (.atCursor _) fun _ => .pure _
  | string => exact .bind string_follows fun _ => .pure _
  | document => exact .bind hd fun _ => .pure _
  | array => exact .bind ha fun _ => .pure _
  | binary => exact .bind binary_follows fun _ => .pure _
  | undefined => exact .pure _
  | objectId => exact .bind objectId_follows fun _ => .pure _
  | boolean => exact .bind (.atCursor _) fun _ => .pure _
  | dateTime => exact .bind (.atCursor _) fun _ => .pure _
  | null => exact .pure _
  | regex => exact .bind cstring_follows fun _ => .bind cstring_follows fun _ => .pure _
  | code => exact .bind string_follows fun _ => .pure _
  | symbol => exact .bind string_follows fun _ => .pure _
  | scopedCode => exact scopedCode_follows hd
  | int32 => exact .bind (.atCursor _) fun _ => .pure _
  | timestamp => exact .bind (.atCursor _) fun _ => .bind (.atCursor _) fun _ => .pure _
  | int64 => exact int64Value_follows
  | maxKey => exact .pure _
  | minKey => exact .pure _

/-! ### Loops -/

theorem round_follows {m : ReadM α} {c : Cursor α} (h : Follows r m c) :
    Follows r (round m) (Frame.round r.region c) :=
  .bind here_follows fun _ => .bind h fun _ => .bind here_follows fun _ => .guard <| .pure _

theorem rounds_follows {m : α → ReadM α} {c : α → Cursor α} (h : ∀ a, Follows r (m a) (c a))
    (n : Nat) (a : α) : Follows r (rounds m n a) (Frame.rounds r.region c n a) := by
  induction n generalizing a with
  | zero => exact .bind here_follows fun _ => .region_bind <| .ite (.throw _) (.pure _)
  | succ n ih =>
    exact .bind here_follows fun _ => .region_bind <|
      .ite (.bind (round_follows (h a)) ih) (.pure _)

theorem elements_follows {m : α → ReadM α} {c : α → Cursor α} (h : ∀ a, Follows r (m a) (c a))
    (a : α) : Follows r (elements m a) (Frame.elements r.region c a) :=
  .region_bind <| .bind here_follows fun _ => .bind (rounds_follows h _ a) fun _ =>
    .bind here_follows fun _ => .region_bind <| .guard <| .pure _

theorem element_follows {payload : Tag → ReadM Value} {c : Frame.PayloadReader}
    (h : ∀ tag, Follows r (payload tag) (c r.region tag)) (key : String → Except Error κ) :
    Follows r (element payload key) (Frame.element c key r.region) := by
  refine .bind here_follows fun _ => .bind (.atCursor _) fun tagByte =>
    .bind cstring_follows fun _ => .bind (.lift _) fun _ => ?_
  cases Tag.ofByte? tagByte with
  | none => exact .throw _
  | some tag => exact .bind (h tag) fun _ => .pure _

theorem fields_follows {payload : Tag → ReadM Value} {c : Frame.PayloadReader}
    (h : ∀ tag, Follows r (payload tag) (c r.region tag)) :
    Follows r (fields payload) (Frame.fields c r.region) :=
  elements_follows (fun _ => .bind (element_follows h _) fun _ => .pure _) _

theorem items_follows {payload : Tag → ReadM Value} {c : Frame.PayloadReader}
    (h : ∀ tag, Follows r (payload tag) (c r.region tag)) :
    Follows r (items payload) (Frame.items c r.region) :=
  .bind (elements_follows (fun _ => .bind (element_follows h _) fun _ =>
    .region_bind <| .bind here_follows fun _ => .lift _) _) fun _ => .pure _

/-! ### Frames -/

theorem lift_bind_lift {x : Except Error α} {f : α → Cursor β} {g : α → Except Error β}
    (h : ∀ a, f a = liftM (g a)) : (liftM x >>= f : Cursor β) = liftM (x >>= g) := by
  cases x with
  | ok a => exact h a
  | error e => rfl

theorem guard_lift {p : Prop} [Decidable p] {e : Error} {f : PUnit → Cursor α}
    {g : PUnit → Except Error α} (h : f ⟨⟩ = liftM (g ⟨⟩)) :
    (if p then (throw e : Cursor PUnit) >>= f else f ⟨⟩) =
      liftM (if p then (throw e : Except Error PUnit) >>= g else g ⟨⟩) := by
  split
  · rfl
  · exact h

/-- Behind the length of a frame nothing is taken: its terminator is only looked at. -/
theorem terminator_eq (r : Region) :
    Frame.terminator r = (do
      let lengthAt ← Cursor.here r
      let length ← Cursor.int32 r
      terminatorAt r lengthAt length.toUInt32.toNat) := by
  refine congrArg (Cursor.here r >>= ·) (funext fun lengthAt => ?_)
  refine congrArg (Cursor.int32 r >>= ·) (funext fun length => ?_)
  unfold terminatorAt
  refine guard_lift ?_
  refine lift_bind_lift fun k => ?_
  refine guard_lift ?_
  refine lift_bind_lift fun b => ?_
  exact guard_lift rfl

theorem terminator_follows : Follows r terminator (Frame.terminator r.region) := by
  rw [terminator_eq]
  exact .region_bind <| .bind here_follows fun _ => .bind (.atCursor _) fun _ => .lift _

/-- How the terminator of a frame is found: where reading fails, the length has been passed if it
stands in front of the terminator in force. -/
theorem terminator_run (h : r.InInput) :
    terminator r =
      match Frame.terminator r.region r.position with
      | .ok (stop, mid) => .ok stop { r with position := mid }
      | .error e => .error e
        { r with position := if r.position + 4 ≤ r.limit then r.position + 4 else r.position } := by
  have hhere := Cursor.here_eq (r := r.region) h.limit_lt h.position_le
  have hlength := Cursor.int32_eq (r := r.region) h.limit_lt h.position_le
  have hstart : terminator r = (int32 >>= fun length =>
      liftM (terminatorAt r.region r.position length.toUInt32.toNat)) r :=
    Error.bind_eq_of_ok _ (atCursor_of_ok hhere)
  rw [terminator_eq, Cursor.bind_of_ok hhere]
  by_cases hlimit : r.limit < r.position + 4
  · rw [if_pos (show r.region.limit < r.position + 4 from hlimit)] at hlength
    have hrun : terminator r = .error _ r :=
      hstart.trans (Error.bind_eq_of_error _ (atCursor_of_error hlength))
    rw [Cursor.bind_of_error hlength, hrun, if_neg (Nat.not_le.2 hlimit)]
  · rw [if_neg (show ¬r.region.limit < r.position + 4 from hlimit)] at hlength
    have hrun : terminator r = _ :=
      hstart.trans (Error.bind_eq_of_ok _ (atCursor_of_ok hlength))
    rw [Cursor.bind_of_ok hlength, hrun, if_pos (Nat.le_of_not_lt hlimit)]
    -- what is left only looks at the input
    generalize terminatorAt r.region r.position _ = x
    cases x <;> rfl

theorem attempt_of_ok {m : ReadM α} {s s' : Reader} {a : α} (h : m s = .ok a s') :
    attempt m s = .ok (.ok a) s' := by
  rw [attempt, h]

theorem attempt_of_error {m : ReadM α} {s s' : Reader} {e : Error} (h : m s = .error e s') :
    attempt m s = .ok (.error e) s' := by
  rw [attempt, h]

section Framed

variable {body : ReadM α} {s t u : Reader} {stop : Nat} {a : α} {e : Error}

theorem framed_eq (hopen : s.openFrames < maxDepth) :
    framed body s = (terminator >>= fun stop => do
      modify (·.opened stop)
      let result ← attempt body
      modify (·.closed s.limit stop)
      liftM result) s := by
  have hrun : framed body s = (if maxDepth ≤ s.openFrames then _ else _ : ReadM α) s := rfl
  rw [hrun, if_neg (Nat.not_le.2 hopen)]

/-- A frame whose terminator is found moves the reader to its end, with the old limit. -/
theorem framed_of_ok (hopen : s.openFrames < maxDepth) (hstop : terminator s = .ok stop t)
    (hbody : body (t.opened stop) = .ok a u) : framed body s = .ok a (u.closed s.limit stop) :=
  (framed_eq hopen).trans <| (Error.bind_eq_of_ok _ hstop).trans <|
    Error.bind_eq_of_ok _ (attempt_of_ok hbody)

/-- So it does if what is in it cannot be read. -/
theorem framed_of_body_error (hopen : s.openFrames < maxDepth)
    (hstop : terminator s = .ok stop t) (hbody : body (t.opened stop) = .error e u) :
    framed body s = .error e (u.closed s.limit stop) :=
  (framed_eq hopen).trans <| (Error.bind_eq_of_ok _ hstop).trans <|
    Error.bind_eq_of_ok _ (attempt_of_error hbody)

theorem framed_of_error (hopen : s.openFrames < maxDepth) (hstop : terminator s = .error e t) :
    framed body s = .error e t :=
  (framed_eq hopen).trans (Error.bind_eq_of_error _ hstop)

/-- A frame that may not be opened is refused before its length is read. -/
theorem framed_of_le (hopen : maxDepth ≤ s.openFrames) :
    framed body s = .error (.nestingTooDeep maxDepth) s := by
  have hrun : framed body s = (if maxDepth ≤ s.openFrames then _ else _ : ReadM α) s := rfl
  rw [hrun, if_pos hopen]
  rfl

end Framed

/-- The terminator of a frame lies in the window in force. -/
theorem terminator_le {region : Region} (hr : region.limit < region.data.size)
    {position stop mid : Nat} (h : Frame.terminator region position = .ok (stop, mid)) :
    stop ≤ region.limit := by
  obtain ⟨_, _, _, _, hle, _⟩ := (Frame.terminator_eq_ok hr).1 h
  exact hle

/-- Behind the terminator of a frame the cursor goes on. -/
theorem framed_eq_map {c : Region → Cursor α} {region : Region}
    (hr : region.limit < region.data.size) {position stop mid : Nat}
    (h : Frame.terminator region position = .ok (stop, mid)) :
    Frame.framed c region position =
      (c { region with limit := stop } mid).map fun p => (p.1, stop + 1) := by
  have hplus : region.plus stop 1 = .ok (stop + 1) :=
    Region.plus_eq (Nat.lt_of_le_of_lt (terminator_le hr h) hr)
  rw [Frame.framed, Cursor.bind_of_ok h]
  cases hbody : c { region with limit := stop } mid with
  | error e => exact Cursor.bind_of_error hbody
  | ok p => exact (Cursor.bind_of_ok hbody).trans (Cursor.lift_bind_of_ok hplus)

/-- A frame takes back the bounds that it changed. -/
theorem framed_follows {body : ReadM α} {c : Region → Cursor α} (hr : r.limit < r.data.size)
    (hopen : r.openFrames < maxDepth)
    (h : ∀ stop ≤ r.limit, Follows (r.opened stop) body (c ⟨r.data, stop⟩)) :
    Follows r (framed body) (Frame.framed c r.region) := by
  intro position
  rcases terminator_follows (r := r) position with ⟨stop, mid, hc, hm⟩ | ⟨e, last, hc, hm⟩
  · have hframed := framed_eq_map (c := c) hr hc
    rcases h stop (terminator_le hr hc) mid with ⟨a, last, hok, hbody⟩ | ⟨e, last, herror, hbody⟩
    · exact .inl ⟨a, stop + 1, hframed.trans (congrArg (Except.map _) hok),
        framed_of_ok (s := { r with position }) hopen hm hbody⟩
    · exact .inr ⟨e, stop + 1, hframed.trans (congrArg (Except.map _) herror),
        framed_of_body_error (s := { r with position }) hopen hm hbody⟩
  · exact .inr ⟨e, last, Cursor.bind_of_error hc, framed_of_error (s := { r with position }) hopen hm⟩

/-- After a frame the reader stands where the next one is looked for. -/
theorem framed_run {body : ReadM α} {c : Region → Cursor α} (hr : r.InInput)
    (hopen : r.openFrames < maxDepth)
    (h : ∀ stop ≤ r.limit, Follows (r.opened stop) body (c ⟨r.data, stop⟩)) :
    framed body r =
      match Frame.framed c r.region r.position with
      | .ok p => .ok p.1 { r with position := r.nextPosition }
      | .error e => .error e { r with position := r.nextPosition } := by
  have hlevels : r.levels ≠ 0 := Nat.sub_ne_zero_of_lt hopen
  have hterminator := terminator_run hr
  rw [Reader.nextPosition, if_neg hlevels]
  cases hc : Frame.terminator r.region r.position with
  | error e =>
    rw [hc] at hterminator
    have hframed : Frame.framed c r.region r.position = .error e := Cursor.bind_of_error hc
    rw [framed_of_error hopen hterminator, hframed]
  | ok p =>
    obtain ⟨stop, mid⟩ := p
    rw [hc] at hterminator
    rw [framed_eq_map hr.limit_lt hc]
    rcases h stop (terminator_le hr.limit_lt hc) mid with
      ⟨a, last, hok, hbody⟩ | ⟨e, last, herror, hbody⟩
    · have hc' : c { r.region with limit := stop } mid = .ok (a, last) := hok
      rw [hc']
      exact framed_of_ok hopen hterminator hbody
    · have hc' : c { r.region with limit := stop } mid = .error e := herror
      rw [hc']
      exact framed_of_body_error hopen hterminator hbody

theorem levels_eq_succ (hopen : r.openFrames < maxDepth) :
    r.levels = maxDepth - (r.openFrames + 1) + 1 := by
  rw [Reader.levels]
  omega

/-- A payload is read in place as the cursor reads it, if the frames that may be opened in it are
counted. -/
theorem payload_follows (n : Nat) {r : Reader} (hr : r.limit < r.data.size)
    (hn : r.levels ≤ n) (tag : Tag) :
    Follows r (payload n tag) (Frame.payload r.promote r.levels r.region tag) := by
  induction n generalizing r tag with
  | zero =>
    rw [Nat.le_zero.1 hn]
    exact payloadWith_follows (.throw _) (.throw _) tag
  | succ n ih =>
    rcases Nat.lt_or_ge r.openFrames maxDepth with hopen | hopen
    · have hlevels := levels_eq_succ hopen
      have hinner : ∀ stop ≤ r.limit, ∀ tag,
          Follows (r.opened stop) (payload n tag)
            (Frame.payload r.promote (maxDepth - (r.openFrames + 1)) ⟨r.data, stop⟩ tag) :=
        fun stop hstop => ih (r := r.opened stop) (Nat.lt_of_le_of_lt hstop hr)
          (show maxDepth - (r.openFrames + 1) ≤ n by omega)
      rw [hlevels]
      exact payloadWith_follows
        (framed_follows hr hopen fun stop hstop => fields_follows (hinner stop hstop))
        (framed_follows hr hopen fun stop hstop => items_follows (hinner stop hstop)) tag
    · -- no frame can be opened, whatever the number says
      have hlevels : r.levels = 0 := Nat.sub_eq_zero_of_le hopen
      have hrefused : ∀ {α : Type} (body : ReadM α), Follows r (framed body) Frame.tooDeep :=
        fun _ position => .inr ⟨_, position, rfl, framed_of_le hopen⟩
      rw [hlevels]
      exact payloadWith_follows (hrefused _) (hrefused _) tag

end InPlace

namespace Reader

variable {r : Reader}

/-- **Reading in place is reading.** A reader that is changed step by step gives the document that
the cursor gives, or the same error, and is left where the next document is looked for, with the
bounds that it had. -/
theorem readInPlace_eq (h : r.InInput) : r.readInPlace = r.readDocument := by
  rcases Nat.lt_or_ge r.openFrames maxDepth with hopen | hopen
  · have hbody : ∀ stop ≤ r.limit, Follows (r.opened stop) (fields (payload maxDepth))
        (Frame.fields (Frame.payload r.promote (maxDepth - (r.openFrames + 1))) ⟨r.data, stop⟩) :=
      fun stop hstop => fields_follows (payload_follows maxDepth (r := r.opened stop)
        (Nat.lt_of_le_of_lt hstop h.limit_lt) (Nat.sub_le _ _))
    have hrun : InPlace.document r = _ := framed_run h hopen hbody
    rw [readInPlace, hrun, readDocument, levels_eq_succ hopen, Frame.document]
    cases Frame.framed (Frame.fields (Frame.payload r.promote (maxDepth - (r.openFrames + 1))))
        r.region r.position with
    | ok p => rfl
    | error e => rfl
  · have hlevels : r.levels = 0 := Nat.sub_eq_zero_of_le hopen
    have hrun : InPlace.document r = .error (.nestingTooDeep maxDepth) r := framed_of_le hopen
    rw [readInPlace, hrun, readDocument, hlevels, nextPosition, if_pos hlevels]
    rfl

end Reader

end Bson
