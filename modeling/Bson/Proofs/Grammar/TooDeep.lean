import Bson.Proofs.Grammar.Reading

/-!
# Reading frames that nest too deep

Frames that are well formed but for their nesting are read up to the first frame too many, and the
refusal to open that frame is the result of the whole.

* `Frame.FailsPayload`, `Frame.FailsFrame`: readers that refuse payloads and frames for their
  nesting.
* `Grammar.FailsIn`: a loop over elements that does well up to an element at which it must fail.
* `Frame.payload_fails`: payloads, by induction on the number of frames that may be opened.
* `decode_tooDeep`: the statement about documents.
-/

namespace Bson

open Grammar Cursor

namespace Grammar

/-- Elements that a loop reads as `Q` says, starting from `a`, up to one of which `F` holds. -/
def FailsIn {α : Type} (Q : Nat → String → Payload → α → α → Prop) (F : String → Payload → Prop) :
    Elements → α → Prop
  | .nil, _ => False
  | .cons key p rest, a => F key p ∨ ∃ mid, Q rest.bytes.length key p a mid ∧ FailsIn Q F rest mid

end Grammar

namespace Frame

variable {α : Type} {r : Region} {pos stop : Nat} {promote : Bool} {levels : Nat}

/-- The steps end in the refusal to open a frame. -/
def Refuses (m : Cursor α) (pos : Nat) : Prop := m pos = .error (.nestingTooDeep maxDepth)

/-- A reader of frames refuses those whose elements are such as `P` says, also at the end of the
window. -/
def FailsFrame (frame : Region → Cursor α) (P : Elements → Prop) : Prop :=
  ∀ ⦃r : Region⦄ ⦃pos stop : Nat⦄ ⦃length : Int32⦄ ⦃es : Elements⦄, r.limit < r.data.size →
    MeasuresFrame length es.bytes → P es →
      ({ r with limit := r.limit + 1 } : Region).Spans pos stop (enclosed length es.bytes) →
        Refuses (frame r) pos

/-- A reader of payloads refuses well-formed ones that nest more than `levels` frames. -/
def FailsPayload (payload : PayloadReader) (levels : Nat) : Prop :=
  ∀ ⦃r : Region⦄ ⦃pos stop : Nat⦄ ⦃p : Payload⦄, r.limit < r.data.size → stop ≤ r.limit →
    p.Valid → levels < p.depth → r.Spans pos stop p.bytes → Refuses (payload r p.tag) pos

/-! ### Frames and loops -/

/-- A frame is refused if its body is. -/
theorem framed_fails {body : Region → Cursor α} {P : Elements → Prop}
    (hb : ∀ ⦃r : Region⦄ ⦃pos : Nat⦄ ⦃es : Elements⦄, r.limit < r.data.size → P es →
      r.Spans pos r.limit es.bytes → Refuses (body r) pos) :
    FailsFrame (framed body) P := by
  intro r pos stop length es h hm hP hs
  obtain ⟨last, mid, hterm, rfl, hlast, hes⟩ := terminator_of_spans h hm hs
  have hbody : Refuses (body { r with limit := last }) mid :=
    hb (show last < r.data.size by omega) hP hes
  exact (bind_of_ok hterm).trans (bind_of_error hbody)

/-- A loop that meets an element at which its step fails has that failure for its result. -/
theorem rounds_fails {step : α → Cursor α} {Q : Nat → String → Payload → α → α → Prop}
    {F : String → Payload → Prop} (h : r.limit < r.data.size) (hs : ∀ a, StepEnds r (step a))
    (hq : ReadsStep r step Q)
    (hf : ∀ ⦃pos stop : Nat⦄ ⦃a : α⦄ ⦃key : String⦄ ⦃p : Payload⦄, stop ≤ r.limit → F key p →
      r.Spans pos stop (p.tag.toByte :: (Grammar.cstring key ++ p.bytes)) → Refuses (step a) pos)
    (n : Nat) {es : Elements} {a : α} (hes : FailsIn Q F es a)
    (hspan : r.Spans pos r.limit es.bytes) (hn : r.limit ≤ pos + n) :
    Refuses (rounds r step n a) pos := by
  induction n generalizing es a pos with
  | zero =>
    cases es with
    | nil => exact hes.elim
    | cons key p rest =>
      have hlen := hspan.1
      rw [bytes_cons, List.length_cons] at hlen
      omega
  | succ n ih =>
    cases es with
    | nil => exact hes.elim
    | cons key p rest =>
      have hlen := hspan.1
      rw [bytes_cons, List.length_cons] at hlen
      rw [bytes_cons, ← List.append_assoc, ← List.cons_append] at hspan
      obtain ⟨mid, hspan, hspans⟩ := Region.spans_append.1 hspan
      have hlt : pos < r.limit := by omega
      have hmid := hspans.le
      have hrest := hspans.1
      have hround : rounds r step (n + 1) a pos =
          (round r (step a) >>= fun a => rounds r step n a) pos := by
        rw [rounds, bind_of_ok (here_eq h (by omega)), if_pos hlt]
      rw [Refuses, hround]
      rcases hes with hfail | ⟨a', hQ, hes⟩
      · -- the element itself is refused
        refine bind_of_error ?_
        rw [round, bind_of_ok (here_eq h (by omega))]
        exact bind_of_error (hf hmid hfail hspan)
      · rw [show rest.bytes.length = r.limit - mid by omega] at hQ
        have hstep := (hq hlt hmid).2 ⟨key, p, hQ, hspan⟩
        have hend := (hs a pos hlt).2 a' mid hstep
        rw [bind_of_ok ((round_eq_ok h (hs a) hlt).2 hstep)]
        exact ih hes hspans (by omega)

theorem elements_fails {step : α → Cursor α} {Q : Nat → String → Payload → α → α → Prop}
    {F : String → Payload → Prop} (h : r.limit < r.data.size) (hs : ∀ a, StepEnds r (step a))
    (hq : ReadsStep r step Q)
    (hf : ∀ ⦃pos stop : Nat⦄ ⦃a : α⦄ ⦃key : String⦄ ⦃p : Payload⦄, stop ≤ r.limit → F key p →
      r.Spans pos stop (p.tag.toByte :: (Grammar.cstring key ++ p.bytes)) → Refuses (step a) pos)
    {es : Elements} {a : α} (hes : FailsIn Q F es a) (hspan : r.Spans pos r.limit es.bytes) :
    Refuses (elements r step a) pos := by
  have hpos := hspan.le
  rw [Refuses, elements, bind_of_ok (here_eq h (by omega))]
  exact bind_of_error (rounds_fails h hs hq hf _ hes hspan (by omega))

/-! ### Documents and arrays -/

/-- An element whose payload nests too deep. -/
def DeepElement (levels : Nat) (key : String) (p : Payload) : Prop :=
  NulFree key ∧ p.Valid ∧ levels < p.depth

theorem failsIn_storesField : ∀ (es : Elements) (d : Document), es.Valid → levels < es.depth →
    FailsIn (StoresField promote levels) (DeepElement levels) es d
  | .nil, _, _, hd => absurd hd (Nat.not_lt_zero levels)
  | .cons key p rest, d, hv, hd => by
    obtain ⟨hk, hp, hr⟩ := valid_cons.1 hv
    rw [Elements.depth] at hd
    by_cases hdeep : levels < p.depth
    · exact .inl ⟨hk, hp, hdeep⟩
    · exact .inr ⟨_, ⟨hk, _, ⟨hp, Nat.le_of_not_lt hdeep, rfl⟩, rfl⟩,
        failsIn_storesField rest _ hr (by omega)⟩

theorem failsIn_placesItem : ∀ (es : Elements) (items : Array Value), es.Valid →
    es.Indexed items.size → levels < es.depth →
      FailsIn (PlacesItem promote levels) (fun key p => IsIndex key ∧ DeepElement levels key p)
        es items
  | .nil, _, _, _, hd => absurd hd (Nat.not_lt_zero levels)
  | .cons key p rest, items, hv, hi, hd => by
    obtain ⟨hk, hp, hr⟩ := valid_cons.1 hv
    obtain ⟨hkey, hgap, hi⟩ := hi
    rw [Elements.depth] at hd
    by_cases hdeep : levels < p.depth
    · exact .inl ⟨hkey, hk, hp, hdeep⟩
    · have hsize : (placed items.toList (indexOf key) (p.value promote)).toArray.size =
          max items.size (indexOf key + 1) := by
        rw [List.size_toArray, length_placed, Array.length_toList]
      rw [← hsize] at hi
      exact .inr ⟨_, ⟨hk, hkey, _, ⟨hp, Nat.le_of_not_lt hdeep, rfl⟩, hgap, rfl⟩,
        failsIn_placesItem rest _ hr hi (by omega)⟩

theorem element_fails {κ : Type} {payload : PayloadReader} {key : String → Except Error κ}
    (hp : FailsPayload payload levels) (h : r.limit < r.data.size) (hstop : stop ≤ r.limit)
    {s : String} {k : κ} (hk : key s = .ok k) {p : Payload} (hdeep : DeepElement levels s p)
    (hspan : r.Spans pos stop (p.tag.toByte :: (Grammar.cstring s ++ p.bytes))) :
    Refuses (element payload key r) pos := by
  obtain ⟨hn, hv, hd⟩ := hdeep
  obtain ⟨at_, hb, hspan⟩ := Region.spans_cons.1 hspan
  obtain ⟨mid, hs, hps⟩ := Region.spans_append.1 hspan
  have hle := hb.1
  have hat := hb.2.1
  have hlift : (liftM (key s) : Cursor κ) mid = .ok (k, mid) := lift_eq_ok.2 ⟨hk, rfl⟩
  rw [Refuses, element, bind_of_ok (here_eq h (by omega)), bind_of_ok ((byte_eq_ok h).2 hb),
    bind_of_ok ((cstring_eq_ok h).2 ⟨hn, hs⟩), bind_of_ok hlift, Tag.ofByte?_toByte]
  exact bind_of_error (hp h hstop hv hd hps)

section Levels

variable {payload : PayloadReader}

theorem fields_fails (he : PayloadEnds payload) (hr : ReadsPayload payload (Means promote levels))
    (hp : FailsPayload payload levels) :
    FailsFrame (framed (fields payload)) fun es => es.Valid ∧ levels < es.depth :=
  framed_fails fun _ _ es h ⟨hv, hd⟩ hspan =>
    elements_fails h (field_ends he h) (field_reads hr h)
      (fun _ _ _ _ _ hstop hdeep hs => bind_of_error (element_fails hp h hstop rfl hdeep hs))
      (failsIn_storesField es .empty hv hd) hspan

theorem items_fails (he : PayloadEnds payload) (hr : ReadsPayload payload (Means promote levels))
    (hp : FailsPayload payload levels) :
    FailsFrame (framed (items payload)) fun es =>
      es.Valid ∧ es.Indexed 0 ∧ levels < es.depth :=
  framed_fails fun _ _ es h ⟨hv, hi, hd⟩ hspan =>
    bind_of_error (elements_fails h (item_ends he h) (item_reads hr h)
      (fun _ _ _ _ _ hstop ⟨hkey, hdeep⟩ hs =>
        bind_of_error (element_fails hp h hstop (index_eq_ok.2 ⟨hkey, rfl, rfl⟩) hdeep hs))
      (failsIn_placesItem es #[] hv hi hd) hspan)

end Levels

/-! ### Payloads -/

/-- A payload is refused if the frame in it is; what stands before that frame is read. -/
theorem payloadWith_fails {document : Region → Cursor Document}
    {array : Region → Cursor (List Value)}
    (hd : FailsFrame document fun es => es.Valid ∧ levels ≤ es.depth)
    (ha : FailsFrame array fun es => es.Valid ∧ es.Indexed 0 ∧ levels ≤ es.depth) :
    FailsPayload (payloadWith promote document array) levels := by
  intro r pos stop p h hstop ⟨hm, hc⟩ hdepth hs
  have widen : ∀ {start l}, r.Spans start stop l →
      ({ r with limit := r.limit + 1 } : Region).Spans start stop l :=
    fun hs => hs.narrow (Nat.le_succ_of_le hstop)
  cases p with
  | document length es =>
    exact bind_of_error (hd h hm.1 ⟨⟨hm.2, hc⟩, Nat.le_of_lt_succ hdepth⟩ (widen hs))
  | array length es =>
    exact bind_of_error (ha h hm.1 ⟨⟨hm.2, hc.1⟩, hc.2, Nat.le_of_lt_succ hdepth⟩ (widen hs))
  | scopedCode total length source scopeLength scope =>
    obtain ⟨at_, ht, hs⟩ := Region.spans_append.1 hs
    obtain ⟨mid, hcode, hs⟩ := Region.spans_append.1 hs
    have hle := ht.1
    have hat := ht.2.1
    have hscope := hd h hm.2.2.1 ⟨⟨hm.2.2.2, hc⟩, Nat.le_of_lt_succ hdepth⟩ (widen hs)
    change Refuses (scopedCode document r) pos
    rw [Refuses, scopedCode, bind_of_ok (here_eq h (by omega)), bind_of_ok ((int32_eq_ok h).2 ht),
      bind_of_ok ((string_eq_ok h).2 ⟨length, hm.2.1, hcode⟩)]
    exact bind_of_error hscope
  | _ => exact absurd hdepth (Nat.not_lt_zero levels)

/-- Payloads that nest more frames than may be opened are refused. -/
theorem payload_fails (promote : Bool) (levels : Nat) :
    FailsPayload (payload promote levels) levels := by
  induction levels with
  | zero => exact payloadWith_fails (fun _ _ _ _ _ _ _ _ _ => rfl) fun _ _ _ _ _ _ _ _ _ => rfl
  | succ levels ih =>
    have he := payload_ends promote levels
    have hr := payload_reads promote levels
    exact payloadWith_fails (fields_fails he hr ih) (items_fails he hr ih)

/-- So are documents, whose own frame counts. -/
theorem document_fails (promote : Bool) (levels : Nat) :
    FailsFrame (document promote levels) fun es => es.Valid ∧ levels ≤ es.depth := by
  cases levels with
  | zero => exact fun _ _ _ _ _ _ _ _ _ => rfl
  | succ levels =>
    exact fields_fails (payload_ends promote levels) (payload_reads promote levels)
      (payload_fails promote levels)

end Frame

/-- A frame that is well formed but nests more than `maxDepth` frames is refused for that. -/
theorem decode_tooDeep {length : Int32} {fields : Elements} (options : DecodeOptions)
    (hv : (Payload.document length fields).Valid)
    (hd : maxDepth < (Payload.document length fields).depth) :
    decode (Payload.document length fields).bytes.toByteArray options =
      .error (.nestingTooDeep maxDepth) := by
  have hlen := length_enclosed length fields.bytes
  have hlist : (Payload.document length fields).bytes.toByteArray.data.toList =
      enclosed length fields.bytes := List.toList_data_toByteArray
  generalize (Payload.document length fields).bytes.toByteArray = b at hlist ⊢
  have hsize : b.size = (enclosed length fields.bytes).length := congrArg List.length hlist
  have hlast : b.data.toList.getLast? = some 0 := by
    rw [hlist, enclosed, ← List.append_assoc, List.getLast?_concat]
  have hspans : (⟨b, b.size - 1 + 1⟩ : Region).Spans 0 b.size (enclosed length fields.bytes) :=
    ⟨by omega, show b.size ≤ b.size - 1 + 1 by omega, [], by rw [List.append_nil, hlist]; rfl⟩
  have hread : Frame.Refuses (Frame.document options.promoteLongs maxDepth ⟨b, b.size - 1⟩) 0 :=
    Frame.document_fails options.promoteLongs maxDepth (show b.size - 1 < b.size by omega) hv.1.1
      ⟨⟨hv.1.2, hv.2⟩, Nat.le_of_lt_succ hd⟩ hspans
  unfold decode
  rw [if_neg (by rw [minDocumentSize]; omega), Reader.ofBytes_eq _ (by omega), if_pos hlast]
  change Except.map _ (Frame.document options.promoteLongs maxDepth ⟨b, b.size - 1⟩ 0) = _
  rw [hread]
  rfl

end Bson
