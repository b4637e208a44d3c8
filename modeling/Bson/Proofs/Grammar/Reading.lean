import Bson.Proofs.Grammar.Arrays

/-!
# Reading accepts the grammar and nothing else

A document is read from the start of an input exactly if the input is long enough, ends in a zero
byte and starts with a well-formed frame in which at most `maxDepth` frames are nested, and then
the result is the document that the frame stands for.

A loop over elements is followed by `Folds`: it relates what is there before the elements to what
is there after them, one element at a time, and is told how many bytes come after each, on which
the rule for gaps in arrays depends. Reads that swallow the terminator in force end behind it, so
the statements are about reads that end before it; the loop around refuses the others.

* `Frame.payload_reads`: payloads, by induction on the number of frames that may be opened.
* `decode_eq_ok_iff`: the statement about documents.
-/

namespace Bson

open Grammar Cursor

namespace Grammar

/-- What a loop over elements makes of `a`, if `Q` says what one element makes of it; `Q` is given
the number of bytes that come after the element. -/
def Folds {α : Type} (Q : Nat → String → Payload → α → α → Prop) : Elements → α → α → Prop
  | .nil, a, b => b = a
  | .cons key p rest, a, b => ∃ mid, Q rest.bytes.length key p a mid ∧ Folds Q rest mid b

end Grammar

namespace Frame

variable {r : Region} {pos stop : Nat} {α : Type}

/-! ### Frames -/

/-- The body of a frame reads elements that stand for its result as `P` says. -/
def ReadsBody (body : Region → Cursor α) (P : Elements → α → Prop) : Prop :=
  ∀ ⦃r : Region⦄ ⦃pos stop : Nat⦄ ⦃a : α⦄, r.limit < r.data.size → pos ≤ r.limit →
    (body r pos = .ok (a, stop) ↔ stop = r.limit ∧ ∃ es, P es a ∧ r.Spans pos stop es.bytes)

/-- The same of a frame that ends before the terminator in force. -/
def ReadsFrame (frame : Region → Cursor α) (P : Elements → α → Prop) : Prop :=
  ∀ ⦃r : Region⦄ ⦃pos stop : Nat⦄ ⦃a : α⦄, r.limit < r.data.size → stop ≤ r.limit →
    (frame r pos = .ok (a, stop) ↔ ∃ length es, MeasuresFrame length es.bytes ∧ P es a ∧
      r.Spans pos stop (enclosed length es.bytes))

theorem terminator_eq_ok (h : r.limit < r.data.size) {mid : Nat} :
    terminator r pos = .ok (stop, mid) ↔
      ∃ length, r.Spans pos mid (Grammar.int32 length) ∧ 5 ≤ length.toUInt32.toNat ∧
        stop = pos + (length.toUInt32.toNat - 1) ∧ stop ≤ r.limit ∧
        r.data.data.toList[stop]? = some 0 := by
  rw [terminator, here_bind_eq_ok]
  simp only [bind_eq_ok (m := int32 r), guard_eq_ok, lift_bind_eq_ok, minus_eq_ok, pure_eq_ok,
    Region.byteAt_eq_ok, int32_eq_ok h]
  constructor
  · rintro ⟨_, length, _, hn, hmin, _, ⟨_, rfl⟩, hl, _, hb, hz, rfl, rfl⟩
    obtain rfl := Decidable.of_not_not hz
    exact ⟨length, hn, Nat.le_of_not_lt hmin, rfl, Nat.le_of_not_lt hl, hb⟩
  · rintro ⟨length, hn, hmin, rfl, hl, hb⟩
    have := hn.le
    have := hn.2.1
    exact ⟨⟨h, by omega⟩, length, mid, hn, Nat.not_lt.2 hmin, _, ⟨by omega, rfl⟩, Nat.not_lt.2 hl,
      0, hb, by decide, rfl, rfl⟩

/-- The bytes of a frame are its length, what is in it, and the terminator that the length
announces. -/
theorem terminator_of_spans (h : r.limit < r.data.size) {length : Int32} {bytes : List UInt8}
    (hm : MeasuresFrame length bytes)
    (hs : ({ r with limit := r.limit + 1 } : Region).Spans pos stop (enclosed length bytes)) :
    ∃ last mid, terminator r pos = .ok (last, mid) ∧ stop = last + 1 ∧ last ≤ r.limit ∧
      ({ r with limit := last } : Region).Spans mid last bytes := by
  rw [MeasuresFrame, length_enclosed] at hm
  obtain ⟨mid, hn, hs⟩ := Region.spans_append.1 hs
  obtain ⟨last, hbytes, hz⟩ := Region.spans_append.1 hs
  obtain ⟨rfl, hlast, hz⟩ := Region.spans_singleton.1 hz
  have hlast : last ≤ r.limit := Nat.le_of_succ_le_succ hlast
  have hmid := length_int32 length ▸ hn.1
  have hend := hbytes.1
  refine ⟨last, mid, (terminator_eq_ok h).2 ?_, rfl, hlast, hbytes.narrow (Nat.le_refl last)⟩
  exact ⟨length, hn.narrow (by omega), by omega, by omega, hlast, hz⟩

/-- A frame may end behind the terminator in force, if its own terminator is that one. -/
theorem framed_eq_ok {body : Region → Cursor α} {P : Elements → α → Prop} (hb : ReadsBody body P)
    (h : r.limit < r.data.size) {a : α} :
    framed body r pos = .ok (a, stop) ↔ ∃ length es, MeasuresFrame length es.bytes ∧ P es a ∧
      ({ r with limit := r.limit + 1 } : Region).Spans pos stop (enclosed length es.bytes) := by
  simp only [framed, bind_eq_ok (m := terminator r), bind_eq_ok (m := body _), lift_bind_eq_ok,
    Region.plus_eq_ok, set_bind_eq_ok, pure_eq_ok, terminator_eq_ok h]
  constructor
  · rintro ⟨last, mid, ⟨length, hn, hmin, rfl, hl, hz⟩, b, e, hbody, _, ⟨_, rfl⟩, rfl, rfl⟩
    have hmid := length_int32 length ▸ hn.1
    have hlt : pos + (length.toUInt32.toNat - 1) < r.data.size := by omega
    obtain ⟨rfl, es, hp, hes⟩ := (hb hlt (show mid ≤ pos + _ by omega)).1 hbody
    have hend : pos + (length.toUInt32.toNat - 1) = mid + es.bytes.length := hes.1
    refine ⟨length, es, ?_, hp, Region.spans_append.2 ⟨mid, hn.narrow (by omega),
      Region.spans_append.2 ⟨_, ⟨hend, Nat.le_succ_of_le hl, hes.2.2⟩,
        Region.spans_singleton.2 ⟨rfl, Nat.succ_le_succ hl, hz⟩⟩⟩⟩
    rw [MeasuresFrame, length_enclosed]
    omega
  · rintro ⟨length, es, hm, hp, hs⟩
    obtain ⟨last, mid, hterm, rfl, hlast, hes⟩ := terminator_of_spans h hm hs
    -- the body fills the window up to the terminator that its length announces
    have hbody := (hb (r := { r with limit := last }) (show last < r.data.size by omega)
      hes.le).2 ⟨rfl, es, hp, hes⟩
    exact ⟨last, mid, (terminator_eq_ok h).1 hterm, a, last, hbody, last + 1, ⟨by omega, rfl⟩, rfl,
      rfl⟩

theorem framed_reads {body : Region → Cursor α} {P : Elements → α → Prop}
    (hb : ReadsBody body P) : ReadsFrame (framed body) P := by
  intro r pos stop a h hstop
  rw [framed_eq_ok hb h]
  constructor
  · rintro ⟨length, es, hm, hp, hs⟩
    exact ⟨length, es, hm, hp, hs.narrow hstop⟩
  · rintro ⟨length, es, hm, hp, hs⟩
    exact ⟨length, es, hm, hp, hs.narrow (Nat.le_succ_of_le hstop)⟩

/-! ### Loops over elements -/

/-- A step of a loop reads one element and does with it as `Q` says. -/
def ReadsStep (r : Region) (step : α → Cursor α)
    (Q : Nat → String → Payload → α → α → Prop) : Prop :=
  ∀ ⦃pos stop : Nat⦄ ⦃a b : α⦄, pos < r.limit → stop ≤ r.limit →
    (step a pos = .ok (b, stop) ↔ ∃ key p, Q (r.limit - stop) key p a b ∧
      r.Spans pos stop (p.tag.toByte :: (Grammar.cstring key ++ p.bytes)))

theorem round_eq_ok {step : Cursor α} (h : r.limit < r.data.size) (hs : StepEnds r step)
    (hp : pos < r.limit) {a : α} :
    round r step pos = .ok (a, stop) ↔ step pos = .ok (a, stop) := by
  rw [round, here_bind_eq_ok, bind_eq_ok]
  constructor
  · rintro ⟨_, _, _, hm, ht⟩
    obtain ⟨_, ht⟩ := here_bind_eq_ok.1 ht
    obtain ⟨_, ht⟩ := guard_eq_ok.1 ht
    obtain ⟨rfl, rfl⟩ := pure_eq_ok.1 ht
    exact hm
  · intro hm
    have := (hs pos hp).2 a stop hm
    refine ⟨⟨h, by omega⟩, a, stop, hm, here_bind_eq_ok.2 ⟨⟨h, by omega⟩, ?_⟩⟩
    exact guard_eq_ok.2 ⟨by omega, pure_eq_ok.2 ⟨rfl, rfl⟩⟩

/-- From the terminator on a loop does nothing. -/
theorem rounds_eq_ok_of_le (h : r.limit < r.data.size) {step : α → Cursor α} {n : Nat} {a b : α}
    (hp : r.limit ≤ pos) :
    rounds r step n a pos = .ok (b, stop) ↔ pos ≤ r.data.size ∧ b = a ∧ stop = pos := by
  cases n with
  | zero =>
    rw [rounds, here_bind_eq_ok, if_neg (by omega), pure_eq_ok]
    simp [h]
  | succ n =>
    rw [rounds, here_bind_eq_ok, if_neg (by omega), pure_eq_ok]
    simp [h]

/-- At the terminator there are no elements. -/
theorem rounds_reads_of_le {step : α → Cursor α} {Q : Nat → String → Payload → α → α → Prop}
    (h : r.limit < r.data.size) (n : Nat) {a b : α} (hp : r.limit ≤ pos) :
    rounds r step n a pos = .ok (b, r.limit) ↔
      ∃ es, Folds Q es a b ∧ r.Spans pos r.limit es.bytes := by
  rw [rounds_eq_ok_of_le h hp]
  constructor
  · rintro ⟨_, rfl, hpos⟩
    exact ⟨.nil, rfl, Region.spans_nil.2 ⟨hpos, Nat.le_refl _⟩⟩
  · rintro ⟨es, hf, hspan⟩
    have hlen := hspan.1
    cases es with
    | nil => exact ⟨by omega, hf, by omega⟩
    | cons key p rest =>
      rw [bytes_cons, List.length_cons] at hlen
      omega

/-- A loop that meets the terminator has read elements that fill its window. -/
theorem rounds_reads {step : α → Cursor α} {Q : Nat → String → Payload → α → α → Prop}
    (h : r.limit < r.data.size) (hs : ∀ a, StepEnds r (step a)) (hq : ReadsStep r step Q)
    (n : Nat) {a b : α} (hp : pos ≤ r.limit) (hn : r.limit ≤ pos + n) :
    rounds r step n a pos = .ok (b, r.limit) ↔
      ∃ es, Folds Q es a b ∧ r.Spans pos r.limit es.bytes := by
  -- a round takes a byte at least, so the rounds last as long as the bytes
  induction n generalizing a pos with
  | zero => exact rounds_reads_of_le h 0 hn
  | succ n ih =>
    rcases Nat.lt_or_ge pos r.limit with hlt | hge
    · rw [rounds, here_bind_eq_ok, if_pos hlt, bind_eq_ok]
      simp only [round_eq_ok h (hs a) hlt]
      constructor
      · rintro ⟨-, a', mid, hstep, hrest⟩
        have hmid := (hs a pos hlt).2 a' mid hstep
        -- an element that swallows the terminator is not followed by a stop at it
        have hle : mid ≤ r.limit := by
          rcases Nat.lt_or_ge r.limit mid with hgt | hle
          · have := ((rounds_eq_ok_of_le h (by omega)).1 hrest).2.2
            omega
          · exact hle
        obtain ⟨key, p, hQ, hspan⟩ := (hq hlt hle).1 hstep
        obtain ⟨rest, hf, hspans⟩ := (ih hle (by omega)).1 hrest
        have hlen := hspans.1
        refine ⟨.cons key p rest, ⟨a', ?_, hf⟩, ?_⟩
        · rwa [show rest.bytes.length = r.limit - mid by omega]
        · rw [bytes_cons, ← List.append_assoc, ← List.cons_append]
          exact Region.spans_append.2 ⟨mid, hspan, hspans⟩
      · rintro ⟨es, hf, hspan⟩
        cases es with
        | nil =>
          have := hspan.1
          rw [Elements.bytes, List.length_nil] at this
          omega
        | cons key p rest =>
          obtain ⟨a', hQ, hf⟩ := hf
          rw [bytes_cons, ← List.append_assoc, ← List.cons_append] at hspan
          obtain ⟨mid, hspan, hspans⟩ := Region.spans_append.1 hspan
          have hlen := hspans.1
          have hmid := hspans.le
          rw [show rest.bytes.length = r.limit - mid by omega] at hQ
          have hstep := (hq hlt hmid).2 ⟨key, p, hQ, hspan⟩
          have hend := (hs a pos hlt).2 a' mid hstep
          exact ⟨⟨h, by omega⟩, a', mid, hstep, (ih hmid (by omega)).2 ⟨rest, hf, hspans⟩⟩
    · exact rounds_reads_of_le h (n + 1) hge

/-- The elements of a frame fill its window. -/
theorem elements_reads {step : α → Cursor α} {Q : Nat → String → Payload → α → α → Prop}
    (h : r.limit < r.data.size) (hs : ∀ a, StepEnds r (step a)) (hq : ReadsStep r step Q)
    {a b : α} (hp : pos ≤ r.limit) :
    elements r step a pos = .ok (b, stop) ↔
      stop = r.limit ∧ ∃ es, Folds Q es a b ∧ r.Spans pos stop es.bytes := by
  simp only [elements, here_bind_eq_ok, bind_eq_ok (m := rounds _ _ _ _), guard_eq_ok,
    pure_eq_ok]
  constructor
  · rintro ⟨_, c, mid, hrounds, _, hmid, rfl, rfl⟩
    obtain rfl := Decidable.of_not_not hmid
    exact ⟨rfl, (rounds_reads h hs hq _ hp (by omega)).1 hrounds⟩
  · rintro ⟨rfl, hes⟩
    have hrounds := (rounds_reads h hs hq (r.limit - pos) hp (by omega)).2 hes
    exact ⟨⟨h, by omega⟩, b, _, hrounds, ⟨h, by omega⟩, fun hne => hne rfl, rfl, rfl⟩

/-! ### Documents and arrays -/

/-- What a payload reads as if at most `levels` frames may be open at once. -/
def Means (promote : Bool) (levels : Nat) (p : Payload) (v : Value) : Prop :=
  p.Valid ∧ p.depth ≤ levels ∧ p.value promote = v

/-- The same of the elements of a document, whose own frame counts. -/
def MeansDocument (promote : Bool) (levels : Nat) (es : Elements) (d : Document) : Prop :=
  es.Valid ∧ es.depth < levels ∧ es.document promote .empty = d

/-- The same of the elements of an array. -/
def MeansArray (promote : Bool) (levels : Nat) (es : Elements) (vs : List Value) : Prop :=
  es.Valid ∧ es.Indexed 0 ∧ es.depth < levels ∧ es.items promote [] = vs

/-- Reads payloads that end before the terminator in force as `P` says. -/
def ReadsPayload (payload : PayloadReader) (P : Payload → Value → Prop) : Prop :=
  ∀ ⦃r : Region⦄ ⦃tag : Tag⦄ ⦃pos stop : Nat⦄ ⦃v : Value⦄, r.limit < r.data.size →
    stop ≤ r.limit →
    (payload r tag pos = .ok (v, stop) ↔
      ∃ p : Payload, p.tag = tag ∧ P p v ∧ r.Spans pos stop p.bytes)

theorem valid_cons {key : String} {p : Payload} {rest : Elements} :
    (Elements.cons key p rest).Valid ↔ NulFree key ∧ p.Valid ∧ rest.Valid := by
  simp only [Payload.Valid, Elements.Valid, Elements.Measured, Elements.Clean]
  constructor
  · rintro ⟨⟨hm, hms⟩, hk, hc, hcs⟩
    exact ⟨hk, ⟨hm, hc⟩, hms, hcs⟩
  · rintro ⟨hk, ⟨hm, hc⟩, hms, hcs⟩
    exact ⟨⟨hm, hms⟩, hk, hc, hcs⟩

/-- What a field makes of the document before it. -/
def StoresField (promote : Bool) (levels : Nat) (_left : Nat) (key : String) (p : Payload)
    (d d' : Document) : Prop :=
  NulFree key ∧ ∃ v, Means promote levels p v ∧ d' = d.insert key v

theorem folds_storesField {promote : Bool} {levels : Nat} : ∀ (es : Elements) {d d' : Document},
    Folds (StoresField promote levels) es d d' ↔
      es.Valid ∧ es.depth ≤ levels ∧ es.document promote d = d'
  | .nil, d, d' => by
    simp [Folds, Elements.Valid, Elements.Measured, Elements.Clean, Elements.depth,
      Elements.document, eq_comm]
  | .cons key p rest, d, d' => by
    rw [Folds, valid_cons, Elements.depth, Nat.max_le, Elements.document]
    simp only [folds_storesField rest, StoresField, Means]
    constructor
    · rintro ⟨_, ⟨hk, _, ⟨hp, hd, rfl⟩, rfl⟩, hr, hdr, rfl⟩
      exact ⟨⟨hk, hp, hr⟩, ⟨hd, hdr⟩, rfl⟩
    · rintro ⟨⟨hk, hp, hr⟩, ⟨hd, hdr⟩, rfl⟩
      exact ⟨_, ⟨hk, _, ⟨hp, hd, rfl⟩, rfl⟩, hr, hdr, rfl⟩

theorem length_placed (items : List Value) (n : Nat) (v : Value) :
    (placed items n v).length = max items.length (n + 1) := by
  unfold placed
  split
  · rw [List.length_set]
    omega
  · simp only [List.length_append, List.length_replicate, List.length_singleton]
    omega

/-- What an item makes of the array before it, with `left` bytes to come. -/
def PlacesItem (promote : Bool) (levels : Nat) (left : Nat) (key : String) (p : Payload)
    (items items' : Array Value) : Prop :=
  NulFree key ∧ IsIndex key ∧ ∃ v, Means promote levels p v ∧
    indexOf key ≤ items.size + left ∧ items'.toList = placed items.toList (indexOf key) v

theorem folds_placesItem {promote : Bool} {levels : Nat} :
    ∀ (es : Elements) {items items' : Array Value},
      Folds (PlacesItem promote levels) es items items' ↔
        es.Valid ∧ es.Indexed items.size ∧ es.depth ≤ levels ∧
          es.items promote items.toList = items'.toList
  | .nil, items, items' => by
    simp [Folds, Elements.Valid, Elements.Measured, Elements.Clean, Elements.depth,
      Elements.Indexed, Elements.items, eq_comm]
  | .cons key p rest, items, items' => by
    rw [Folds, valid_cons, Elements.depth, Nat.max_le, Elements.items, Elements.Indexed]
    simp only [folds_placesItem rest, PlacesItem, Means]
    have size_of : ∀ {mid : Array Value} {v : Value},
        mid.toList = placed items.toList (indexOf key) v →
          mid.size = max items.size (indexOf key + 1) := by
      intro mid v hmid
      rw [← Array.length_toList, hmid, length_placed, Array.length_toList]
    constructor
    · rintro ⟨mid, ⟨hk, hi, _, ⟨hp, hd, rfl⟩, hgap, hmid⟩, hr, hri, hdr, hres⟩
      rw [size_of hmid] at hri
      rw [hmid] at hres
      exact ⟨⟨hk, hp, hr⟩, ⟨hi, hgap, hri⟩, ⟨hd, hdr⟩, hres⟩
    · rintro ⟨⟨hk, hp, hr⟩, ⟨hi, hgap, hri⟩, ⟨hd, hdr⟩, hres⟩
      have hmid : (placed items.toList (indexOf key) (p.value promote)).toArray.toList =
        placed items.toList (indexOf key) (p.value promote) := rfl
      refine ⟨_, ⟨hk, hi, _, ⟨hp, hd, rfl⟩, hgap, hmid⟩, hr, ?_, hdr, hres⟩
      rwa [size_of hmid]

theorem element_eq_ok {κ : Type} {payload : PayloadReader} {P : Payload → Value → Prop}
    {key : String → Except Error κ} (hr : ReadsPayload payload P) (h : r.limit < r.data.size)
    (hstop : stop ≤ r.limit) {k : κ} {v : Value} :
    element payload key r pos = .ok ((k, v), stop) ↔
      ∃ s p, key s = .ok k ∧ NulFree s ∧ P p v ∧
        r.Spans pos stop (p.tag.toByte :: (Grammar.cstring s ++ p.bytes)) := by
  rw [element, here_bind_eq_ok]
  constructor
  · rintro ⟨_, hm⟩
    obtain ⟨b, _, hb, hm⟩ := bind_eq_ok.1 hm
    obtain ⟨s, mid, hs, hm⟩ := bind_eq_ok.1 hm
    obtain ⟨_, hk, hm⟩ := lift_bind_eq_ok.1 hm
    obtain ⟨hn, hspan⟩ := (cstring_eq_ok h).1 hs
    have hb := (byte_eq_ok h).1 hb
    -- the payload is read only if its byte is a tag
    cases ht : Tag.ofByte? b with
    | none =>
      rw [ht] at hm
      exact (throw_eq_ok.1 hm).elim
    | some tag =>
      rw [ht] at hm
      obtain ⟨_, _, hp, hm⟩ := bind_eq_ok.1 hm
      obtain ⟨he, rfl⟩ := pure_eq_ok.1 hm
      cases he
      obtain ⟨p, rfl, hP, hps⟩ := (hr h hstop).1 hp
      rw [← Tag.toByte_of_ofByte? ht] at hb
      refine ⟨s, p, hk, hn, hP, Region.spans_cons.2 ⟨_, hb, ?_⟩⟩
      exact Region.spans_append.2 ⟨mid, hspan, hps⟩
  · rintro ⟨s, p, hk, hn, hP, hspans⟩
    obtain ⟨at_, hb, hspans⟩ := Region.spans_cons.1 hspans
    obtain ⟨mid, hs, hps⟩ := Region.spans_append.1 hspans
    have := hb.2.1
    have := hb.1
    refine ⟨⟨h, by omega⟩, bind_eq_ok.2 ⟨_, at_, (byte_eq_ok h).2 hb, ?_⟩⟩
    refine bind_eq_ok.2 ⟨s, mid, (cstring_eq_ok h).2 ⟨hn, hs⟩, lift_bind_eq_ok.2 ⟨k, hk, ?_⟩⟩
    rw [Tag.ofByte?_toByte]
    exact bind_eq_ok.2 ⟨v, stop, (hr h hstop).2 ⟨p, rfl, hP, hps⟩, pure_eq_ok.2 ⟨rfl, rfl⟩⟩

section Levels

variable {promote : Bool} {levels : Nat} {payload : PayloadReader}

theorem field_reads (hr : ReadsPayload payload (Means promote levels))
    (h : r.limit < r.data.size) :
    ReadsStep r (field payload r) (StoresField promote levels) := by
  intro pos stop d d' _ hstop
  simp only [field, bind_eq_ok, pure_eq_ok, Prod.exists]
  constructor
  · rintro ⟨k, v, mid, hel, rfl, rfl⟩
    obtain ⟨s, p, hk, hn, hP, hspan⟩ := (element_eq_ok hr h hstop).1 hel
    cases hk
    exact ⟨k, p, ⟨hn, v, hP, rfl⟩, hspan⟩
  · rintro ⟨s, p, ⟨hn, v, hP, rfl⟩, hspan⟩
    exact ⟨s, v, stop, (element_eq_ok hr h hstop).2 ⟨s, p, rfl, hn, hP, hspan⟩, rfl, rfl⟩

theorem fields_reads (he : PayloadEnds payload)
    (hr : ReadsPayload payload (Means promote levels)) :
    ReadsBody (fields payload) (MeansDocument promote (levels + 1)) := by
  intro r pos stop d h hp
  rw [fields, elements_reads h (field_ends he h) (field_reads hr h) hp]
  simp only [folds_storesField, MeansDocument, Nat.lt_succ_iff]

theorem item_reads (hr : ReadsPayload payload (Means promote levels))
    (h : r.limit < r.data.size) :
    ReadsStep r (item payload r) (PlacesItem promote levels) := by
  intro pos stop items items' _ hstop
  simp only [item, bind_eq_ok (m := element payload index r), Prod.exists, here_bind_eq_ok,
    lift_eq_ok, place_eq_ok]
  constructor
  · rintro ⟨k, n, v, mid, hel, _, ⟨hgap, hplaced⟩, rfl⟩
    obtain ⟨s, p, hk, hn, hP, hspan⟩ := (element_eq_ok hr h hstop).1 hel
    obtain ⟨hi, rfl, rfl⟩ := index_eq_ok.1 hk
    exact ⟨k, p, ⟨hn, hi, v, hP, hgap, hplaced⟩, hspan⟩
  · rintro ⟨s, p, ⟨hn, hi, v, hP, hgap, hplaced⟩, hspan⟩
    have hel := (element_eq_ok hr h hstop).2
      ⟨s, p, index_eq_ok.2 ⟨hi, rfl, rfl⟩, hn, hP, hspan⟩
    exact ⟨s, _, v, stop, hel, ⟨h, by omega⟩, ⟨hgap, hplaced⟩, rfl⟩

theorem items_reads (he : PayloadEnds payload)
    (hr : ReadsPayload payload (Means promote levels)) :
    ReadsBody (items payload) (MeansArray promote (levels + 1)) := by
  intro r pos stop vs h hp
  simp only [items, bind_eq_ok (m := elements _ _ _), pure_eq_ok,
    elements_reads h (item_ends he h) (item_reads hr h) hp, folds_placesItem, MeansArray,
    Nat.lt_succ_iff]
  constructor
  · rintro ⟨all, _, ⟨rfl, es, ⟨hv, hi, hd, hes⟩, hspan⟩, rfl, rfl⟩
    exact ⟨rfl, es, ⟨hv, hi, hd, hes⟩, hspan⟩
  · rintro ⟨rfl, es, ⟨hv, hi, hd, rfl⟩, hspan⟩
    exact ⟨_, _, ⟨rfl, es, ⟨hv, hi, hd, rfl⟩, hspan⟩, rfl, rfl⟩

end Levels

/-! ### Payloads -/

theorem binaryData_eq_ok (h : r.limit < r.data.size) {lengthAt : Nat} {subtype : UInt8}
    {length : Int32} {b : Binary} :
    binaryData r lengthAt subtype length pos = .ok (b, stop) ↔
      b.subtype = subtype ∧ length.toInt = b.data.size ∧ r.Spans pos stop b.data.data.toList := by
  simp only [binaryData, guard_eq_ok, bind_eq_ok, pure_eq_ok, take_eq_ok h]
  constructor
  · rintro ⟨hpos, bytes, _, ⟨hb, hs⟩, rfl, rfl⟩
    exact ⟨rfl, by simp only; omega, hs⟩
  · rintro ⟨rfl, hlen, hs⟩
    exact ⟨by omega, b.data, stop, ⟨by omega, hs⟩, rfl, rfl⟩

theorem binary_eq_ok (h : r.limit < r.data.size) {b : Binary} :
    binary r pos = .ok (b, stop) ↔
      ∃ p : Payload, p.tag = .binary ∧ p.Valid ∧ (∀ promote, p.value promote = .binary b) ∧
        r.Spans pos stop p.bytes := by
  rw [binary, here_bind_eq_ok]
  constructor
  · rintro ⟨_, hm⟩
    obtain ⟨outer, _, ho, hm⟩ := bind_eq_ok.1 hm
    obtain ⟨subtype, _, hb, hm⟩ := bind_eq_ok.1 hm
    have ho := (int32_eq_ok h).1 ho
    have hb := (byte_eq_ok h).1 hb
    split at hm
    · rename_i hold
      obtain ⟨length, _, hl, hm⟩ := bind_eq_ok.1 hm
      obtain ⟨rfl, hlen, hs⟩ := (binaryData_eq_ok h).1 hm
      refine ⟨.oldBinary outer length b.data, rfl, ⟨⟨hlen, nofun⟩, trivial⟩, fun _ => ?_, ?_⟩
      · rw [Payload.value, ← hold]
      · rw [Payload.bytes, ← hold]
        refine Region.spans_append.2 ⟨_, ho, Region.spans_cons.2 ⟨_, hb, ?_⟩⟩
        exact Region.spans_append.2 ⟨_, (int32_eq_ok h).1 hl, hs⟩
    · rename_i hnew
      obtain ⟨rfl, hlen, hs⟩ := (binaryData_eq_ok h).1 hm
      refine ⟨.binary outer b.subtype b.data, rfl, ⟨hlen, hnew⟩, fun _ => rfl, ?_⟩
      rw [Payload.bytes]
      exact Region.spans_append.2 ⟨_, ho, Region.spans_cons.2 ⟨_, hb, hs⟩⟩
  · rintro ⟨p, ht, ⟨hm, hc⟩, hv, hs⟩
    have := hs.le
    have := hs.2.1
    refine ⟨⟨h, by omega⟩, ?_⟩
    cases p with
    | binary length subtype data =>
      cases hv true
      rw [Payload.bytes] at hs
      obtain ⟨_, ho, hs⟩ := Region.spans_append.1 hs
      obtain ⟨_, hb, hs⟩ := Region.spans_cons.1 hs
      refine bind_eq_ok.2 ⟨length, _, (int32_eq_ok h).2 ho, ?_⟩
      refine bind_eq_ok.2 ⟨subtype, _, (byte_eq_ok h).2 hb, ?_⟩
      rw [if_neg hc]
      exact (binaryData_eq_ok h).2 ⟨rfl, hm, hs⟩
    | oldBinary outer length data =>
      cases hv true
      rw [Payload.bytes] at hs
      obtain ⟨_, ho, hs⟩ := Region.spans_append.1 hs
      obtain ⟨_, hb, hs⟩ := Region.spans_cons.1 hs
      obtain ⟨_, hl, hs⟩ := Region.spans_append.1 hs
      refine bind_eq_ok.2 ⟨outer, _, (int32_eq_ok h).2 ho, ?_⟩
      refine bind_eq_ok.2 ⟨_, _, (byte_eq_ok h).2 hb, ?_⟩
      rw [if_pos rfl]
      refine bind_eq_ok.2 ⟨length, _, (int32_eq_ok h).2 hl, ?_⟩
      exact (binaryData_eq_ok h).2 ⟨rfl, hm.1, hs⟩
    | _ => cases ht

theorem objectId_eq_ok (h : r.limit < r.data.size) {id : ObjectId} :
    objectId r pos = .ok (id, stop) ↔ r.Spans pos stop id.bytes.data.toList := by
  rw [objectId, here_bind_eq_ok]
  constructor
  · rintro ⟨_, hm⟩
    obtain ⟨bytes, _, ht, hm⟩ := bind_eq_ok.1 hm
    obtain ⟨hb, hs⟩ := (take_eq_ok h).1 ht
    rw [ObjectId.ofBytes, dif_pos hb] at hm
    obtain ⟨rfl, rfl⟩ := pure_eq_ok.1 hm
    exact hs
  · intro hs
    have := hs.le
    have := hs.2.1
    refine ⟨⟨h, by omega⟩, bind_eq_ok.2 ⟨id.bytes, stop, (take_eq_ok h).2 ⟨id.size_bytes, hs⟩, ?_⟩⟩
    rw [ObjectId.ofBytes, dif_pos id.size_bytes]
    exact pure_eq_ok.2 ⟨rfl, rfl⟩

theorem halves_eq_ok (h : r.limit < r.data.size) {f : Int32 → Int32 → Cursor α} {a : α} :
    (do
      let low ← int32 r
      let high ← int32 r
      f low high) pos = .ok (a, stop) ↔
      ∃ low high mid, r.Spans pos mid (Grammar.int32 low ++ Grammar.int32 high) ∧
        f low high mid = .ok (a, stop) := by
  simp only [bind_eq_ok, int32_eq_ok h, Region.spans_append]
  constructor
  · rintro ⟨low, at_, hl, high, mid, hh, hf⟩
    exact ⟨low, high, mid, ⟨at_, hl, hh⟩, hf⟩
  · rintro ⟨low, high, mid, ⟨at_, hl, hh⟩, hf⟩
    exact ⟨low, at_, hl, high, mid, hh, hf⟩

theorem int64Value_eq_ok (h : r.limit < r.data.size) {promote : Bool} {v : Value} :
    int64Value promote r pos = .ok (v, stop) ↔
      ∃ low high, v = Grammar.int64Value promote low high ∧
        r.Spans pos stop (Grammar.int32 low ++ Grammar.int32 high) := by
  have hsafe : ∀ n : Int, -safeIntegerBound < n ∧ n < safeIntegerBound ↔ n.natAbs < 2 ^ 53 := by
    intro n
    rw [safeIntegerBound]
    omega
  rw [int64Value, halves_eq_ok h]
  simp only [hsafe, Grammar.int64Value]
  constructor
  · rintro ⟨low, high, mid, hs, hm⟩
    refine ⟨low, high, ?_⟩
    split at hm
    · obtain ⟨rfl, rfl⟩ := pure_eq_ok.1 hm
      exact ⟨(if_pos ‹_›).symm, hs⟩
    · obtain ⟨rfl, rfl⟩ := pure_eq_ok.1 hm
      exact ⟨(if_neg ‹_›).symm, hs⟩
  · rintro ⟨low, high, rfl, hs⟩
    refine ⟨low, high, stop, hs, ?_⟩
    split
    · exact pure_eq_ok.2 ⟨rfl, rfl⟩
    · exact pure_eq_ok.2 ⟨rfl, rfl⟩

theorem scopedCode_eq_ok {document : Region → Cursor Document} {P : Elements → Document → Prop}
    (hr : ReadsFrame document P) (h : r.limit < r.data.size) (hstop : stop ≤ r.limit) {v : Value} :
    scopedCode document r pos = .ok (v, stop) ↔
      ∃ total length source scopeLength scope d,
        (Payload.scopedCode total length source scopeLength scope).bytes.length = total.toInt ∧
        MeasuresText length source ∧ MeasuresFrame scopeLength scope.bytes ∧ P scope d ∧
        v = .scopedCode source d ∧
        r.Spans pos stop (Payload.scopedCode total length source scopeLength scope).bytes := by
  simp only [scopedCode, here_bind_eq_ok, lift_bind_eq_ok, guard_eq_ok, pure_eq_ok, minus_eq_ok,
    bind_eq_ok (m := int32 r), bind_eq_ok (m := string r), bind_eq_ok (m := document r),
    int32_eq_ok h, string_eq_ok h, Payload.bytes]
  constructor
  · rintro ⟨_, total, at_, ht, source, mid, ⟨length, hm, hs⟩, d, last, hd, _, _, ⟨_, rfl⟩, hlen,
      rfl, rfl⟩
    obtain ⟨scopeLength, scope, hms, hP, hss⟩ := (hr h hstop).1 hd
    have hspan := Region.spans_append.2 ⟨at_, ht, Region.spans_append.2 ⟨mid, hs, hss⟩⟩
    have := hspan.1
    exact ⟨total, length, source, scopeLength, scope, d, by omega, hm, hms, hP, rfl, hspan⟩
  · rintro ⟨total, length, source, scopeLength, scope, d, hlen, hm, hms, hP, rfl, hspan⟩
    have hstart := hspan.1
    obtain ⟨at_, ht, hspan⟩ := Region.spans_append.1 hspan
    obtain ⟨mid, hs, hss⟩ := Region.spans_append.1 hspan
    have hd := (hr h hstop).2 ⟨scopeLength, scope, hms, hP, hss⟩
    refine ⟨⟨h, by omega⟩, total, at_, ht, source, mid, ⟨length, hm, hs⟩, d, stop, hd,
      ⟨h, by omega⟩, _, ⟨by omega, rfl⟩, by omega, rfl, rfl⟩

theorem map_eq_ok {β : Type} {m : Cursor α} {f : α → β} {b : β} :
    (do return f (← m)) pos = .ok (b, stop) ↔ ∃ a, m pos = .ok (a, stop) ∧ b = f a := by
  simp only [bind_eq_ok, pure_eq_ok]
  constructor
  · rintro ⟨a, _, ha, hb, rfl⟩
    exact ⟨a, ha, hb⟩
  · rintro ⟨a, ha, hb⟩
    exact ⟨a, stop, ha, hb, rfl⟩

/-- What has no bytes is read from none. -/
theorem pure_reads (hstop : stop ≤ r.limit) {a b : α} :
    (pure a : Cursor α) pos = .ok (b, stop) ↔ b = a ∧ r.Spans pos stop [] := by
  rw [pure_eq_ok, Region.spans_nil]
  exact and_congr_right fun _ => (and_iff_left hstop).symm

section Payloads

variable {promote : Bool} {levels : Nat} {document : Region → Cursor Document}
  {array : Region → Cursor (List Value)} {v : Value}

/-- What is read as a payload is the bytes of a well-formed payload. -/
theorem payloadWith_sound (hd : ReadsFrame document (MeansDocument promote levels))
    (ha : ReadsFrame array (MeansArray promote levels)) (h : r.limit < r.data.size)
    (hstop : stop ≤ r.limit) {tag : Tag}
    (hm : payloadWith promote document array r tag pos = .ok (v, stop)) :
    ∃ p : Payload, p.tag = tag ∧ Means promote levels p v ∧ r.Spans pos stop p.bytes := by
  -- what holds no frame stands for its value if it is valid
  have leaf : ∀ p : Payload, p.Valid → p.depth = 0 → r.Spans pos stop p.bytes →
      v = p.value promote → Means promote levels p v ∧ r.Spans pos stop p.bytes :=
    fun p hv h0 hs he => ⟨⟨hv, by omega, he.symm⟩, hs⟩
  cases tag with
  | double =>
    obtain ⟨x, hx, rfl⟩ := map_eq_ok.1 hm
    exact ⟨.double x, rfl, leaf _ ⟨trivial, trivial⟩ rfl ((double_eq_ok h).1 hx) rfl⟩
  | string =>
    obtain ⟨s, hs, rfl⟩ := map_eq_ok.1 hm
    obtain ⟨length, hl, hs⟩ := (string_eq_ok h).1 hs
    exact ⟨.string length s, rfl, leaf _ ⟨hl, trivial⟩ rfl hs rfl⟩
  | document =>
    obtain ⟨d, hd', rfl⟩ := map_eq_ok.1 hm
    obtain ⟨length, es, hl, ⟨hv, hdepth, rfl⟩, hs⟩ := (hd h hstop).1 hd'
    exact ⟨.document length es, rfl, ⟨⟨⟨hl, hv.1⟩, hv.2⟩, hdepth, rfl⟩, hs⟩
  | array =>
    obtain ⟨vs, ha', rfl⟩ := map_eq_ok.1 hm
    obtain ⟨length, es, hl, ⟨hv, hi, hdepth, rfl⟩, hs⟩ := (ha h hstop).1 ha'
    exact ⟨.array length es, rfl, ⟨⟨⟨hl, hv.1⟩, hv.2, hi⟩, hdepth, rfl⟩, hs⟩
  | binary =>
    obtain ⟨b, hb, rfl⟩ := map_eq_ok.1 hm
    obtain ⟨p, ht, hv, hval, hs⟩ := (binary_eq_ok h).1 hb
    refine ⟨p, ht, leaf p hv ?_ hs (hval promote).symm⟩
    cases p <;> first | rfl | cases ht
  | undefined =>
    obtain ⟨rfl, hs⟩ := (pure_reads hstop).1 hm
    exact ⟨.undefined, rfl, leaf _ ⟨trivial, trivial⟩ rfl hs rfl⟩
  | objectId =>
    obtain ⟨id, hid, rfl⟩ := map_eq_ok.1 hm
    exact ⟨.objectId id, rfl, leaf _ ⟨trivial, trivial⟩ rfl ((objectId_eq_ok h).1 hid) rfl⟩
  | boolean =>
    obtain ⟨b, hb, rfl⟩ := map_eq_ok.1 hm
    exact ⟨.boolean b, rfl, leaf _ ⟨trivial, trivial⟩ rfl ((byte_eq_ok h).1 hb) rfl⟩
  | dateTime =>
    obtain ⟨n, hn, rfl⟩ := map_eq_ok.1 hm
    exact ⟨.dateTime n, rfl, leaf _ ⟨trivial, trivial⟩ rfl ((int64_eq_ok h).1 hn) rfl⟩
  | null =>
    obtain ⟨rfl, hs⟩ := (pure_reads hstop).1 hm
    exact ⟨.null, rfl, leaf _ ⟨trivial, trivial⟩ rfl hs rfl⟩
  | regex =>
    obtain ⟨pattern, mid, hp, hm⟩ := bind_eq_ok.1 hm
    obtain ⟨options, ho, rfl⟩ := map_eq_ok.1 hm
    obtain ⟨hnp, hsp⟩ := (cstring_eq_ok h).1 hp
    obtain ⟨hno, hso⟩ := (cstring_eq_ok h).1 ho
    have hs := Region.spans_append.2 ⟨mid, hsp, hso⟩
    exact ⟨.regex pattern options, rfl, leaf _ ⟨trivial, hnp, hno⟩ rfl hs rfl⟩
  | code =>
    obtain ⟨s, hs, rfl⟩ := map_eq_ok.1 hm
    obtain ⟨length, hl, hs⟩ := (string_eq_ok h).1 hs
    exact ⟨.code length s, rfl, leaf _ ⟨hl, trivial⟩ rfl hs rfl⟩
  | symbol =>
    obtain ⟨s, hs, rfl⟩ := map_eq_ok.1 hm
    obtain ⟨length, hl, hs⟩ := (string_eq_ok h).1 hs
    exact ⟨.symbol length s, rfl, leaf _ ⟨hl, trivial⟩ rfl hs rfl⟩
  | scopedCode =>
    obtain ⟨total, length, source, scopeLength, scope, d, hlen, hl, hsl, ⟨hv, hdepth, rfl⟩, rfl,
      hs⟩ := (scopedCode_eq_ok hd h hstop).1 hm
    exact ⟨.scopedCode total length source scopeLength scope, rfl,
      ⟨⟨⟨hlen.symm, hl, hsl, hv.1⟩, hv.2⟩, hdepth, rfl⟩, hs⟩
  | int32 =>
    obtain ⟨n, hn, rfl⟩ := map_eq_ok.1 hm
    exact ⟨.int32 n, rfl, leaf _ ⟨trivial, trivial⟩ rfl ((int32_eq_ok h).1 hn) rfl⟩
  | timestamp =>
    obtain ⟨low, high, mid, hs, hm⟩ := (halves_eq_ok h).1 hm
    obtain ⟨rfl, rfl⟩ := pure_eq_ok.1 hm
    exact ⟨.timestamp low high, rfl, leaf _ ⟨trivial, trivial⟩ rfl hs rfl⟩
  | int64 =>
    obtain ⟨low, high, rfl, hs⟩ := (int64Value_eq_ok h).1 hm
    exact ⟨.int64 low high, rfl, leaf _ ⟨trivial, trivial⟩ rfl hs rfl⟩
  | maxKey =>
    obtain ⟨rfl, hs⟩ := (pure_reads hstop).1 hm
    exact ⟨.maxKey, rfl, leaf _ ⟨trivial, trivial⟩ rfl hs rfl⟩
  | minKey =>
    obtain ⟨rfl, hs⟩ := (pure_reads hstop).1 hm
    exact ⟨.minKey, rfl, leaf _ ⟨trivial, trivial⟩ rfl hs rfl⟩

/-- The bytes of a well-formed payload are read as what the payload stands for. -/
theorem payloadWith_complete (hd : ReadsFrame document (MeansDocument promote levels))
    (ha : ReadsFrame array (MeansArray promote levels)) (h : r.limit < r.data.size)
    (hstop : stop ≤ r.limit) {p : Payload} (hp : Means promote levels p v)
    (hs : r.Spans pos stop p.bytes) :
    payloadWith promote document array r p.tag pos = .ok (v, stop) := by
  obtain ⟨⟨hm, hc⟩, hdepth, rfl⟩ := hp
  cases p with
  | double x => exact map_eq_ok.2 ⟨x, (double_eq_ok h).2 hs, rfl⟩
  | string length s => exact map_eq_ok.2 ⟨s, (string_eq_ok h).2 ⟨length, hm, hs⟩, rfl⟩
  | document length es =>
    exact map_eq_ok.2 ⟨_, (hd h hstop).2 ⟨length, es, hm.1, ⟨⟨hm.2, hc⟩, hdepth, rfl⟩, hs⟩, rfl⟩
  | array length es =>
    exact map_eq_ok.2
      ⟨_, (ha h hstop).2 ⟨length, es, hm.1, ⟨⟨hm.2, hc.1⟩, hc.2, hdepth, rfl⟩, hs⟩, rfl⟩
  | binary length subtype data =>
    have hb := (binary_eq_ok h).2 ⟨.binary length subtype data, rfl, ⟨hm, hc⟩, fun _ => rfl, hs⟩
    exact map_eq_ok.2 ⟨_, hb, rfl⟩
  | oldBinary outer length data =>
    have hb := (binary_eq_ok h).2 ⟨.oldBinary outer length data, rfl, ⟨hm, hc⟩, fun _ => rfl, hs⟩
    exact map_eq_ok.2 ⟨_, hb, rfl⟩
  | undefined => exact (pure_reads hstop).2 ⟨rfl, hs⟩
  | objectId id => exact map_eq_ok.2 ⟨id, (objectId_eq_ok h).2 hs, rfl⟩
  | boolean b => exact map_eq_ok.2 ⟨b, (byte_eq_ok h).2 hs, rfl⟩
  | dateTime n => exact map_eq_ok.2 ⟨n, (int64_eq_ok h).2 hs, rfl⟩
  | null => exact (pure_reads hstop).2 ⟨rfl, hs⟩
  | regex pattern options =>
    obtain ⟨mid, hsp, hso⟩ := Region.spans_append.1 hs
    refine bind_eq_ok.2 ⟨pattern, mid, (cstring_eq_ok h).2 ⟨hc.1, hsp⟩, ?_⟩
    exact map_eq_ok.2 ⟨options, (cstring_eq_ok h).2 ⟨hc.2, hso⟩, rfl⟩
  | code length s => exact map_eq_ok.2 ⟨s, (string_eq_ok h).2 ⟨length, hm, hs⟩, rfl⟩
  | symbol length s => exact map_eq_ok.2 ⟨s, (string_eq_ok h).2 ⟨length, hm, hs⟩, rfl⟩
  | scopedCode total length source scopeLength scope =>
    exact (scopedCode_eq_ok hd h hstop).2 ⟨total, length, source, scopeLength, scope, _,
      hm.1.symm, hm.2.1, hm.2.2.1, ⟨⟨hm.2.2.2, hc⟩, hdepth, rfl⟩, rfl, hs⟩
  | int32 n => exact map_eq_ok.2 ⟨n, (int32_eq_ok h).2 hs, rfl⟩
  | timestamp low high =>
    exact (halves_eq_ok h).2 ⟨low, high, stop, hs, pure_eq_ok.2 ⟨rfl, rfl⟩⟩
  | int64 low high => exact (int64Value_eq_ok h).2 ⟨low, high, rfl, hs⟩
  | maxKey => exact (pure_reads hstop).2 ⟨rfl, hs⟩
  | minKey => exact (pure_reads hstop).2 ⟨rfl, hs⟩

theorem payloadWith_reads (hd : ReadsFrame document (MeansDocument promote levels))
    (ha : ReadsFrame array (MeansArray promote levels)) :
    ReadsPayload (payloadWith promote document array) (Means promote levels) := by
  intro r tag pos stop v h hstop
  constructor
  · exact payloadWith_sound hd ha h hstop
  · rintro ⟨p, rfl, hp, hs⟩
    exact payloadWith_complete hd ha h hstop hp hs

/-- Payloads are read by the grammar, however deep the frames in them may nest. -/
theorem payload_reads (promote : Bool) (levels : Nat) :
    ReadsPayload (payload promote levels) (Means promote levels) := by
  induction levels with
  | zero =>
    -- without a frame to open nothing has a depth below zero
    refine payloadWith_reads (fun r pos stop d h hstop => ?_) fun r pos stop vs h hstop => ?_
    · exact ⟨fun he => (throw_eq_ok.1 he).elim, fun ⟨_, _, _, hd, _⟩ => absurd hd.2.1 (by omega)⟩
    · exact ⟨fun he => (throw_eq_ok.1 he).elim,
        fun ⟨_, _, _, hd, _⟩ => absurd hd.2.2.1 (by omega)⟩
  | succ levels ih =>
    have he := payload_ends promote levels
    exact payloadWith_reads (framed_reads (fields_reads he ih)) (framed_reads (items_reads he ih))

/-- A document is read where a well-formed frame stands, which may end in the terminator of the
input. -/
theorem document_eq_ok (h : r.limit < r.data.size) {d : Document} :
    Frame.document promote levels r pos = .ok (d, stop) ↔
      ∃ length es, MeasuresFrame length es.bytes ∧ MeansDocument promote levels es d ∧
        ({ r with limit := r.limit + 1 } : Region).Spans pos stop (enclosed length es.bytes) := by
  cases levels with
  | zero =>
    exact ⟨fun he => (throw_eq_ok.1 he).elim, fun ⟨_, _, _, hd, _⟩ => absurd hd.2.1 (by omega)⟩
  | succ levels =>
    exact framed_eq_ok (fields_reads (payload_ends promote levels) (payload_reads promote levels)) h

end Payloads

end Frame

namespace Reader

variable {r : Reader} {d : Document}

theorem readDocument_eq_ok (h : r.limit < r.data.size) :
    r.readDocument.1 = .ok d ↔
      ∃ length es, MeasuresFrame length es.bytes ∧
        Frame.MeansDocument r.promote r.levels es d ∧
        r.position + (enclosed length es.bytes).length ≤ r.limit + 1 ∧
        enclosed length es.bytes <+: r.data.data.toList.drop r.position := by
  have hmap : r.readDocument.1 = .ok d ↔
      ∃ stop, Frame.document r.promote r.levels r.region r.position = .ok (d, stop) := by
    simp only [Reader.readDocument]
    cases Frame.document r.promote r.levels r.region r.position with
    | error e => simp [Except.map]
    | ok p =>
      obtain ⟨d', stop⟩ := p
      simp [Except.map]
  rw [hmap]
  constructor
  · rintro ⟨stop, hd⟩
    obtain ⟨length, es, hm, hp, rfl, hl, hs⟩ := (Frame.document_eq_ok (r := r.region) h).1 hd
    exact ⟨length, es, hm, hp, hl, hs⟩
  · rintro ⟨length, es, hm, hp, hl, hs⟩
    exact ⟨_, (Frame.document_eq_ok (r := r.region) h).2 ⟨length, es, hm, hp, rfl, hl, hs⟩⟩

/-- After a document that could be read the next is looked for where reading it ended. -/
theorem nextPosition_eq {stop : Nat}
    (hd : Frame.document r.promote r.levels r.region r.position = .ok (d, stop)) :
    r.nextPosition = stop := by
  unfold nextPosition
  cases hlevels : r.levels with
  | zero =>
    rw [hlevels] at hd
    exact (throw_eq_ok.1 hd).elim
  | succ levels =>
    rw [hlevels] at hd
    obtain ⟨last, mid, hlast, hd⟩ := bind_eq_ok.1 hd
    obtain ⟨_, _, _, hd⟩ := bind_eq_ok.1 hd
    obtain ⟨_, hplus, hd⟩ := lift_bind_eq_ok.1 hd
    rw [set_bind_eq_ok, pure_eq_ok] at hd
    obtain ⟨-, rfl⟩ := hd
    rw [if_neg (Nat.succ_ne_zero levels), hlast]
    exact (Region.plus_eq_ok.1 hplus).2.symm

/-- A well-formed frame at the position of a reader is read and passed. -/
theorem readDocument_eq (h : r.limit < r.data.size) {length : Int32} {es : Elements}
    (hm : MeasuresFrame length es.bytes) (hd : Frame.MeansDocument r.promote r.levels es d)
    (hfits : r.position + (enclosed length es.bytes).length ≤ r.limit + 1)
    (hstarts : enclosed length es.bytes <+: r.data.data.toList.drop r.position) :
    r.readDocument =
      (.ok d, { r with position := r.position + (enclosed length es.bytes).length }) := by
  have hread := (Frame.document_eq_ok (r := r.region) h).2 ⟨length, es, hm, hd, rfl, hfits, hstarts⟩
  rw [readDocument, hread, nextPosition_eq hread]
  rfl

end Reader

theorem decode_eq_ok {bytes : ByteArray} {options : DecodeOptions} {d : Document} :
    decode bytes options = .ok d ↔ minDocumentSize ≤ bytes.size ∧
      ∃ r, Reader.ofBytes bytes 0 options.promoteLongs = .ok r ∧ r.readDocument.1 = .ok d := by
  unfold decode
  split
  · rename_i hlt
    exact ⟨nofun, fun hd => absurd hlt (Nat.not_lt.2 hd.1)⟩
  · rename_i hge
    change Except.bind _ _ = _ ↔ _
    cases Reader.ofBytes bytes 0 options.promoteLongs with
    | error e => simp [Except.bind]
    | ok r => simpa [Except.bind] using fun _ => Nat.not_lt.1 hge

/-- A document that is decoded is what a well-formed frame stands for that the input starts with. -/
theorem frame_of_decode {bytes : ByteArray} {options : DecodeOptions} {d : Document}
    (h : decode bytes options = .ok d) :
    ∃ length es, MeasuresFrame length es.bytes ∧
      Frame.MeansDocument options.promoteLongs maxDepth es d ∧
      enclosed length es.bytes <+: bytes.data.toList := by
  obtain ⟨-, r, hr, hd⟩ := decode_eq_ok.1 h
  obtain ⟨hstart, -, rfl⟩ := Reader.ofBytes_eq_ok.1 hr
  obtain ⟨length, es, hm, hmeans, -, hstarts⟩ :=
    (Reader.readDocument_eq_ok (show bytes.size - 1 < bytes.size by omega)).1 hd
  exact ⟨length, es, hm, hmeans, hstarts⟩

/-- **Reading accepts the grammar and gives its meaning.** A document is decoded from an input
exactly if the input is long enough, ends in a zero byte and starts with a well-formed frame in
which at most `maxDepth` frames are nested, and the document is the one that the frame stands
for. -/
theorem decode_eq_ok_iff (bytes : ByteArray) (options : DecodeOptions) (d : Document) :
    decode bytes options = .ok d ↔
      minDocumentSize ≤ bytes.size ∧ bytes.data.toList.getLast? = some 0 ∧
        ∃ length fields, (Payload.document length fields).Valid ∧
          (Payload.document length fields).depth ≤ maxDepth ∧
          (Payload.document length fields).bytes <+: bytes.data.toList ∧
          fields.document options.promoteLongs .empty = d := by
  rw [decode_eq_ok, minDocumentSize]
  constructor
  · rintro ⟨hmin, r, hr, hd⟩
    obtain ⟨hstart, hlast, rfl⟩ := Reader.ofBytes_eq_ok.1 hr
    obtain ⟨length, es, hm, ⟨hv, hdepth, hmeaning⟩, -, hstarts⟩ :=
      (Reader.readDocument_eq_ok (show bytes.size - 1 < bytes.size by omega)).1 hd
    exact ⟨hmin, hlast, length, es, ⟨⟨hm, hv.1⟩, hv.2⟩, hdepth, hstarts, hmeaning⟩
  · rintro ⟨hmin, hlast, length, es, hv, hdepth, hstarts, hmeaning⟩
    refine ⟨hmin, _, Reader.ofBytes_eq_ok.2 ⟨by omega, hlast, rfl⟩, ?_⟩
    refine (Reader.readDocument_eq_ok (show bytes.size - 1 < bytes.size by omega)).2 ?_
    have hlen : (enclosed length es.bytes).length ≤ bytes.size := hstarts.length_le
    exact ⟨length, es, hv.1.1, ⟨⟨hv.1.2, hv.2⟩, hdepth, hmeaning⟩,
      show 0 + (enclosed length es.bytes).length ≤ bytes.size - 1 + 1 by omega, hstarts⟩

end Bson
