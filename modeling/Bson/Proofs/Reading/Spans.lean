import Bson.Proofs.Grammar.Basic
import Bson.Proofs.Reading.Bounds

/-!
# What the steps of a cursor read

`Region.Spans start stop l` says that the bytes from `start` to `stop` are `l` and lie before the
terminator. Each step of a cursor succeeds exactly where the bytes of its result are spanned, so a
sequence of steps succeeds exactly where the bytes of the results, put one after another, are.
-/

namespace Bson

open Grammar

namespace Region

variable {r : Region} {start mid stop : Nat} {l m : List UInt8}

/-- The bytes from one offset to another, all of them before the terminator. -/
def Spans (r : Region) (start stop : Nat) (l : List UInt8) : Prop :=
  stop = start + l.length ∧ stop ≤ r.limit ∧ l <+: r.data.data.toList.drop start

theorem spans_nil : r.Spans start stop [] ↔ stop = start ∧ stop ≤ r.limit := by
  simp [Spans]

theorem spans_append :
    r.Spans start stop (l ++ m) ↔ ∃ mid, r.Spans start mid l ∧ r.Spans mid stop m := by
  constructor
  · rintro ⟨hs, hl, t, ht⟩
    rw [List.length_append] at hs
    refine ⟨start + l.length, ⟨rfl, by omega, m ++ t, by rw [← ht, List.append_assoc]⟩,
      by omega, hl, t, ?_⟩
    rw [← List.drop_drop, ← ht, List.append_assoc, List.drop_left]
  · rintro ⟨_, ⟨rfl, _, t, ht⟩, hs, hl, u, hu⟩
    rw [← List.drop_drop, ← ht, List.drop_left] at hu
    exact ⟨by rw [List.length_append]; omega, hl, u, by rw [← ht, ← hu, List.append_assoc]⟩

theorem spans_cons {b : UInt8} :
    r.Spans start stop (b :: m) ↔ ∃ mid, r.Spans start mid [b] ∧ r.Spans mid stop m :=
  spans_append (l := [b])

theorem Spans.le (h : r.Spans start stop l) : start ≤ stop := by
  have := h.1
  omega

/-- A narrower window with the same input spans the same bytes, if they fit. -/
theorem Spans.narrow (h : r.Spans start stop l) {limit : Nat} (hl : stop ≤ limit) :
    ({ r with limit } : Region).Spans start stop l := ⟨h.1, hl, h.2.2⟩

theorem slice_eq_ok {b : ByteArray} :
    r.slice start stop = .ok b ↔
      stop = start + b.size ∧ stop ≤ r.data.size ∧
        b.data.toList <+: r.data.data.toList.drop start := by
  have hlist : (r.data.extract start stop).data.toList =
      (r.data.data.toList.drop start).take (stop - start) := by simp
  unfold slice checkRange
  split
  · rename_i h
    change Except.ok (r.data.extract start stop) = _ ↔ _
    rw [Except.ok.injEq]
    constructor
    · rintro rfl
      refine ⟨?_, h.2, hlist ▸ List.take_prefix _ _⟩
      rw [ByteArray.size_extract]
      omega
    · rintro ⟨hs, _, hp⟩
      apply ByteArray.ext
      apply Array.toList_inj.1
      rw [hlist, hs, Nat.add_sub_cancel_left]
      exact (List.prefix_iff_eq_take.1 hp).symm
  · rename_i h
    exact ⟨nofun, fun ⟨h₁, h₂, _⟩ => absurd ⟨by omega, h₂⟩ h⟩

theorem plus_eq_ok {a b n : Nat} : r.plus a b = .ok n ↔ a + b ≤ r.data.size ∧ n = a + b := by
  unfold plus
  split <;> simp [*, eq_comm]

theorem byteAt_eq_ok {b : UInt8} : r.byteAt start = .ok b ↔ r.data.data.toList[start]? = some b := by
  unfold byteAt
  split
  · rename_i h
    have : r.data.data.toList[start]? = some r.data[start] := by
      rw [Array.getElem?_toList]
      exact Array.getElem?_eq_getElem h
    simp [this]
  · rename_i h
    have : r.data.data.toList[start]? = none := by
      rw [Array.getElem?_toList]
      exact Array.getElem?_eq_none (Nat.le_of_not_lt h)
    simp [this]

theorem spans_singleton {b : UInt8} :
    r.Spans start stop [b] ↔
      stop = start + 1 ∧ stop ≤ r.limit ∧ r.data.data.toList[start]? = some b := by
  rw [Spans, List.length_singleton, ← List.head?_drop]
  cases r.data.data.toList.drop start <;> simp [eq_comm]

end Region

theorem minus_eq_ok {a b n : Nat} : minus a b = .ok n ↔ b ≤ a ∧ n = a - b := by
  unfold minus
  split <;> simp [*, eq_comm]

theorem append_singleton_prefix {α : Type} {l m : List α} {a : α} :
    l ++ [a] <+: m ↔ l <+: m ∧ m[l.length]? = some a := by
  constructor
  · rintro ⟨t, rfl⟩
    simp
  · rintro ⟨⟨t, rfl⟩, ha⟩
    rw [List.getElem?_append_right (Nat.le_refl _), Nat.sub_self] at ha
    cases t with
    | nil => cases ha
    | cons b t =>
      cases ha
      exact ⟨t, by simp⟩

namespace Cursor

variable {r : Region} {pos stop : Nat}

@[simp] theorem here_bind_eq_ok {β : Type} {f : Nat → Cursor β} {b : β} :
    (here r >>= f) pos = .ok (b, stop) ↔
      (r.limit < r.data.size ∧ pos ≤ r.data.size) ∧ f pos pos = .ok (b, stop) := by
  by_cases h : r.limit < r.data.size ∧ pos ≤ r.data.size
  · simp [here_eq h.1 h.2, h, and_assoc]
  · have : here r pos = .error (.reader (.misplaced pos r.limit)) := by
      change (if _ then _ else _ : Cursor Nat) pos = _
      rw [if_neg h]
      rfl
    simp [this, h]

theorem take_eq_ok (h : r.limit < r.data.size) {n : Nat} {b : ByteArray} :
    take r n pos = .ok (b, stop) ↔ b.size = n ∧ r.Spans pos stop b.data.toList := by
  simp only [take, here_bind_eq_ok, guard_eq_ok, lift_bind_eq_ok, set_bind_eq_ok, lift_eq_ok,
    Region.plus_eq_ok, Region.slice_eq_ok, Region.Spans, length_toList_data]
  constructor
  · rintro ⟨_, hle, _, ⟨_, rfl⟩, ⟨hs, _, hp⟩, rfl⟩
    exact ⟨by omega, by omega, by omega, hp⟩
  · rintro ⟨rfl, hs, hl, hp⟩
    exact ⟨⟨h, by omega⟩, by omega, _, ⟨by omega, rfl⟩, ⟨rfl, by omega, hp⟩, hs⟩

/-- The bytes that stand at a cursor are taken from there. -/
theorem take_of_spans (h : r.limit < r.data.size) {n : Nat} {l : List UInt8} (hn : l.length = n)
    (hs : r.Spans pos stop l) : take r n pos = .ok (l.toByteArray, stop) := by
  refine (take_eq_ok h).2 ⟨?_, ?_⟩
  · rw [List.size_toByteArray, hn]
  · rwa [List.toList_data_toByteArray]

/-- A field of fixed width, given that reading and writing it are inverse. -/
theorem field_eq_ok {α : Type} {width : Nat} (read : ByteArray → α) (write : α → ByteArray)
    (hsize : ∀ a, (write a).size = width) (hread : ∀ a, read (write a) = a)
    (hwrite : ∀ {b}, b.size = width → write (read b) = b) (h : r.limit < r.data.size) {a : α} :
    (do return read (← take r width) : Cursor α) pos = .ok (a, stop) ↔
      r.Spans pos stop (write a).data.toList := by
  simp only [bind_eq_ok, take_eq_ok h, pure_eq_ok]
  constructor
  · rintro ⟨b, _, ⟨hb, hs⟩, rfl, rfl⟩
    rwa [hwrite hb]
  · intro hs
    exact ⟨write a, stop, ⟨hsize a, hs⟩, (hread a).symm, rfl⟩

theorem int32_eq_ok (h : r.limit < r.data.size) {n : Int32} :
    int32 r pos = .ok (n, stop) ↔ r.Spans pos stop (Grammar.int32 n) := by
  rw [← toList_ofInt32]
  exact field_eq_ok _ _ LittleEndian.size_ofInt32 LittleEndian.toInt32_ofInt32
    LittleEndian.ofInt32_toInt32 h

theorem int64_eq_ok (h : r.limit < r.data.size) {n : Int64} :
    int64 r pos = .ok (n, stop) ↔ r.Spans pos stop (Grammar.int64 n) := by
  rw [← toList_ofInt64]
  exact field_eq_ok _ _ LittleEndian.size_ofInt64 LittleEndian.toInt64_ofInt64
    LittleEndian.ofInt64_toInt64 h

theorem double_eq_ok (h : r.limit < r.data.size) {x : Double} :
    double r pos = .ok (x, stop) ↔ r.Spans pos stop (Grammar.double x) := by
  rw [← toList_ofUInt64]
  exact field_eq_ok (fun b => Double.mk (LittleEndian.toUInt64 b))
    (fun x => LittleEndian.ofUInt64 x.bits)
    (fun _ => LittleEndian.size_ofUInt64 _)
    (fun x => congrArg Double.mk (LittleEndian.toUInt64_ofUInt64 x.bits))
    LittleEndian.ofUInt64_toUInt64 h

theorem byte_eq_ok (h : r.limit < r.data.size) {b : UInt8} :
    byte r pos = .ok (b, stop) ↔ r.Spans pos stop [b] := by
  rw [byte, here_bind_eq_ok]
  simp only [bind_eq_ok, take_eq_ok h, lift_eq_ok, Region.byteAt_eq_ok, Region.spans_singleton]
  constructor
  · rintro ⟨_, bytes, mid, ⟨hb, hs, hl, _⟩, hget, rfl⟩
    have hlen := length_toList_data bytes
    exact ⟨by omega, hl, hget⟩
  · rintro ⟨hs, hl, hget⟩
    refine ⟨⟨h, by omega⟩, [b].toByteArray, stop, ⟨rfl, ?_⟩, hget, rfl⟩
    rw [List.toList_data_toByteArray]
    exact Region.spans_singleton.2 ⟨hs, hl, hget⟩

theorem utf8_eq_ok {bytes : ByteArray} {offset : Nat} {s : String} :
    utf8 bytes offset = .ok s ↔ bytes = s.toUTF8 := by
  unfold utf8
  split
  · rename_i hv
    refine ⟨fun hs => by cases hs; rfl, fun hb => ?_⟩
    subst hb
    rfl
  · rename_i hv
    constructor
    · intro hs
      cases hs
    · rintro rfl
      exact absurd s.isValidUTF8 hv

/-- The bytes between two offsets as a text. -/
theorem text_eq_ok {start last offset : Nat} {s : String} :
    (do utf8 (← r.slice start last) offset : Cursor String) pos = .ok (s, stop) ↔
      (last = start + (Grammar.utf8 s).length ∧ last ≤ r.data.size ∧
        Grammar.utf8 s <+: r.data.data.toList.drop start) ∧ stop = pos := by
  rw [lift_bind_eq_ok]
  simp only [lift_eq_ok, utf8_eq_ok, length_utf8]
  constructor
  · rintro ⟨_, hs, rfl, rfl⟩
    exact ⟨Region.slice_eq_ok.1 hs, rfl⟩
  · rintro ⟨hs, rfl⟩
    exact ⟨s.toUTF8, Region.slice_eq_ok.2 hs, rfl, rfl⟩

theorem findZero?_succ {start count : Nat} {b : UInt8}
    (hb : r.data.data.toList[start]? = some b) :
    r.findZero? start (count + 1) = if b = 0 then some start else r.findZero? (start + 1) count := by
  rw [Region.findZero?, Region.byteAt_eq_ok.2 hb]
  by_cases hz : b = 0
  · subst hz
    rfl
  · rw [if_neg hz]
    split
    · rename_i hm
      cases hm
      exact absurd rfl hz
    · rfl

/-- The first zero byte stands behind bytes that are not zero. -/
theorem findZero?_eq_some {start count last : Nat} (hc : start + count ≤ r.data.size) :
    r.findZero? start count = some last ↔
      ∃ l : List UInt8, 0 ∉ l ∧ last = start + l.length ∧ l.length < count ∧
        l ++ [0] <+: r.data.data.toList.drop start := by
  induction count generalizing start with
  | zero => simp [Region.findZero?]
  | succ count ih =>
    have hlt : start < r.data.data.toList.length := by
      change start < r.data.size
      omega
    rw [findZero?_succ (List.getElem?_eq_getElem hlt), List.drop_eq_getElem_cons hlt]
    generalize r.data.data.toList[start] = b
    -- the first byte is the zero, or the search goes on behind it
    split
    · rename_i hz
      subst hz
      refine ⟨fun he => ⟨[], by simp, by cases he; rfl, by simp, by simp⟩, ?_⟩
      rintro ⟨l, hl, rfl, _, hp⟩
      cases l with
      | nil => rfl
      | cons x l =>
        rw [List.cons_append, List.cons_prefix_cons] at hp
        simp [hp.1] at hl
    · rename_i hz
      rw [ih (by omega)]
      constructor
      · rintro ⟨l, hl, rfl, hlen, hp⟩
        refine ⟨b :: l, ?_, by rw [List.length_cons]; omega, by rw [List.length_cons]; omega, ?_⟩
        · simpa [eq_comm] using ⟨hz, hl⟩
        · rw [List.cons_append, List.cons_prefix_cons]
          exact ⟨rfl, hp⟩
      · rintro ⟨l, hl, rfl, hlen, hp⟩
        cases l with
        | nil => exact absurd (List.cons_prefix_cons.1 hp).1.symm hz
        | cons x l =>
          rw [List.cons_append, List.cons_prefix_cons] at hp
          rw [List.length_cons] at hlen ⊢
          exact ⟨l, fun hm => hl (List.mem_cons_of_mem _ hm), by omega, by omega, hp.2⟩

/-- A text that a zero byte ends may start anywhere up to the terminator. -/
theorem cstring_eq_ok (h : r.limit < r.data.size) {s : String} :
    cstring r pos = .ok (s, stop) ↔ NulFree s ∧ r.Spans pos stop (Grammar.cstring s) := by
  have hlen := length_cstring s
  rw [cstring, here_bind_eq_ok, lift_bind_eq_ok]
  constructor
  · rintro ⟨_, _, hr, hm⟩
    have hle := (Region.checkRange_eq_ok.1 hr).1
    cases hf : r.findZero? pos (r.limit - pos) with
    | none =>
      rw [hf] at hm
      exact (throw_eq_ok.1 hm).elim
    | some last =>
      rw [hf] at hm
      obtain ⟨l, hl, rfl, hlt, hp⟩ := (findZero?_eq_some (by omega)).1 hf
      obtain ⟨_, hplus, hm⟩ := lift_bind_eq_ok.1 hm
      obtain ⟨_, rfl⟩ := Region.plus_eq_ok.1 hplus
      obtain ⟨bytes, _, ht, hm⟩ := bind_eq_ok.1 hm
      obtain ⟨⟨hsl, _, hps⟩, rfl⟩ := text_eq_ok.1 hm
      obtain ⟨hb, hst, hll, _⟩ := (take_eq_ok h).1 ht
      rw [length_toList_data] at hst
      -- the text and the bytes before the zero byte are as long and stand in the same place
      have heq : (Grammar.utf8 s).length = l.length := by omega
      have hle := List.prefix_of_prefix_length_le hps ((List.prefix_append l [0]).trans hp)
        (Nat.le_of_eq heq)
      obtain rfl : Grammar.utf8 s = l := hle.eq_of_length heq
      exact ⟨hl, by omega, hll, hp⟩
  · rintro ⟨hn, hs, hl, hp⟩
    rw [hlen] at hs
    refine ⟨⟨h, by omega⟩, ⟨⟩, Region.checkRange_eq_ok.2 ⟨by omega, by omega⟩, ?_⟩
    have hf : r.findZero? pos (r.limit - pos) = some (pos + (Grammar.utf8 s).length) :=
      (findZero?_eq_some (by omega)).2 ⟨Grammar.utf8 s, hn, rfl, by omega, hp⟩
    rw [hf]
    refine lift_bind_eq_ok.2 ⟨_, Region.plus_eq_ok.2 ⟨by omega, rfl⟩, ?_⟩
    refine bind_eq_ok.2 ⟨_, stop, take_of_spans h ?_ ⟨?_, hl, hp⟩, ?_⟩
    · rw [hlen]
      omega
    · omega
    · exact text_eq_ok.2 ⟨⟨rfl, by omega, (List.prefix_append _ [0]).trans hp⟩, rfl⟩

/-- A text with its length in front. -/
theorem string_eq_ok (h : r.limit < r.data.size) {s : String} :
    string r pos = .ok (s, stop) ↔
      ∃ length, MeasuresText length s ∧ r.Spans pos stop (enclosed length (Grammar.utf8 s)) := by
  rw [string, here_bind_eq_ok]
  simp only [enclosed, Region.spans_append (l := Grammar.int32 _), ← int32_eq_ok h, MeasuresText]
  constructor
  · rintro ⟨_, hm⟩
    obtain ⟨length, mid, hn, hm⟩ := bind_eq_ok.1 hm
    obtain ⟨hpos, hm⟩ := guard_eq_ok.1 hm
    obtain ⟨_, hm⟩ := here_bind_eq_ok.1 hm
    obtain ⟨bytes, _, ht, hm⟩ := bind_eq_ok.1 hm
    obtain ⟨_, hk, hm⟩ := lift_bind_eq_ok.1 hm
    obtain ⟨_, rfl⟩ := minus_eq_ok.1 hk
    obtain ⟨last, hb, hm⟩ := lift_bind_eq_ok.1 hm
    obtain ⟨hz, hm⟩ := guard_eq_ok.1 hm
    obtain ⟨⟨hsl, _, hps⟩, rfl⟩ := text_eq_ok.1 hm
    obtain ⟨hbs, hst, hll, _⟩ := (take_eq_ok h).1 ht
    rw [length_toList_data] at hst
    obtain rfl := Decidable.of_not_not hz
    have hget := Region.byteAt_eq_ok.1 hb
    -- the zero that was looked up is the last byte that the length counts
    have hzero : (r.data.data.toList.drop mid)[(Grammar.utf8 s).length]? = some 0 := by
      rw [List.getElem?_drop, ← hget]
      congr 1
      omega
    refine ⟨length, by omega, mid, hn, ?_, hll, append_singleton_prefix.2 ⟨hps, hzero⟩⟩
    rw [List.length_append, List.length_singleton]
    omega
  · rintro ⟨length, hm, mid, hn, hst, hl, hp⟩
    have hn' := ((int32_eq_ok h).1 hn).1
    have hlen : (Grammar.utf8 s ++ [0]).length = (Grammar.utf8 s).length + 1 := length_cstring s
    refine ⟨⟨h, by omega⟩, bind_eq_ok.2 ⟨length, mid, hn, guard_eq_ok.2 ⟨by omega, ?_⟩⟩⟩
    refine here_bind_eq_ok.2 ⟨⟨h, by omega⟩, ?_⟩
    refine bind_eq_ok.2 ⟨_, stop, take_of_spans h ?_ ⟨hst, hl, hp⟩, ?_⟩
    · rw [hlen]
      omega
    · obtain ⟨hps, hzero⟩ := append_singleton_prefix.1 hp
      rw [List.getElem?_drop] at hzero
      refine lift_bind_eq_ok.2 ⟨_, minus_eq_ok.2 ⟨by omega, rfl⟩, ?_⟩
      have hat : mid + (length.toInt.toNat - 1) = mid + (Grammar.utf8 s).length := by omega
      rw [hat]
      refine lift_bind_eq_ok.2 ⟨0, Region.byteAt_eq_ok.2 hzero, guard_eq_ok.2 ⟨by decide, ?_⟩⟩
      exact text_eq_ok.2 ⟨⟨rfl, by omega, hps⟩, rfl⟩

end Cursor

end Bson
