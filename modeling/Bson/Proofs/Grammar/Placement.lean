import Bson.Proofs.Grammar.Reading
import Mathlib.Order.MinMax

/-!
# Where the items of an array land

An array is read by writing one item after another to the index that its key gives: an item takes
the place of one that is there, and places that are passed over are undefined. What comes of it
depends on no more than the last write to each index.

* `Leaves`: the items that a list of writes leaves.
* `Leaves.placed`: what one more write does. `Leaves.items`: what the elements of a frame do.
* `Leaves.eq_of_perm`: writes to distinct indices leave the same items in any order.
* `array_eq_writes`: the statement about the arrays that are read.
-/

namespace Bson

open Grammar Cursor

namespace Grammar

/-- What the elements of an array write, in the order of the bytes: values to indices. -/
def Elements.writes (promote : Bool) : Elements → List (Nat × Value)
  | .nil => []
  | .cons key p rest => (indexOf key, p.value promote) :: rest.writes promote

/-- The least length that holds every index written to: none without writes, else one more than
the greatest index. -/
def extent (writes : List (Nat × Value)) : Nat := (writes.map Prod.fst).max?.elim 0 (· + 1)

/-- The value that was last written to an index, or undefined. -/
def lastWrite (writes : List (Nat × Value)) (k : Nat) : Value :=
  (writes.reverse.lookup k).getD .undefined

/-- Whether these are the items that writes leave. -/
structure Leaves (writes : List (Nat × Value)) (vs : List Value) : Prop where
  length : vs.length = extent writes
  item : ∀ (k : Nat) (h : k < vs.length), vs[k] = lastWrite writes k

/-! ### One write and many -/

section Writes

variable {writes writes' : List (Nat × Value)} {vs vs' : List Value} {n k : Nat} {v : Value}

theorem lt_extent_iff : k < extent writes ↔ ∃ w ∈ writes, k ≤ w.1 := by
  unfold extent
  cases hmax : (writes.map Prod.fst).max? with
  | none =>
    obtain rfl := List.map_eq_nil_iff.1 (List.max?_eq_none_iff.1 hmax)
    simp
  | some m =>
    obtain ⟨hm, hle⟩ := List.max?_eq_some_iff.1 hmax
    obtain ⟨w, hw, rfl⟩ := List.mem_map.1 hm
    constructor
    · exact fun hk => ⟨w, hw, Nat.le_of_lt_succ hk⟩
    · rintro ⟨u, hu, hk⟩
      exact Nat.lt_succ_of_le (Nat.le_trans hk (hle u.1 (List.mem_map_of_mem hu)))

theorem extent_snoc : extent (writes ++ [(n, v)]) = max (extent writes) (n + 1) := by
  apply eq_of_forall_lt_iff
  intro k
  simp only [lt_extent_iff, lt_max_iff, List.mem_append, List.mem_singleton, or_and_right,
    exists_or, exists_eq_left, Nat.lt_succ_iff]

theorem lastWrite_snoc :
    lastWrite (writes ++ [(n, v)]) k = if k = n then v else lastWrite writes k := by
  rw [lastWrite, List.reverse_append, List.reverse_singleton, List.singleton_append,
    List.lookup_cons]
  split
  · rename_i he
    rw [if_pos (beq_iff_eq.1 he), Option.getD_some]
  · rename_i hne
    rw [if_neg (beq_eq_false_iff_ne.1 hne), lastWrite]

/-- Nothing is written from the extent on. -/
theorem lastWrite_of_extent_le (h : extent writes ≤ k) : lastWrite writes k = .undefined := by
  have hnone : writes.reverse.lookup k = none := by
    rw [List.lookup_eq_none_iff]
    intro w hw
    refine bne_iff_ne.2 ?_
    rintro rfl
    exact absurd (lt_extent_iff.2 ⟨w, List.mem_reverse.1 hw, Nat.le_refl _⟩) (Nat.not_lt.2 h)
  rw [lastWrite, hnone, Option.getD_none]

theorem getElem_placed (h : k < (placed vs n v).length) :
    (placed vs n v)[k] =
      if k = n then v else if h : k < vs.length then vs[k] else .undefined := by
  rw [Frame.length_placed] at h
  unfold placed
  split
  · rw [List.getElem_set]
    grind
  · grind

/-- **One write.** A value that is put at an index is the last that was written to it, and the
other items are as they were. -/
theorem Leaves.placed (h : Leaves writes vs) (n : Nat) (v : Value) :
    Leaves (writes ++ [(n, v)]) (placed vs n v) where
  length := by rw [Frame.length_placed, h.length, extent_snoc]
  item k hk := by
    rw [getElem_placed, lastWrite_snoc]
    split
    · rfl
    · split
      · rename_i hlt
        exact h.item k hlt
      · rename_i hge
        exact (lastWrite_of_extent_le (h.length ▸ Nat.le_of_not_lt hge)).symm

/-- The elements of an array write to what is there one after another. -/
theorem Leaves.items (promote : Bool) : ∀ (es : Elements) {writes : List (Nat × Value)}
    {vs : List Value}, Leaves writes vs →
      Leaves (writes ++ es.writes promote) (es.items promote vs)
  | .nil, writes, vs, h => by rwa [Elements.writes, List.append_nil, Elements.items]
  | .cons key p rest, writes, vs, h => by
    rw [Elements.writes, Elements.items, List.append_cons]
    exact (h.placed (indexOf key) (p.value promote)).items promote rest

theorem Leaves.nil : Leaves [] [] := ⟨rfl, nofun⟩

/-! ### Writes in another order -/

/-- Writes leave one list of items. -/
theorem Leaves.unique (h : Leaves writes vs) (h' : Leaves writes vs') : vs = vs' := by
  apply List.ext_getElem (h.length.trans h'.length.symm)
  intro k hk hk'
  rw [h.item k hk, h'.item k hk']

theorem extent_of_perm (h : writes.Perm writes') : extent writes = extent writes' := by
  apply eq_of_forall_lt_iff
  intro k
  simp only [lt_extent_iff, h.mem_iff]

/-- Of distinct keys each is found in any order. -/
theorem lookup_of_perm (h : writes.Perm writes') (hn : (writes.map Prod.fst).Nodup) :
    writes.lookup k = writes'.lookup k := by
  induction h with
  | nil => rfl
  | cons w _ ih =>
    rw [List.map_cons, List.nodup_cons] at hn
    rw [List.lookup_cons, List.lookup_cons, ih hn.2]
  | swap w u rest =>
    obtain ⟨i, a⟩ := w
    obtain ⟨j, b⟩ := u
    simp only [List.map_cons, List.nodup_cons, List.mem_cons, not_or] at hn
    simp only [List.lookup_cons]
    cases hi : k == i with
    | false => rfl
    | true => rw [beq_iff_eq.1 hi, beq_eq_false_iff_ne.2 (Ne.symm hn.1.1)]
  | trans h _ ih ih' => exact (ih hn).trans (ih' ((h.map Prod.fst).nodup_iff.1 hn))

theorem lastWrite_of_perm (h : writes.Perm writes') (hn : (writes.map Prod.fst).Nodup) :
    lastWrite writes k = lastWrite writes' k := by
  have hreverse := writes.reverse_perm
  have hperm := hreverse.trans (h.trans writes'.reverse_perm.symm)
  rw [lastWrite, lookup_of_perm hperm ((hreverse.map Prod.fst).nodup_iff.2 hn), lastWrite]

/-- Writes to distinct indices leave the same items in any order. -/
theorem Leaves.eq_of_perm (h : Leaves writes vs) (h' : Leaves writes' vs')
    (hperm : writes.Perm writes') (hn : (writes.map Prod.fst).Nodup) : vs = vs' := by
  refine h.unique ⟨?_, fun k hk => ?_⟩
  · rw [h'.length, extent_of_perm hperm]
  · rw [h'.item k hk, lastWrite_of_perm hperm hn]

end Writes

end Grammar

/-! ### Arrays that are read -/

namespace Frame

variable {promote : Bool} {levels : Nat} {r : Region} {start stop : Nat} {v : Value}
  {es : Elements}

/-- Whether a well-formed array frame with these elements stands in an input, from one offset to
another. -/
def HoldsArray (data : ByteArray) (start stop : Nat) (es : Elements) : Prop :=
  ∃ length, (Payload.array length es).Valid ∧
    stop = start + (Payload.array length es).bytes.length ∧
      (Payload.array length es).bytes <+: data.data.toList.drop start

/-- Nothing is read unless the terminator in force lies in the input. -/
theorem limit_lt_of_array (hv : payload promote levels r .array start = .ok (v, stop)) :
    r.limit < r.data.size := by
  cases levels with
  | zero =>
    obtain ⟨vs, hm, -⟩ := map_eq_ok.1 hv
    exact (throw_eq_ok.1 hm).elim
  | succ levels =>
    obtain ⟨vs, hm, -⟩ := map_eq_ok.1 hv
    obtain ⟨last, mid, hterm, -⟩ := bind_eq_ok.1 hm
    exact (here_bind_eq_ok.1 hterm).1.1

/-- An array is read as a frame that may end in the terminator in force, as a document is. -/
theorem array_means (h : r.limit < r.data.size) :
    payload promote levels r .array start = .ok (v, stop) ↔
      ∃ vs, (∃ length es, MeasuresFrame length es.bytes ∧ MeansArray promote levels es vs ∧
        ({ r with limit := r.limit + 1 } : Region).Spans start stop (enclosed length es.bytes)) ∧
          v = .array vs := by
  cases levels with
  | zero =>
    refine map_eq_ok.trans (exists_congr fun vs => and_congr_left fun _ => ?_)
    exact ⟨fun he => (throw_eq_ok.1 he).elim,
      fun ⟨_, _, _, hd, _⟩ => absurd hd.2.2.1 (Nat.not_lt_zero _)⟩
  | succ levels =>
    refine map_eq_ok.trans (exists_congr fun vs => and_congr_left fun _ => ?_)
    exact framed_eq_ok (items_reads (payload_ends promote levels) (payload_reads promote levels)) h

/-- An array is read where a well-formed frame stands. -/
theorem array_eq_ok (h : r.limit < r.data.size) :
    payload promote levels r .array start = .ok (v, stop) ↔
      stop ≤ r.limit + 1 ∧ ∃ es, HoldsArray r.data start stop es ∧ es.depth < levels ∧
        v = .array (es.items promote []) := by
  rw [array_means h]
  constructor
  · rintro ⟨vs, ⟨length, es, hm, ⟨hv, hi, hd, rfl⟩, hs⟩, rfl⟩
    exact ⟨hs.2.1, es, ⟨length, ⟨⟨hm, hv.1⟩, hv.2, hi⟩, hs.1, hs.2.2⟩, hd, rfl⟩
  · rintro ⟨hstop, es, ⟨length, hv, hend, hstarts⟩, hd, rfl⟩
    exact ⟨_, ⟨length, es, hv.1.1, ⟨⟨hv.1.2, hv.2.1⟩, hv.2.2, hd, rfl⟩, hend, hstop, hstarts⟩,
      rfl⟩

/-- An array that is read is the one that the frame there stands for. -/
theorem eq_of_holdsArray (hv : payload promote levels r .array start = .ok (v, stop))
    (hes : HoldsArray r.data start stop es) : v = .array (es.items promote []) := by
  have h := limit_lt_of_array hv
  obtain ⟨hstop, es', hes', hdepth, hitems⟩ := (array_eq_ok h).1 hv
  -- with enough frames to open both readings of the bytes are what is read
  have hread : payload promote (max levels (es.depth + 1)) r .array start = .ok (v, stop) :=
    (array_eq_ok h).2 ⟨hstop, es', hes', by omega, hitems⟩
  have hread' : payload promote (max levels (es.depth + 1)) r .array start =
      .ok (.array (es.items promote []), stop) :=
    (array_eq_ok h).2 ⟨hstop, es, hes, by omega, rfl⟩
  rw [hread] at hread'
  exact congrArg Prod.fst (Except.ok.inj hread')

end Frame

/-- **Items land where their keys say, in whatever order they come.** Whenever an array is read,
whatever number of frames may be opened and whatever the window, a well-formed array frame stands
there, and the items of the array are those that its elements leave: none if there are no elements
and otherwise one more than the greatest index, at each index the value of the last element with
that index, or undefined if there is none. Two arrays that are read from frames with the same
elements in another order are equal, if no index occurs twice. -/
theorem array_eq_writes :
    (∀ {promote : Bool} {levels : Nat} {r : Region} {start stop : Nat} {v : Value},
      Frame.payload promote levels r .array start = .ok (v, stop) →
        (∃ es, Frame.HoldsArray r.data start stop es) ∧
        ∀ es, Frame.HoldsArray r.data start stop es →
          ∃ vs, v = .array vs ∧ Leaves (es.writes promote) vs) ∧
    ∀ {promote promote' : Bool} {levels levels' : Nat} {r r' : Region}
      {start stop start' stop' : Nat} {v v' : Value} {es es' : Elements},
      Frame.payload promote levels r .array start = .ok (v, stop) →
      Frame.payload promote' levels' r' .array start' = .ok (v', stop') →
      Frame.HoldsArray r.data start stop es → Frame.HoldsArray r'.data start' stop' es' →
      (es.writes promote).Perm (es'.writes promote') →
      ((es.writes promote).map Prod.fst).Nodup → v = v' := by
  have hleaves : ∀ (promote : Bool) (es : Elements),
      Leaves (es.writes promote) (es.items promote []) := by
    intro promote es
    have h := Leaves.nil.items promote es
    rwa [List.nil_append] at h
  constructor
  · intro promote levels r start stop v hv
    obtain ⟨-, es, hes, -, -⟩ := (Frame.array_eq_ok (Frame.limit_lt_of_array hv)).1 hv
    exact ⟨⟨es, hes⟩, fun es hes => ⟨_, Frame.eq_of_holdsArray hv hes, hleaves promote es⟩⟩
  · intro promote promote' levels levels' r r' start stop start' stop' v v' es es' hv hv' hes hes'
      hperm hn
    rw [Frame.eq_of_holdsArray hv hes, Frame.eq_of_holdsArray hv' hes',
      (hleaves promote es).eq_of_perm (hleaves promote' es') hperm hn]

/-- An array whose last item comes first and again at the end, whose first item has a leading zero
in its key, and whose second is passed over. -/
def scatteredArray : ByteArray := ⟨#[17, 0, 0, 0, 8, 50, 0, 1, 8, 48, 48, 0, 0, 10, 50, 0, 0]⟩

/-- Its elements. -/
def scatteredElements : Elements :=
  .cons "2" (.boolean 1) (.cons "00" (.boolean 0) (.cons "2" .null .nil))

/-- An array of two items, the second in front. -/
def swappedArray : ByteArray := ⟨#[13, 0, 0, 0, 8, 49, 0, 1, 8, 48, 0, 0, 0]⟩

/-- The same two items in their order. -/
def sortedArray : ByteArray := ⟨#[14, 0, 0, 0, 8, 48, 0, 0, 8, 48, 49, 0, 1, 0]⟩

/-- The arrays are read, the first to what its three writes leave, the others to one array. -/
theorem array_eq_writes_scattered :
    Frame.payload true 1 ⟨scatteredArray, 16⟩ .array 0 =
        .ok (.array [.boolean false, .undefined, .null], 17) ∧
      Leaves [(2, .boolean true), (0, .boolean false), (2, .null)]
        [.boolean false, .undefined, .null] ∧
      Frame.payload true 1 ⟨sortedArray, 13⟩ .array 0 =
        .ok (.array [.boolean false, .boolean true], 14) ∧
      Frame.payload false 2 ⟨swappedArray, 12⟩ .array 0 =
        .ok (.array [.boolean false, .boolean true], 13) := by
  obtain ⟨clean0, index0⟩ := Frame.indexKey "0" 0 rfl
  obtain ⟨clean00, index00⟩ := Frame.indexKey "00" 0 rfl
  obtain ⟨clean01, index01⟩ := Frame.indexKey "01" 1 rfl
  obtain ⟨clean1, index1⟩ := Frame.indexKey "1" 1 rfl
  obtain ⟨clean2, index2⟩ := Frame.indexKey "2" 2 rfl
  have holds : Frame.HoldsArray scatteredArray 0 17 scatteredElements := by
    refine ⟨17, ⟨⟨rfl, trivial, trivial, trivial, trivial⟩, ?_, ?_⟩, rfl, by decide⟩
    · exact ⟨clean2, trivial, clean00, trivial, clean2, trivial, trivial⟩
    · exact ⟨index2, by decide, index00, by decide, index2, by decide, trivial⟩
  have holdsSorted : Frame.HoldsArray sortedArray 0 14
      (.cons "0" (.boolean 0) (.cons "01" (.boolean 1) .nil)) := by
    refine ⟨14, ⟨⟨rfl, trivial, trivial, trivial⟩, ?_, ?_⟩, rfl, by decide⟩
    · exact ⟨clean0, trivial, clean01, trivial, trivial⟩
    · exact ⟨index0, by decide, index01, by decide, trivial⟩
  have holdsSwapped : Frame.HoldsArray swappedArray 0 13
      (.cons "1" (.boolean 1) (.cons "0" (.boolean 0) .nil)) := by
    refine ⟨13, ⟨⟨rfl, trivial, trivial, trivial⟩, ?_, ?_⟩, rfl, by decide⟩
    · exact ⟨clean1, trivial, clean0, trivial, trivial⟩
    · exact ⟨index1, by decide, index0, by decide, trivial⟩
  have hread : Frame.payload true 1 ⟨scatteredArray, 16⟩ .array 0 =
      .ok (.array [.boolean false, .undefined, .null], 17) := by rfl
  have hsorted : Frame.payload true 1 ⟨sortedArray, 13⟩ .array 0 =
      .ok (.array [.boolean false, .boolean true], 14) := by rfl
  obtain ⟨v, hswapped⟩ : ∃ v, Frame.payload false 2 ⟨swappedArray, 12⟩ .array 0 = .ok (v, 13) :=
    ⟨_, rfl⟩
  obtain ⟨vs, hvs, hleaves⟩ := (array_eq_writes.1 hread).2 _ holds
  have heq := array_eq_writes.2 hsorted hswapped holdsSorted holdsSwapped
    (List.Perm.swap _ _ []) (by decide)
  cases hvs
  cases heq
  exact ⟨hread, hleaves, hsorted, hswapped⟩

end Bson
