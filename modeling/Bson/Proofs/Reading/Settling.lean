import Bson.Proofs.Reading.InPlace

/-!
# Reading on until there is no more

A reader that reads one document after another, failed ones among them, keeps its bounds, never goes
back, and moves by a length at least until there is none in front of it; from then on it stays.

* `Reader.Sound`: what holds of a reader after any number of documents.
* `Reader.Sound.advances`, `Reader.Sound.rests`: a document is read with a length in front of the
  reader, and without.
* `Reader.Sound.readsInPlace`: the reader is sound after every document.
* `reading_settles`: all of it, for every input and every number of documents.
-/

namespace Bson

namespace Reader

/-- What holds of a reader over an input: it may read all of the input in front of the last byte,
has no frame open and stands in the input, not before its start. -/
structure Sound (data : ByteArray) (start : Nat) (promote : Bool) (r : Reader) : Prop where
  data_eq : r.data = data
  promote_eq : r.promote = promote
  openFrames_eq : r.openFrames = 0
  limit_eq : r.limit = data.size - 1
  size_pos : 0 < data.size
  start_le : start ≤ r.position
  position_le : r.position ≤ data.size

namespace Sound

variable {data : ByteArray} {start : Nat} {promote : Bool} {r : Reader}

theorem ofBytes (h : Reader.ofBytes data start promote = .ok r) : r.Sound data start promote := by
  obtain ⟨hstart, -, rfl⟩ := ofBytes_eq_ok.1 h
  exact ⟨rfl, rfl, rfl, rfl, Nat.lt_of_le_of_lt (Nat.zero_le _) hstart, Nat.le_refl _,
    Nat.le_of_lt hstart⟩

theorem inInput (h : r.Sound data start promote) : r.InInput where
  limit_lt := by
    rw [h.data_eq, h.limit_eq]
    exact Nat.sub_lt h.size_pos Nat.one_pos
  position_le := by
    rw [h.data_eq]
    exact h.position_le

theorem levels_eq (h : r.Sound data start promote) : r.levels = maxDepth := by
  rw [levels, h.openFrames_eq]
  rfl

/-- A sound reader that moves on in the input is sound. -/
theorem moved (h : r.Sound data start promote) {position : Nat} (hle : r.position ≤ position)
    (hsize : position ≤ data.size) : Sound data start promote { r with position } where
  data_eq := h.data_eq
  promote_eq := h.promote_eq
  openFrames_eq := h.openFrames_eq
  limit_eq := h.limit_eq
  size_pos := h.size_pos
  start_le := Nat.le_trans h.start_le hle
  position_le := hsize

/-! ### One document -/

/-- With a length in front of it a reader moves on behind that, whatever it reads. -/
theorem advances (h : r.Sound data start promote) (hroom : r.position + 4 ≤ r.limit) :
    r.position + 4 ≤ r.readInPlace.2.position ∧ r.readInPlace.2.Sound data start promote := by
  have hlimit := h.inInput.limit_lt
  have hnext : r.position + 4 ≤ r.nextPosition := by
    rw [nextPosition, if_neg (by rw [h.levels_eq]; decide)]
    cases hc : Frame.terminator r.region r.position with
    | ok p =>
      obtain ⟨hmid, hle, -⟩ := (Frame.terminator_ends (r := r.region) hlimit
        h.inInput.position_le).2 p.1 p.2 hc
      change r.position + 4 ≤ p.1 + 1
      omega
    | error e => exact Nat.le_of_eq (if_pos hroom).symm
  have hsize : r.nextPosition ≤ data.size := h.data_eq ▸ h.inInput.nextPosition_le
  rw [readInPlace_eq h.inInput]
  exact ⟨hnext, h.moved (Nat.le_trans (Nat.le_add_right _ _) hnext) hsize⟩

/-- Without a length in front of it a reader reads nothing and stays as it is. -/
theorem rests (h : r.Sound data start promote) (hend : r.limit < r.position + 4) :
    r.readInPlace = (.error (.boundsExceeded r.position (.readPast 4 r.limit)), r) := by
  have hlimit := h.inInput.limit_lt
  have hposition := h.inInput.position_le
  have hterminator : Frame.terminator r.region r.position =
      .error (.boundsExceeded r.position (.readPast 4 r.limit)) := by
    have hlength := (Cursor.int32_eq (r := r.region) hlimit hposition).trans (if_pos hend)
    exact (Cursor.bind_of_ok (Cursor.here_eq (r := r.region) hlimit hposition)).trans
      (Cursor.bind_of_error hlength)
  have hdocument : Frame.document r.promote r.levels r.region r.position =
      .error (.boundsExceeded r.position (.readPast 4 r.limit)) := by
    rw [h.levels_eq]
    exact Cursor.bind_of_error hterminator
  have hnext : r.nextPosition = r.position := by
    rw [nextPosition, if_neg (by rw [h.levels_eq]; decide), hterminator]
    exact if_neg (Nat.not_le.2 hend)
  refine (readInPlace_eq h.inInput).trans (Prod.ext ?_ ?_)
  · exact congrArg (Except.map _) hdocument
  · exact congrArg (fun position => { r with position }) hnext

theorem position_le_readInPlace (h : r.Sound data start promote) :
    r.position ≤ r.readInPlace.2.position := by
  rcases Nat.lt_or_ge r.limit (r.position + 4) with hend | hroom
  · exact Nat.le_of_eq (congrArg (·.2.position) (h.rests hend)).symm
  · exact Nat.le_trans (Nat.le_add_right _ _) (h.advances hroom).1

theorem readInPlace (h : r.Sound data start promote) :
    r.readInPlace.2.Sound data start promote := by
  rcases Nat.lt_or_ge r.limit (r.position + 4) with hend | hroom
  · rw [h.rests hend]
    exact h
  · exact (h.advances hroom).2

/-! ### Many documents -/

/-- A reader stays sound. -/
theorem readsInPlace (h : r.Sound data start promote) (n : Nat) :
    (r.readsInPlace n).Sound data start promote := by
  induction n with
  | zero => exact h
  | succ n ih => exact ih.readInPlace

/-- A reader that has come to rest stays as it is. -/
theorem readsInPlace_of_rests (h : r.Sound data start promote) {n : Nat}
    (hend : (r.readsInPlace n).limit < (r.readsInPlace n).position + 4) {m : Nat} (hm : n ≤ m) :
    r.readsInPlace m = r.readsInPlace n := by
  induction hm with
  | refl => rfl
  | step _ ih =>
    rw [Reader.readsInPlace, ih, (h.readsInPlace n).rests hend]

/-- Until it rests, a reader moves by a length with every document. -/
theorem rests_or_le (h : r.Sound data start promote) (n : Nat) :
    (r.readsInPlace n).limit < (r.readsInPlace n).position + 4 ∨
      4 * n ≤ (r.readsInPlace n).position := by
  induction n with
  | zero => exact .inr (Nat.zero_le _)
  | succ n ih =>
    rcases Nat.lt_or_ge (r.readsInPlace n).limit ((r.readsInPlace n).position + 4) with hend | hroom
    · rw [h.readsInPlace_of_rests hend (Nat.le_succ n)]
      exact .inl hend
    · have hmoved : (r.readsInPlace n).position + 4 ≤ (r.readsInPlace (n + 1)).position :=
        ((h.readsInPlace n).advances hroom).1
      refine .inr ?_
      rcases ih with hend | hle
      · exact absurd hroom (Nat.not_le.2 hend)
      · omega

/-- So it rests after as many documents as there are lengths in the input. -/
theorem rests_of_le (h : r.Sound data start promote) {n : Nat} (hn : data.size / 4 ≤ n) :
    (r.readsInPlace n).limit < (r.readsInPlace n).position + 4 := by
  rcases h.rests_or_le n with hend | hle
  · exact hend
  · rw [(h.readsInPlace n).limit_eq]
    omega

end Sound

end Reader

/-- **Reading on is sound and comes to rest.** From a reader over any input, one document after
another is read in place, failed ones among them. After each of them no frame is open, the limit is
that of the input again, and the reader stands in the input, not before its start and not before
where it stood; and the result is the one that the cursor gives. A reader that does not move has no
length in front of it, and from then on it gives the same error and stays; so it does after as many
documents as there are lengths in the input. -/
theorem reading_settles (data : ByteArray) (start : Nat) (promote : Bool) (r : Reader)
    (hr : Reader.ofBytes data start promote = .ok r) :
    (∀ n, (r.readsInPlace n).Sound data start promote ∧
        (r.readsInPlace n).position ≤ (r.readsInPlace (n + 1)).position ∧
        (r.readsInPlace n).readInPlace = (r.readsInPlace n).readDocument) ∧
      (∀ n, (r.readsInPlace (n + 1)).position = (r.readsInPlace n).position →
        data.size - 1 < (r.readsInPlace n).position + 4 ∧
          ∀ m, n ≤ m → (r.readsInPlace m).readInPlace =
            (.error (.boundsExceeded (r.readsInPlace n).position (.readPast 4 (data.size - 1))),
              r.readsInPlace n)) ∧
      ∀ n, data.size / 4 ≤ n →
        (r.readsInPlace (n + 1)).position = (r.readsInPlace n).position := by
  have h : r.Sound data start promote := .ofBytes hr
  refine ⟨fun n => ?_, fun n hstays => ?_, fun n hn => ?_⟩
  · have hn := h.readsInPlace n
    exact ⟨hn, hn.position_le_readInPlace, Reader.readInPlace_eq hn.inInput⟩
  · have hn := h.readsInPlace n
    rw [← hn.limit_eq]
    rcases Nat.lt_or_ge (r.readsInPlace n).limit ((r.readsInPlace n).position + 4) with hend | hroom
    · refine ⟨hend, fun m hm => ?_⟩
      rw [h.readsInPlace_of_rests hend hm]
      exact hn.rests hend
    · -- with a length in front of it the reader would have moved
      have hmoved : (r.readsInPlace n).position + 4 ≤ (r.readsInPlace (n + 1)).position :=
        (hn.advances hroom).1
      omega
  · rw [h.readsInPlace_of_rests (h.rests_of_le hn) (Nat.le_succ n)]

/-- A frame with an element of an unknown kind. -/
def unknownFrame : ByteArray := ⟨#[8, 0, 0, 0, 99, 0, 0, 0]⟩

/-- It is passed, and its bounds are taken back; behind it there is nothing. -/
theorem reading_settles_unknown :
    Reader.ofBytes unknownFrame 0 true = .ok ⟨unknownFrame, 7, 0, 0, true⟩ ∧
      Reader.readInPlace ⟨unknownFrame, 7, 0, 0, true⟩ =
        (.error (.unknownTag 99 4), ⟨unknownFrame, 7, 8, 0, true⟩) ∧
      ∀ n, 1 ≤ n → (Reader.readsInPlace ⟨unknownFrame, 7, 0, 0, true⟩ n).readInPlace =
        (.error (.boundsExceeded 8 (.readPast 4 7)), ⟨unknownFrame, 7, 8, 0, true⟩) := by
  have hr : Reader.ofBytes unknownFrame 0 true = .ok ⟨unknownFrame, 7, 0, 0, true⟩ := by rfl
  obtain ⟨hsound, hstays, -⟩ := reading_settles unknownFrame 0 true _ hr
  have hread : ∀ position, Reader.Sound unknownFrame 0 true ⟨unknownFrame, 7, position, 0, true⟩ →
      Reader.readInPlace ⟨unknownFrame, 7, position, 0, true⟩ =
        Reader.readDocument ⟨unknownFrame, 7, position, 0, true⟩ :=
    fun _ h => Reader.readInPlace_eq h.inInput
  have hfirst : Reader.readInPlace ⟨unknownFrame, 7, 0, 0, true⟩ =
      (.error (.unknownTag 99 4), ⟨unknownFrame, 7, 8, 0, true⟩) :=
    (hread 0 (hsound 0).1).trans (by rfl)
  have hone : Reader.readsInPlace ⟨unknownFrame, 7, 0, 0, true⟩ 1 = ⟨unknownFrame, 7, 8, 0, true⟩ :=
    congrArg Prod.snd hfirst
  have hsecond : Reader.readInPlace ⟨unknownFrame, 7, 8, 0, true⟩ =
      (.error (.boundsExceeded 8 (.readPast 4 7)), ⟨unknownFrame, 7, 8, 0, true⟩) :=
    (hread 8 (hone ▸ (hsound 1).1)).trans (by rfl)
  have hlater := hstays 1 (by rw [Reader.readsInPlace, hone, hsecond])
  rw [hone] at hlater
  exact ⟨hr, hfirst, hlater.2⟩

end Bson
