import Bson.Proofs.Reading.Settling

/-!
# Reading in two parts

Documents in a row may be read in one go or in two parts, of which the second starts where the first
ended and makes a reader of its own there. Both ways end alike: with the same documents and the same
position, or with errors that agree. They differ in one place only, the end of the input, where a
reader that has come so far misses a length and a new one has nothing to start at.

* `Error.Agree`: errors of one kind with the same data, but for the reason why bounds are left.
* `SameOutcome`: results that are equal, or failures that agree.
* `Reader.readAll_add`: one reader, stopped on the way.
* `Reader.Sound.sameOutcome`: the reader stopped there, and a new one.
* `decodeMany_add`: the statement about `decodeMany`.
-/

namespace Bson

/-- Whether errors are of one kind and hold the same data. Of a read that leaves its bounds only the
offset counts, and not what is wrong there. -/
inductive Error.Agree : Error → Error → Prop
  | refl (e : Error) : Agree e e
  | bounds (offset : Nat) (fault fault' : BoundsFault) :
      Agree (.boundsExceeded offset fault) (.boundsExceeded offset fault')

/-- Whether steps end alike: in the same result, or in errors that agree. -/
inductive SameOutcome {α : Type} : Except Error α → Except Error α → Prop
  | ok (a : α) : SameOutcome (.ok a) (.ok a)
  | error {e e' : Error} (h : e.Agree e') : SameOutcome (.error e) (.error e')

namespace SameOutcome

variable {α β : Type} {x y : Except Error α}

theorem refl (x : Except Error α) : SameOutcome x x := by
  cases x with
  | ok a => exact .ok a
  | error e => exact .error (.refl e)

theorem map (f : α → β) (h : SameOutcome x y) : SameOutcome (x.map f) (y.map f) := by
  cases h with
  | ok a => exact .ok (f a)
  | error he => exact .error he

theorem ok_iff (h : SameOutcome x y) (a : α) : x = .ok a ↔ y = .ok a := by
  cases h with
  | ok b => exact Iff.rfl
  | error _ => exact ⟨nofun, nofun⟩

theorem error_left (h : SameOutcome x y) {e : Error} (he : x = .error e) :
    ∃ e', y = .error e' ∧ e.Agree e' := by
  cases h with
  | ok a => cases he
  | error hagree =>
    cases he
    exact ⟨_, rfl, hagree⟩

theorem error_right (h : SameOutcome x y) {e' : Error} (he : y = .error e') :
    ∃ e, x = .error e ∧ e.Agree e' := by
  cases h with
  | ok a => cases he
  | error hagree =>
    cases he
    exact ⟨_, rfl, hagree⟩

end SameOutcome

/-! ### One reader, stopped on the way -/

namespace Reader

theorem readAll_succ (r : Reader) (n : Nat) :
    r.readAll (n + 1) = r.readDocument.1.bind fun d =>
      (r.readDocument.2.readAll n).map fun p => (d :: p.1, p.2) := rfl

/-- A reader that is stopped goes on as if it had not been. -/
theorem readAll_add (r : Reader) (n m : Nat) :
    r.readAll (n + m) = (r.readAll n).bind fun p =>
      (p.2.readAll m).map fun q => (p.1 ++ q.1, q.2) := by
  induction n generalizing r with
  | zero =>
    rw [Nat.zero_add]
    change _ = (r.readAll m).map fun q => ([] ++ q.1, q.2)
    cases r.readAll m <;> rfl
  | succ n ih =>
    rw [Nat.succ_add, readAll_succ, readAll_succ, ih]
    cases r.readDocument.1 with
    | error e => rfl
    | ok d =>
      change Except.map _ (Except.bind _ _) = Except.bind (Except.map _ _) _
      cases r.readDocument.2.readAll n with
      | error e => rfl
      | ok p =>
        change Except.map _ (Except.map _ _) = Except.map _ _
        cases p.2.readAll m <;> rfl

namespace Sound

variable {data : ByteArray} {start : Nat} {promote : Bool} {r r' : Reader}

/-- A document leaves a reader sound, also where it fails. -/
theorem readDocument (h : r.Sound data start promote) :
    r.readDocument.2.Sound data start promote := by
  rw [← readInPlace_eq h.inInput]
  exact h.readInPlace

/-- Documents that are read are as many as were asked for, and leave a reader sound. -/
theorem readAll (h : r.Sound data start promote) {n : Nat} {documents : List Document}
    (hread : r.readAll n = .ok (documents, r')) :
    documents.length = n ∧ r'.Sound data start promote := by
  induction n generalizing r documents with
  | zero =>
    cases hread
    exact ⟨rfl, h⟩
  | succ n ih =>
    obtain ⟨d, -, hmap⟩ := Error.bind_eq_ok.1 ((readAll_succ r n).symm.trans hread)
    cases hrest : r.readDocument.2.readAll n with
    | error e =>
      rw [hrest] at hmap
      cases hmap
    | ok p =>
      rw [hrest] at hmap
      cases hmap
      obtain ⟨hlength, hsound⟩ := ih h.readDocument hrest
      exact ⟨congrArg (· + 1) hlength, hsound⟩

/-! ### A reader that stands somewhere, and a new one there -/

/-- Before the end of the input a new reader is the one that stands there. -/
theorem ofBytes_position (h : r.Sound data start promote)
    (hlast : data.data.toList.getLast? = some 0) (hlt : r.position < data.size) :
    Reader.ofBytes data r.position promote = .ok r := by
  refine ofBytes_eq_ok.2 ⟨hlt, hlast, ?_⟩
  rw [← h.limit_eq, ← h.data_eq, ← h.promote_eq, ← h.openFrames_eq]

/-- At the end of the input a reader misses a length. -/
theorem readAll_at_end (h : r.Sound data start promote) (hend : r.position = data.size) (n : Nat) :
    r.readAll (n + 1) = .error (.boundsExceeded data.size (.readPast 4 (data.size - 1))) := by
  have hlimit : r.limit < r.position + 4 := by
    rw [h.limit_eq, hend]
    omega
  have hread := h.rests hlimit
  rw [readInPlace_eq h.inInput, hend, h.limit_eq] at hread
  rw [readAll_succ, hread]
  rfl

end Sound

end Reader

/-- At the end of the input no reader can be made. -/
theorem decodeMany_at_end (bytes : ByteArray) (n : Nat) (options : DecodeOptions) :
    decodeMany bytes bytes.size (n + 1) options =
      .error (.boundsExceeded bytes.size (.startBeyond bytes.size)) := by
  have hreader : Reader.ofBytes bytes bytes.size options.promoteLongs =
      .error (.boundsExceeded bytes.size (.startBeyond bytes.size)) := if_pos (Nat.le_refl _)
  rw [decodeMany, if_neg (Nat.succ_ne_zero n), hreader]
  rfl

/-- Some documents are read by a reader that is made for them. -/
theorem decodeMany_succ (bytes : ByteArray) (start n : Nat) (options : DecodeOptions) :
    decodeMany bytes start (n + 1) options =
      (Reader.ofBytes bytes start options.promoteLongs).bind fun r =>
        (r.readAll (n + 1)).map fun p => (p.1, p.2.position) := by
  rw [decodeMany, if_neg (Nat.succ_ne_zero n)]
  rfl

/-- **The seam.** A reader that has come somewhere goes on as documents are decoded from there on,
with a reader of their own. -/
theorem Reader.Sound.sameOutcome {data : ByteArray} {start : Nat} {options : DecodeOptions}
    {r : Reader} (h : r.Sound data start options.promoteLongs)
    (hlast : data.data.toList.getLast? = some 0) (n : Nat) :
    SameOutcome ((r.readAll n).map fun p => (p.1, p.2.position))
      (decodeMany data r.position n options) := by
  cases n with
  | zero => exact .refl _
  | succ n =>
    rcases Nat.lt_or_eq_of_le h.position_le with hlt | hend
    · rw [decodeMany_succ, h.ofBytes_position hlast hlt]
      exact .refl _
    · rw [h.readAll_at_end hend, hend, decodeMany_at_end]
      exact .error (.bounds _ _ _)

/-- Decodes some documents, and then some more from where the first ended. -/
def decodeInTwo (bytes : ByteArray) (start n m : Nat) (options : DecodeOptions) :
    Except Error (List Document × Nat) := do
  let (front, middle) ← decodeMany bytes start n options
  let (back, stop) ← decodeMany bytes middle m options
  return (front ++ back, stop)

theorem decodeInTwo_eq (bytes : ByteArray) (start n m : Nat) (options : DecodeOptions) :
    decodeInTwo bytes start n m options = (decodeMany bytes start n options).bind fun p =>
      (decodeMany bytes p.2 m options).map fun q => (p.1 ++ q.1, q.2) := rfl

/-- Documents in a row end alike in one go and in two parts. -/
theorem decodeMany_sameOutcome (bytes : ByteArray) (start n m : Nat) (options : DecodeOptions) :
    SameOutcome (decodeMany bytes start (n + m) options)
      (decodeInTwo bytes start n m options) := by
  rw [decodeInTwo_eq]
  cases n with
  | zero =>
    -- nothing is read first, not even the start is looked at
    rw [Nat.zero_add]
    change SameOutcome _ ((decodeMany bytes start m options).map fun q => ([] ++ q.1, q.2))
    cases decodeMany bytes start m options <;> exact .refl _
  | succ n =>
    rw [Nat.succ_add, decodeMany_succ, decodeMany_succ]
    cases hr : Reader.ofBytes bytes start options.promoteLongs with
    | error e => exact .refl _
    | ok r =>
      have hsound := Reader.Sound.ofBytes hr
      have hlast := (Reader.ofBytes_eq_ok.1 hr).2.1
      change SameOutcome ((r.readAll (n + m + 1)).map _) (Except.bind (Except.map _ _) _)
      rw [Nat.add_right_comm, Reader.readAll_add]
      cases hfront : r.readAll (n + 1) with
      | error e => exact .refl _
      | ok p =>
        have hseam := ((hsound.readAll hfront).2.sameOutcome hlast m).map
          fun q : List Document × Nat => (p.1 ++ q.1, q.2)
        change SameOutcome (Except.map _ (Except.map _ (p.2.readAll m))) _
        cases hback : p.2.readAll m <;> rw [hback] at hseam <;> exact hseam

theorem decodeInTwo_eq_ok {bytes : ByteArray} {start n m : Nat} {options : DecodeOptions}
    {documents : List Document} {stop : Nat} :
    decodeInTwo bytes start n m options = .ok (documents, stop) ↔
      ∃ front middle back, decodeMany bytes start n options = .ok (front, middle) ∧
        decodeMany bytes middle m options = .ok (back, stop) ∧ documents = front ++ back := by
  constructor
  · intro h
    obtain ⟨⟨front, middle⟩, hfront, h⟩ := Error.bind_eq_ok.1 h
    obtain ⟨⟨back, last⟩, hback, h⟩ := Error.bind_eq_ok.1 h
    cases h
    exact ⟨front, middle, back, hfront, hback, rfl⟩
  · rintro ⟨front, middle, back, hfront, hback, rfl⟩
    rw [decodeInTwo_eq, hfront]
    change Except.map _ (decodeMany bytes middle m options) = _
    rw [hback]
    rfl

/-- Documents that are decoded are as many as were asked for. -/
theorem length_decodeMany {bytes : ByteArray} {start n : Nat} {options : DecodeOptions}
    {documents : List Document} {stop : Nat}
    (h : decodeMany bytes start n options = .ok (documents, stop)) : documents.length = n := by
  cases n with
  | zero =>
    cases h
    rfl
  | succ n =>
    obtain ⟨r, hr, hmap⟩ :=
      Error.bind_eq_ok.1 ((decodeMany_succ bytes start n options).symm.trans h)
    cases hread : r.readAll (n + 1) with
    | error e =>
      rw [hread] at hmap
      cases hmap
    | ok p =>
      rw [hread] at hmap
      cases hmap
      exact ((Reader.Sound.ofBytes hr).readAll hread).1

/-- **Documents in a row may be split anywhere.** From any offset of any input, `n + m` documents
are decoded as some of which `n` come first, and end somewhere, if and only if the first `n` are
decoded alone, and the other `m` from where those end, to the same end. If they cannot be decoded in
one go, they cannot in two parts, and the other way round, with an error of the same kind and the
same data, but for the reason why bounds are left. Any of the numbers may be zero, and the first
documents may end where the input does. -/
theorem decodeMany_add (bytes : ByteArray) (start n m : Nat) (options : DecodeOptions) :
    (∀ front back stop,
      decodeMany bytes start (n + m) options = .ok (front ++ back, stop) ∧ front.length = n ↔
        ∃ middle, decodeMany bytes start n options = .ok (front, middle) ∧
          decodeMany bytes middle m options = .ok (back, stop)) ∧
      (∀ e, decodeMany bytes start (n + m) options = .error e →
        ∃ e', decodeInTwo bytes start n m options = .error e' ∧ e.Agree e') ∧
      ∀ e', decodeInTwo bytes start n m options = .error e' →
        ∃ e, decodeMany bytes start (n + m) options = .error e ∧ e.Agree e' := by
  have hsame := decodeMany_sameOutcome bytes start n m options
  refine ⟨fun front back stop => ?_, fun e he => hsame.error_left he,
    fun e' he => hsame.error_right he⟩
  rw [hsame.ok_iff, decodeInTwo_eq_ok]
  constructor
  · rintro ⟨⟨front', middle, back', hfront, hback, happend⟩, hlength⟩
    obtain ⟨rfl, rfl⟩ := List.append_inj happend (hlength.trans (length_decodeMany hfront).symm)
    exact ⟨middle, hfront, hback⟩
  · rintro ⟨middle, hfront, hback⟩
    exact ⟨⟨front, middle, back, hfront, hback, rfl⟩, length_decodeMany hfront⟩

/-- Two empty documents. -/
def emptyDocuments : ByteArray := ⟨#[5, 0, 0, 0, 0, 5, 0, 0, 0, 0]⟩

/-- They are decoded in one go and in two parts; a third is missed by the reader of the first two
and by one that is made at the end of the input. -/
theorem decodeMany_add_at_end :
    (∃ middle, decodeMany emptyDocuments 0 1 {} = .ok ([.empty], middle) ∧
        decodeMany emptyDocuments middle 1 {} = .ok ([.empty], 10)) ∧
      decodeMany emptyDocuments 0 (2 + 1) {} = .error (.boundsExceeded 10 (.readPast 4 9)) ∧
      decodeMany emptyDocuments 10 1 {} = .error (.boundsExceeded 10 (.startBeyond 10)) ∧
      ∃ e', decodeInTwo emptyDocuments 0 2 1 {} = .error e' ∧
        (Error.boundsExceeded 10 (.readPast 4 9)).Agree e' := by
  have hboth : decodeMany emptyDocuments 0 (1 + 1) {} = .ok ([.empty] ++ [.empty], 10) := by rfl
  have hthird : decodeMany emptyDocuments 0 (2 + 1) {} =
      .error (.boundsExceeded 10 (.readPast 4 9)) := by rfl
  exact ⟨((decodeMany_add emptyDocuments 0 1 1 {}).1 [.empty] [.empty] 10).1 ⟨hboth, rfl⟩, hthird,
    by rfl, (decodeMany_add emptyDocuments 0 2 1 {}).2.1 _ hthird⟩

end Bson
