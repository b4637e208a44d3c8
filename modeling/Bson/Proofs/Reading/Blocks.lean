import Bson.Proofs.Reading.Locality

/-!
# Blocks in a row

A block is a length, any bytes and a zero byte, such that the length is that of the block. Blocks
that stand one after another behind other bytes are read as if each stood alone: what is in one
block, be it sound or not, has no influence on how the others are read, and the errors of a block
are those that it has alone, with their offsets moved by its place.

* `IsBlock`: a block; its content may be anything.
* `joined`: blocks one after another behind other bytes.
* `Reader.readDocument_block`: one block, read from an input in which it stands.
* `blocks_isolate`: all of them, for reading that goes on after failures and for `decodeMany`.
-/

namespace Bson

/-- A block: its own length, any bytes and a zero byte. -/
structure IsBlock (b : ByteArray) : Prop where
  le_size : minDocumentSize ≤ b.size
  length_eq : LittleEndian.value (b.data.toList.take 4) = b.size
  last_eq : b.data.toList.getLast? = some 0

/-- Blocks one after another behind other bytes. -/
def joined (front : ByteArray) (blocks : List ByteArray) : ByteArray := blocks.foldl (· ++ ·) front

theorem prefix_joined (front : ByteArray) (blocks : List ByteArray) :
    front.data.toList <+: (joined front blocks).data.toList := by
  induction blocks generalizing front with
  | nil => exact List.prefix_refl _
  | cons b rest ih =>
    refine .trans ?_ (ih (front ++ b))
    rw [ByteArray.data_append, Array.toList_append]
    exact List.prefix_append _ _

/-- A block stands behind what is in front of it. -/
theorem block_stands (front b : ByteArray) (rest : List ByteArray) :
    b.data.toList <+: (joined front (b :: rest)).data.toList.drop front.size := by
  obtain ⟨t, ht⟩ := prefix_joined (front ++ b) rest
  rw [ByteArray.data_append, Array.toList_append, List.append_assoc] at ht
  change _ <+: (joined (front ++ b) rest).data.toList.drop front.data.toList.length
  rw [← ht, List.drop_left]
  exact List.prefix_append _ _

/-- A block that stands in an input ends in it. -/
theorem IsBlock.fits {data b : ByteArray} {k : Nat} (hb : IsBlock b)
    (hat : b.data.toList <+: data.data.toList.drop k) : k + b.size ≤ data.size := by
  have hmin := hb.le_size
  have hle := hat.length_le
  rw [minDocumentSize] at hmin
  rw [List.length_drop] at hle
  change b.size ≤ data.size - k at hle
  omega

/-- After blocks comes the last byte of the last one. -/
theorem getLast?_joined {front : ByteArray} {blocks : List ByteArray} (hne : blocks ≠ [])
    (hblocks : ∀ b ∈ blocks, IsBlock b) :
    (joined front blocks).data.toList.getLast? = some 0 := by
  induction blocks generalizing front with
  | nil => exact absurd rfl hne
  | cons b rest ih =>
    cases rest with
    | nil =>
      have hb := (hblocks b List.mem_cons_self).last_eq
      change (front ++ b).data.toList.getLast? = some 0
      rw [ByteArray.data_append, Array.toList_append, List.getLast?_append, hb]
      rfl
    | cons b' rest =>
      have hrest : ∀ c ∈ b' :: rest, IsBlock c := fun c hc =>
        hblocks c (List.mem_cons_of_mem b hc)
      exact @ih (front ++ b) (List.cons_ne_nil b' rest) hrest

/-- A block is a frame, and its input holds it. -/
theorem IsBlock.isFrame {b : ByteArray} (hb : IsBlock b) : IsFrame b :=
  ⟨hb.le_size, hb.length_eq⟩

theorem IsBlock.holds {data b : ByteArray} {k : Nat} (hb : IsBlock b)
    (hat : b.data.toList <+: data.data.toList.drop k) :
    (Region.mk data (data.size - 1)).HoldsFrame b k := by
  have hmin := hb.le_size
  have hfits := hb.fits hat
  rw [minDocumentSize] at hmin
  exact ⟨show data.size - 1 < data.size by omega, show k + b.size ≤ data.size - 1 + 1 by omega, hat⟩

/-! ### One block -/

namespace Reader

/-- A reader as it is made at an offset of an input. -/
def fresh (data : ByteArray) (position : Nat) (promote : Bool) : Reader :=
  { data, limit := data.size - 1, position, promote }

/-- Behind a block the next document is looked for. -/
theorem nextPosition_block {data b : ByteArray} {position : Nat} (promote : Bool) (hb : IsBlock b)
    (hat : b.data.toList <+: data.data.toList.drop position) :
    (fresh data position promote).nextPosition = position + b.size := by
  have hmin := hb.le_size
  have hfits := hb.fits hat
  rw [minDocumentSize] at hmin
  have hlevels : (fresh data position promote).levels ≠ 0 := by
    change maxDepth - 0 ≠ 0
    decide
  have hstop : Frame.terminator (fresh data position promote).region
      (fresh data position promote).position = .ok (position + (b.size - 1), position + 4) :=
    (Frame.terminator_of_holds hb.isFrame (hb.holds hat)).trans (if_pos hb.last_eq)
  rw [nextPosition, if_neg hlevels, hstop]
  change position + (b.size - 1) + 1 = position + b.size
  omega

/-- A block in a larger input is read as if it were the whole input, and passed. -/
theorem readDocument_block {data b : ByteArray} {position : Nat} (options : DecodeOptions)
    (hb : IsBlock b) (hat : b.data.toList <+: data.data.toList.drop position) :
    (fresh data position options.promoteLongs).readDocument =
      ((decode b options).mapError (Error.moved position),
        fresh data (position + b.size) options.promoteLongs) := by
  have hmoves : Cursor.Moves _ _ (Frame.document options.promoteLongs maxDepth _) _ 0 :=
    Frame.document_of_holds hb.isFrame (hb.holds hat)
  have halone := decode_frame_append options hb.isFrame .empty (.inl rfl)
  rw [ByteArray.append_empty] at halone
  have hdocument : (fresh data position options.promoteLongs).readDocument.1 =
      (decode b options).mapError (Error.moved position) := by
    rw [Cursor.Moves, Nat.add_zero] at hmoves
    rw [halone]
    change Except.map _ (Frame.document options.promoteLongs maxDepth ⟨data, data.size - 1⟩
      position) = _
    rw [hmoves]
    cases Frame.document options.promoteLongs maxDepth ⟨b, b.size - 1⟩ 0 <;> rfl
  refine Prod.ext hdocument ?_
  rw [readDocument, nextPosition_block options.promoteLongs hb hat]
  rfl

/-! ### Blocks in a row -/

variable {options : DecodeOptions}

/-- The first block is read, and reading goes on behind it. -/
theorem readDocument_joined {front b : ByteArray} (hb : IsBlock b) (rest : List ByteArray) :
    (fresh (joined front (b :: rest)) front.size options.promoteLongs).readDocument =
      ((decode b options).mapError (Error.moved front.size),
        fresh (joined (front ++ b) rest) (front ++ b).size options.promoteLongs) := by
  rw [readDocument_block options hb (block_stands front b rest), ByteArray.size_append]
  rfl

/-- Each read gives what its block gives alone and ends behind it. -/
theorem readEach_joined (blocks : List ByteArray) (front : ByteArray)
    (hblocks : ∀ b ∈ blocks, IsBlock b) (i : Nat) (hi : i < blocks.length) :
    ((fresh (joined front blocks) front.size options.promoteLongs).readEach blocks.length)[i]? =
      some ((decode blocks[i] options).mapError (Error.moved (joined front (blocks.take i)).size),
        fresh (joined front blocks) (joined front (blocks.take (i + 1))).size
          options.promoteLongs) := by
  induction blocks generalizing front i with
  | nil => cases hi
  | cons b rest ih =>
    have hb := hblocks b List.mem_cons_self
    rw [List.length_cons, readEach, readDocument_joined hb]
    cases i with
    | zero => rfl
    | succ i =>
      exact ih (front ++ b) (fun c hc => hblocks c (List.mem_cons_of_mem b hc)) i
        (Nat.lt_of_succ_lt_succ hi)

/-- If every block can be decoded, all documents are read. -/
theorem readAll_joined (blocks : List ByteArray) (front : ByteArray)
    (hblocks : ∀ b ∈ blocks, IsBlock b) (documents : List Document)
    (hdocuments : blocks.map (decode · options) = documents.map .ok) :
    (fresh (joined front blocks) front.size options.promoteLongs).readAll blocks.length =
      .ok (documents, fresh (joined front blocks) (joined front blocks).size
        options.promoteLongs) := by
  induction blocks generalizing front documents with
  | nil =>
    cases documents with
    | nil => rfl
    | cons d _ => cases hdocuments
  | cons b rest ih =>
    cases documents with
    | nil => cases hdocuments
    | cons d documents =>
      obtain ⟨hd, hrest⟩ := List.cons.inj hdocuments
      change decode b options = .ok d at hd
      rw [List.length_cons, readAll, readDocument_joined (hblocks b List.mem_cons_self), hd]
      change Except.bind (readAll _ rest.length) _ = _
      rw [ih (front ++ b) (fun c hc => hblocks c (List.mem_cons_of_mem b hc)) documents hrest]
      rfl

/-- The first block that cannot be decoded ends the reading with its error. -/
theorem readAll_joined_error (blocks : List ByteArray) (front : ByteArray)
    (hblocks : ∀ b ∈ blocks, IsBlock b) (i : Nat) (hi : i < blocks.length) (e : Error)
    (hbefore : ∀ b ∈ blocks.take i, ∃ d, decode b options = .ok d)
    (he : decode blocks[i] options = .error e) :
    (fresh (joined front blocks) front.size options.promoteLongs).readAll blocks.length =
      .error (e.moved (joined front (blocks.take i)).size) := by
  induction blocks generalizing front i with
  | nil => cases hi
  | cons b rest ih =>
    rw [List.length_cons, readAll, readDocument_joined (hblocks b List.mem_cons_self)]
    cases i with
    | zero =>
      rw [List.getElem_cons_zero] at he
      rw [he]
      rfl
    | succ i =>
      obtain ⟨d, hd⟩ := hbefore b List.mem_cons_self
      rw [hd]
      change Except.bind (readAll _ rest.length) _ = _
      rw [ih (front ++ b) (fun c hc => hblocks c (List.mem_cons_of_mem b hc)) i
        (Nat.lt_of_succ_lt_succ hi) (fun c hc => hbefore c (List.mem_cons_of_mem b hc)) he]
      rfl

end Reader

/-- **Blocks are read each for itself.** Behind any bytes, blocks with any content are read one
after another, going on after failures: each read gives the document that its block gives alone or
the error that it gives alone, with the offsets in it moved by the place of the block, and leaves
the reader behind the block with nothing else changed. Read up to the first failure, the blocks give
all documents and the end of the input, or the error of the first block that cannot be decoded. -/
theorem blocks_isolate (front : ByteArray) (blocks : List ByteArray) (options : DecodeOptions)
    (hne : blocks ≠ []) (hblocks : ∀ b ∈ blocks, IsBlock b) :
    (∃ r, Reader.ofBytes (joined front blocks) front.size options.promoteLongs = .ok r ∧
      r.position = front.size ∧ ∀ (i : Nat) (hi : i < blocks.length),
        (r.readEach blocks.length)[i]? =
          some ((decode blocks[i] options).mapError
              (Error.moved (joined front (blocks.take i)).size),
            { r with position := (joined front (blocks.take (i + 1))).size })) ∧
      (∀ documents : List Document, blocks.map (decode · options) = documents.map .ok →
        decodeMany (joined front blocks) front.size blocks.length options =
          .ok (documents, (joined front blocks).size)) ∧
      ∀ (i : Nat) (hi : i < blocks.length) (e : Error),
        (∀ b ∈ blocks.take i, ∃ d, decode b options = .ok d) →
          decode blocks[i] options = .error e →
            decodeMany (joined front blocks) front.size blocks.length options =
              .error (e.moved (joined front (blocks.take i)).size) := by
  have hstart : front.size < (joined front blocks).size := by
    cases blocks with
    | nil => exact absurd rfl hne
    | cons b rest =>
      have hfits := (hblocks b List.mem_cons_self).fits (block_stands front b rest)
      have hmin := (hblocks b List.mem_cons_self).le_size
      rw [minDocumentSize] at hmin
      omega
  have hreader : Reader.ofBytes (joined front blocks) front.size options.promoteLongs =
      .ok (.fresh (joined front blocks) front.size options.promoteLongs) :=
    Reader.ofBytes_eq_ok.2 ⟨hstart, getLast?_joined hne hblocks, rfl⟩
  have hmany : decodeMany (joined front blocks) front.size blocks.length options =
      ((Reader.fresh (joined front blocks) front.size options.promoteLongs).readAll
        blocks.length).map fun p => (p.1, p.2.position) := by
    unfold decodeMany
    rw [if_neg (fun h => hne (List.length_eq_zero_iff.1 h)), hreader]
    change Except.bind (Reader.readAll _ _) _ = _
    cases (Reader.fresh (joined front blocks) front.size options.promoteLongs).readAll
      blocks.length <;> rfl
  refine ⟨⟨_, hreader, rfl, fun i hi => Reader.readEach_joined blocks front hblocks i hi⟩,
    fun documents hdocuments => ?_, fun i hi e hbefore he => ?_⟩
  · rw [hmany, Reader.readAll_joined blocks front hblocks documents hdocuments]
    rfl
  · rw [hmany, Reader.readAll_joined_error blocks front hblocks i hi e hbefore he]
    rfl

/-- A block with a text that does not end, and an empty document. -/
def garbageBlocks : List ByteArray := [⟨#[6, 0, 0, 0, 9, 0]⟩, ⟨#[5, 0, 0, 0, 0]⟩]

/-- Behind one byte the first of them gives its error one byte on, and the second its document. -/
theorem blocks_isolate_garbage :
    garbageBlocks ≠ [] ∧ (∀ b ∈ garbageBlocks, IsBlock b) ∧
      (∃ r, Reader.ofBytes (joined ⟨#[7]⟩ garbageBlocks) 1 true = .ok r ∧
        (r.readEach 2)[0]? = some (.error (.unterminatedText 6), { r with position := 7 }) ∧
        (r.readEach 2)[1]? = some (.ok .empty, { r with position := 12 })) ∧
      decodeMany (joined ⟨#[7]⟩ garbageBlocks) 1 2 {} = .error (.unterminatedText 6) := by
  have hne : garbageBlocks ≠ [] := nofun
  have hblocks : ∀ b ∈ garbageBlocks, IsBlock b := by
    intro b hb
    rcases List.mem_cons.1 hb with rfl | hb
    · exact ⟨by decide, by decide, by decide⟩
    · rw [List.mem_singleton.1 hb]
      exact ⟨by decide, by decide, by decide⟩
  obtain ⟨⟨r, hr, -, hreads⟩, -, herror⟩ := blocks_isolate ⟨#[7]⟩ garbageBlocks {} hne hblocks
  have hfirst : decode garbageBlocks[0] {} = .error (.unterminatedText 5) := by rfl
  have hsecond : decode garbageBlocks[1] {} = .ok .empty := by rfl
  have h0 := hreads 0 (by decide)
  have h1 := hreads 1 (by decide)
  rw [hfirst] at h0
  rw [hsecond] at h1
  have he := herror 0 (by decide) _ nofun hfirst
  have hplaces : (joined ⟨#[7]⟩ (garbageBlocks.take 0)).size = 1 ∧
      (joined ⟨#[7]⟩ (garbageBlocks.take 1)).size = 7 ∧
      (joined ⟨#[7]⟩ (garbageBlocks.take 2)).size = 12 := by decide
  simp only [hplaces] at h0 h1 he
  exact ⟨hne, hblocks, ⟨r, hr, h0, h1⟩, he⟩

end Bson
