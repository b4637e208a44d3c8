import Bson.Proofs.Grammar.TooDeep
import Bson.Proofs.RoundTrip.Decode

/-!
# The limits of nesting

Writing and reading refuse the same depth. A document is written exactly if no more than `maxDepth`
frames nest in it, a frame is read exactly if no more than `maxDepth` nest in it, and what is
written nests as many frames as the document is deep.

* `nesting`: how many frames a value nests. `nestingFields`, `nestingItems`: the same of fields and
  items.
* `HooksReturn`: every hook in a value can be called and returns a value that has none itself.
* `Layout.payload_nests`: a value is laid out exactly if its frames fit, and nothing else is the
  reason if it is not.
* `nesting_limits_coincide`: the statement about documents and frames.
-/

namespace Bson

open Grammar

mutual

/-- How many frames a value nests in one another. -/
def nesting (options : WriteOptions) : Value → Nat
  | .document d => nestingFields options d.entries + 1
  | .array list => nestingItems options list + 1
  | .dbRef _ id _ => nesting options id + 1
  | .scopedCode _ scope => if scope.isEmpty then 0 else nestingFields options scope.entries + 1
  | .hook _ result => nesting options result
  | _ => 0

/-- How many the fields of a document nest, without those that are left out. -/
def nestingFields (options : WriteOptions) : {keys : List String} → Entries Value keys → Nat
  | _, .nil => 0
  | _, .snoc init _ v _ =>
    max (nestingFields options init) (if Writer.isDropped options v then 0 else nesting options v)

/-- How many the items of an array nest. -/
def nestingItems (options : WriteOptions) : List Value → Nat
  | [] => 0
  | v :: rest => max (nesting options v) (nestingItems options rest)

end

mutual

/-- Whether every hook in a value can be called and returns a value without a hook of its own. -/
def HooksReturn : Value → Prop
  | .document d => HooksReturnFields d.entries
  | .array list => HooksReturnItems list
  | .dbRef _ id _ => HooksReturn id
  | .scopedCode _ scope => HooksReturnFields scope.entries
  | .hook _ result => ¬result.isConvertible ∧ HooksReturn result
  | .brokenHook _ => False
  | _ => True

/-- The same of the fields of a document. -/
def HooksReturnFields : {keys : List String} → Entries Value keys → Prop
  | _, .nil => True
  | _, .snoc init _ v _ => HooksReturnFields init ∧ HooksReturn v

/-- The same of the items of an array. -/
def HooksReturnItems : List Value → Prop
  | [] => True
  | v :: rest => HooksReturn v ∧ HooksReturnItems rest

end

/-! ### Layouts -/

namespace Layout

variable {α : Type} {options : WriteOptions} {depth n : Nat}

/-- With `depth` frames open around it something that nests `n` frames is laid out if they fit,
and is refused for its nesting if they do not. -/
structure Nests (x : Except Error α) (frames : α → Nat) (depth n : Nat) : Prop where
  fits : depth + n ≤ maxDepth → ∃ a, x = .ok a ∧ frames a = n
  exceeds : maxDepth < depth + n → x = .error (.nestingTooDeep maxDepth)

theorem Nests.leaf {p : Payload} (hdepth : depth ≤ maxDepth) (hp : p.depth = 0) :
    Nests (.ok p) Payload.depth depth 0 :=
  ⟨fun _ => ⟨p, rfl, hp⟩, fun h => absurd h (Nat.not_lt.2 hdepth)⟩

/-- A frame counts itself and what is in it. -/
theorem Nests.frame {make : Int32 → Elements → Payload} {body : Except Error Elements}
    (hmake : ∀ length es, (make length es).depth = es.depth + 1)
    (hbody : depth < maxDepth → Nests body Elements.depth (depth + 1) n) :
    Nests (frame make depth body) Payload.depth depth (n + 1) := by
  constructor
  · intro hfits
    obtain ⟨es, hes, hn⟩ := (hbody (by omega)).fits (by omega)
    exact ⟨_, frame_eq_ok.2 ⟨by omega, es, hes, rfl⟩, by rw [hmake, hn]⟩
  · intro hexceeds
    unfold Layout.frame
    by_cases hopen : maxDepth ≤ depth
    · rw [if_pos hopen]
      rfl
    · rw [if_neg hopen, (hbody (by omega)).exceeds (by omega)]
      rfl

/-- The fields of a reference nest what its id nests. -/
theorem Nests.reference {x : Except Error Payload} (h : Nests x Payload.depth depth n)
    (collection : String) (database : Option String) :
    Nests (do return Layout.reference collection (← x) database) Elements.depth depth n := by
  constructor
  · intro hfits
    obtain ⟨p, rfl, hp⟩ := h.fits hfits
    refine ⟨_, rfl, ?_⟩
    cases database with
    | none =>
      change max 0 (max p.depth 0) = n
      omega
    | some database =>
      change max 0 (max p.depth (max 0 0)) = n
      omega
  · intro hexceeds
    rw [h.exceeds hexceeds]
    rfl

theorem number_depth (x : Double) : (number x).depth = 0 := by
  unfold number
  split <;> rfl

theorem binary_depth (subtype : UInt8) (data : ByteArray) : (binary subtype data).depth = 0 := by
  unfold binary
  dsimp only
  split <;> rfl

mutual

/-- A value is laid out exactly if its frames fit, and nests as many as it has. -/
theorem payload_nests (hkeys : options.checkKeys = false) : ∀ (v : Value) {depth : Nat},
    HooksReturn v → depth ≤ maxDepth →
      Nests (payload options depth v) Payload.depth depth (nesting options v)
  | .double x, _, _, hd => .leaf hd (number_depth x)
  | .binary _, _, _, hd | .bytes _, _, _, hd => .leaf hd (binary_depth _ _)
  | .boxedDouble _, _, _, hd | .int32 _, _, _, hd | .long _, _, _, hd | .string _, _, _, hd
  | .objectId _, _, _, hd | .boolean _, _, _, hd | .dateTime _, _, _, hd | .null, _, _, hd
  | .undefined, _, _, hd | .regex _, _, _, hd | .code _, _, _, hd | .function _, _, _, hd
  | .symbol _, _, _, hd | .timestamp _, _, _, hd | .minKey, _, _, hd | .maxKey, _, _, hd =>
    .leaf hd rfl
  | .document d, _, h, _ => .frame (fun _ _ => rfl) fun hd => fields_nest hkeys d.entries h hd
  | .array list, _, h, _ => .frame (fun _ _ => rfl) fun hd => items_nest hkeys list h hd
  | .scopedCode source scope, depth, h, hd => by
    rw [payload, nesting]
    split
    · exact .leaf hd rfl
    · exact .frame (fun _ _ => rfl) fun hd => fields_nest hkeys scope.entries h hd
  | .dbRef collection id database, _, h, _ =>
    .frame (fun _ _ => rfl) fun hd => (payload_nests hkeys id h hd).reference collection database
  | .hook _ result, _, h, hd => by
    rw [payload, nesting, if_neg h.1]
    exact payload_nests hkeys result h.2 hd
  | .brokenHook _, _, h, _ => h.elim

/-- The same of the fields of a document. -/
theorem fields_nest (hkeys : options.checkKeys = false) :
    ∀ {keys : List String} (entries : Entries Value keys) {depth : Nat},
      HooksReturnFields entries → depth ≤ maxDepth →
        Nests (fields options depth entries) Elements.depth depth (nestingFields options entries)
  | _, .nil, _, _, hd => ⟨fun _ => ⟨.nil, rfl, rfl⟩, fun h => absurd h (Nat.not_lt.2 hd)⟩
  | _, .snoc init key v _, depth, h, hd => by
    have hinit := fields_nest hkeys init h.1 hd
    have hv := payload_nests hkeys v h.2 hd
    have hkey := checkKey_of_unchecked hkeys key
    rw [nestingFields]
    constructor
    · intro hfits
      obtain ⟨front, hfront, hn⟩ := hinit.fits (by omega)
      by_cases hdropped : Writer.isDropped options v
      · refine ⟨front, fields_snoc_eq_ok.2 ⟨front, hfront, hkey, ?_⟩, ?_⟩
        · rw [if_pos hdropped]
        · rw [if_pos hdropped, hn, Nat.max_zero]
      · rw [if_neg hdropped] at hfits ⊢
        obtain ⟨p, hp, hm⟩ := hv.fits (by omega)
        refine ⟨front.snoc key p, fields_snoc_eq_ok.2 ⟨front, hfront, hkey, ?_⟩, ?_⟩
        · rw [if_neg hdropped]
          exact ⟨p, hp, rfl⟩
        · rw [Elements.depth_snoc, hn, hm]
    · intro hexceeds
      rw [fields]
      -- the fields before come first, so theirs is the refusal if they nest too deep as well
      by_cases hbefore : maxDepth < depth + nestingFields options init
      · rw [hinit.exceeds hbefore]
        rfl
      · obtain ⟨front, hfront, -⟩ := hinit.fits (by omega)
        by_cases hdropped : Writer.isDropped options v
        · rw [if_pos hdropped] at hexceeds
          omega
        · rw [if_neg hdropped] at hexceeds
          rw [hfront, hkey, hv.exceeds (by omega)]
          simp only [if_neg hdropped]
          rfl

/-- The same of the items of an array. -/
theorem items_nest (hkeys : options.checkKeys = false) :
    ∀ (list : List Value) {depth index : Nat}, HooksReturnItems list → depth ≤ maxDepth →
      Nests (items options depth index list) Elements.depth depth (nestingItems options list)
  | [], _, _, _, hd => ⟨fun _ => ⟨.nil, rfl, rfl⟩, fun h => absurd h (Nat.not_lt.2 hd)⟩
  | v :: rest, depth, index, h, hd => by
    have hv := payload_nests hkeys v h.1 hd
    have hrest : Nests (items options depth (index + 1) rest) _ depth (nestingItems options rest) :=
      items_nest hkeys rest h.2 hd
    rw [nestingItems]
    constructor
    · intro hfits
      obtain ⟨p, hp, hm⟩ := hv.fits (by omega)
      obtain ⟨tail, htail, hn⟩ := hrest.fits (by omega)
      exact ⟨_, items_cons_eq_ok.2 ⟨p, hp, tail, htail, rfl⟩, by rw [Elements.depth, hm, hn]⟩
    · intro hexceeds
      rw [items]
      by_cases hfirst : maxDepth < depth + nesting options v
      · rw [hv.exceeds hfirst]
        rfl
      · obtain ⟨p, hp, -⟩ := hv.fits (by omega)
        rw [hp, hrest.exceeds (by omega)]
        rfl

end

end Layout

/-! ### Documents and frames -/

section Documents

variable {d : Document} {options : EncodeOptions}

/-- The layout of a document whose keys are not checked fails for its nesting alone. -/
theorem layout_nests (hhooks : HooksReturn (.document d)) (hkeys : options.checkKeys = false) :
    Layout.Nests (Layout.document options.toWriteOptions d) Payload.depth 0
      (nesting options.toWriteOptions (.document d)) :=
  Layout.payload_nests hkeys (.document d) hhooks (Nat.zero_le _)

/-- A document that nests too deep is not encoded. -/
theorem encode_tooDeep (hhooks : HooksReturn (.document d)) (hkeys : options.checkKeys = false)
    (hd : maxDepth < nesting options.toWriteOptions (.document d)) :
    encode d options = .error (.nestingTooDeep maxDepth) := by
  rw [encode_eq, (layout_nests hhooks hkeys).exceeds (by omega)]
  rfl

/-- What is encoded is laid out in as many nested frames as the document is deep. -/
theorem depth_of_encode (hhooks : HooksReturn (.document d)) (hkeys : options.checkKeys = false)
    {b : ByteArray} (hb : encode d options = .ok b) :
    nesting options.toWriteOptions (.document d) ≤ maxDepth ∧
      ∃ p, Layout.document options.toWriteOptions d = .ok p ∧ b.data.toList = p.bytes ∧
        (options.maxSize ≤ maxLengthField → p.Measured true) ∧
        p.depth = nesting options.toWriteOptions (.document d) := by
  have hd : nesting options.toWriteOptions (.document d) ≤ maxDepth := by
    refine Nat.le_of_not_lt fun hd => ?_
    rw [encode_tooDeep hhooks hkeys hd] at hb
    cases hb
  obtain ⟨p, hp, hfits, rfl⟩ := encode_eq_ok.1 hb
  refine ⟨hd, p, hp, List.toList_data_toByteArray, fun hmax => ?_, ?_⟩
  · exact Layout.payload_measured (.document d) hp (Nat.le_trans hfits hmax)
  · obtain ⟨q, hq, hdepth⟩ := (layout_nests hhooks hkeys).fits (by omega)
    cases hp.symm.trans hq
    exact hdepth

/-- A document that does not nest too deep is encoded, if there is room. -/
theorem exists_encode (hhooks : HooksReturn (.document d)) (hkeys : options.checkKeys = false)
    (hroom : ∀ size, encodedSize d options.keepFunctions = .ok size → size ≤ options.maxSize)
    (hd : nesting options.toWriteOptions (.document d) ≤ maxDepth) :
    ∃ b, encode d options = .ok b := by
  have hoptions : ({ keepFunctions := options.keepFunctions } : WriteOptions) =
      options.toWriteOptions := by
    rw [← hkeys]
  obtain ⟨p, hp, -⟩ := (layout_nests hhooks hkeys).fits (by omega)
  rw [encodedSize, hoptions, countBytes_eq, hp] at hroom
  exact ⟨_, encode_eq_ok.2 ⟨p, hp, hroom _ rfl, rfl⟩⟩

end Documents

/-- **The limits of nesting coincide.** Whatever the options, a document whose hooks can be called
and return no hook, written without a check of keys into room enough, is written exactly if at most
`maxDepth` frames nest in it, else refused for that; and what is written is the frame laid out for
it, which nests as many frames as the document. A frame that is well formed but for its nesting is
read as what it stands for if at most `maxDepth` frames nest in it, else refused for that. -/
theorem nesting_limits_coincide :
    (∀ (d : Document) (options : EncodeOptions), HooksReturn (.document d) →
      options.checkKeys = false →
      (∀ size, encodedSize d options.keepFunctions = .ok size → size ≤ options.maxSize) →
        ((∃ b, encode d options = .ok b) ↔
          nesting options.toWriteOptions (.document d) ≤ maxDepth) ∧
        (maxDepth < nesting options.toWriteOptions (.document d) →
          encode d options = .error (.nestingTooDeep maxDepth)) ∧
        ∀ b, encode d options = .ok b →
          ∃ p, Layout.document options.toWriteOptions d = .ok p ∧ b.data.toList = p.bytes ∧
            (options.maxSize ≤ maxLengthField → p.Measured true) ∧
            p.depth = nesting options.toWriteOptions (.document d)) ∧
    ∀ (length : Int32) (fields : Elements) (options : DecodeOptions),
      (Payload.document length fields).Valid →
        ((Payload.document length fields).depth ≤ maxDepth →
          decode (Payload.document length fields).bytes.toByteArray options =
            .ok (fields.document options.promoteLongs .empty)) ∧
        (maxDepth < (Payload.document length fields).depth →
          decode (Payload.document length fields).bytes.toByteArray options =
            .error (.nestingTooDeep maxDepth)) := by
  refine ⟨fun d options hhooks hkeys hroom => ⟨⟨fun ⟨b, hb⟩ => ?_, ?_⟩, ?_, fun b hb => ?_⟩,
    fun length fields options hv => ⟨fun hd => ?_, decode_tooDeep options hv⟩⟩
  · exact (depth_of_encode hhooks hkeys hb).1
  · exact exists_encode hhooks hkeys hroom
  · exact encode_tooDeep hhooks hkeys
  · exact (depth_of_encode hhooks hkeys hb).2
  · obtain ⟨hmin, r, hr, hread⟩ := readDocument_enclosed (d := fields.document _ .empty) hv.1.1
      ⟨⟨hv.1.2, hv.2⟩, hd, rfl⟩ List.toList_data_toByteArray
    exact decode_eq_ok.2 ⟨hmin, r, hr, by rw [hread]⟩

/-- Documents in one another, each given by a hook. -/
def chain : Nat → Document
  | 0 => .empty
  | n + 1 => .ofList [("a", .hook n (.document (chain n)))]

/-- The elements of the frame of such a document. -/
def chainElements : Nat → Elements
  | 0 => .nil
  | n + 1 => .cons "a"
    (.document (Layout.frameLength (chainElements n).bytes) (chainElements n)) .nil

theorem hooksReturn_chain (n : Nat) : HooksReturn (.document (chain n)) := by
  induction n with
  | zero => trivial
  | succ n ih => exact ⟨trivial, Bool.false_ne_true, ih⟩

theorem nesting_chain (options : WriteOptions) (n : Nat) :
    nesting options (.document (chain n)) = n + 1 := by
  induction n with
  | zero => rfl
  | succ n ih =>
    change max 0 (nesting options (.document (chain n))) + 1 = n + 2
    omega

theorem depth_chainElements (n : Nat) : (chainElements n).depth = n := by
  induction n with
  | zero => rfl
  | succ n ih =>
    change max ((chainElements n).depth + 1) 0 = n + 1
    omega

theorem length_chainElements (n : Nat) : (chainElements n).bytes.length = 8 * n := by
  induction n with
  | zero => rfl
  | succ n ih =>
    have hkey : (cstring "a").length = 2 := by decide
    rw [chainElements, bytes_cons, Payload.bytes, Elements.bytes]
    simp only [List.length_cons, List.length_append, length_enclosed, List.length_nil, hkey, ih]
    omega

theorem chainElements_valid {n : Nat} (hn : n ≤ maxDepth) :
    (Payload.document (Layout.frameLength (chainElements n).bytes) (chainElements n)).Valid := by
  have hmeasures : ∀ m ≤ maxDepth, MeasuresFrame (Layout.frameLength (chainElements m).bytes)
      (chainElements m).bytes := by
    intro m hm
    refine Layout.frameLength_measures ?_
    rw [length_enclosed, length_chainElements, maxLengthField]
    rw [maxDepth] at hm
    omega
  induction n with
  | zero => exact ⟨⟨hmeasures 0 hn, trivial⟩, trivial⟩
  | succ n ih =>
    obtain ⟨hm, hc⟩ := ih (by omega)
    exact ⟨⟨hmeasures _ hn, hm, trivial⟩, by unfold NulFree; decide, hc, trivial⟩

theorem layout_chain : ∀ (n : Nat) {depth : Nat}, depth + n < maxDepth →
    Layout.payload {} depth (.document (chain n)) =
      .ok (.document (Layout.frameLength (chainElements n).bytes) (chainElements n))
  | 0, _, h => Layout.frame_eq_ok.2 ⟨h, .nil, rfl, rfl⟩
  | n + 1, depth, h => by
    have hinner := @layout_chain n (depth + 1) (by omega)
    refine Layout.frame_eq_ok.2 ⟨by omega, chainElements (n + 1), ?_, rfl⟩
    exact Layout.fields_snoc_eq_ok.2 ⟨.nil, rfl, rfl, _, hinner, rfl⟩

/-- A hundred documents in one another are written and read, one more is refused both ways. -/
theorem nesting_limits_coincide_chain :
    HooksReturn (.document (chain 99)) ∧ HooksReturn (.document (chain 100)) ∧
      (∃ b, encode (chain 99) {} = .ok b) ∧
      encode (chain 100) {} = .error (.nestingTooDeep 100) ∧
      decode (Payload.document (Layout.frameLength (chainElements 99).bytes)
        (chainElements 99)).bytes.toByteArray {} =
          .ok ((chainElements 99).document true .empty) ∧
      decode (Payload.document (Layout.frameLength (chainElements 100).bytes)
        (chainElements 100)).bytes.toByteArray {} = .error (.nestingTooDeep 100) := by
  have hlayout : Layout.document {} (chain 99) = _ := @layout_chain 99 0 (by decide)
  have hrefused : Layout.document {} (chain 100) = .error (.nestingTooDeep maxDepth) :=
    (@layout_nests _ {} (hooksReturn_chain 100) rfl).exceeds
      (by rw [nesting_chain]; decide)
  obtain ⟨hwrites, hreads⟩ := nesting_limits_coincide
  refine ⟨hooksReturn_chain 99, hooksReturn_chain 100, ?_, ?_, ?_, ?_⟩
  · refine (hwrites (chain 99) {} (hooksReturn_chain 99) rfl fun size hsize => ?_).1.2
      (by rw [nesting_chain]; decide)
    rw [encodedSize, countBytes_eq, hlayout] at hsize
    cases hsize
    change (enclosed _ (chainElements 99).bytes).length ≤ defaultMaxSize
    rw [length_enclosed, length_chainElements]
    decide
  · refine (hwrites (chain 100) {} (hooksReturn_chain 100) rfl fun size hsize => ?_).2.1
      (by rw [nesting_chain]; decide)
    rw [encodedSize, countBytes_eq, hrefused] at hsize
    cases hsize
  · exact (hreads _ _ {} (chainElements_valid (by decide))).1
      (by rw [Payload.depth, depth_chainElements]; decide)
  · exact (hreads _ _ {} (chainElements_valid (by decide))).2
      (by rw [Payload.depth, depth_chainElements]; decide)

end Bson
