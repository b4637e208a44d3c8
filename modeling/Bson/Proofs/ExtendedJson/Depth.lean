import Bson.Proofs.ExtendedJson.Refusals
import Bson.Proofs.Json.RoundTrip
import Bson.Proofs.RoundTrip.Occurrences

/-!
# The depth of extended JSON

The text of a document is read as JSON again if its JSON nests less than 128 deep. A frame is one
array or object, and what stands in no frame of its own nests at most two more; only code with a
scope takes an object for itself besides the one of the scope, although both are one frame.

* `scopeNesting`: how many scopes of code nest in a value.
* `Json.Fits`: proper values of a bounded depth. `ofValue_fits`: the JSON of what can be read is
  proper, and it nests no more than the frames, two, and one for each scope.
* `documentText_reads`: the statement about documents that were decoded.
* `documentText_malformed`: scopes that nest so deep that the text of the document is refused.
-/

namespace Bson

namespace Json

/-- Whether a value is proper and nests no deeper than a bound. -/
structure Fits (n : Nat) (v : Json) : Prop where
  proper : v.Proper
  depth_le : v.depth ≤ n

namespace Fits

variable {n m : Nat}

theorem mono {v : Json} (h : Fits n v) (hle : n ≤ m) : Fits m v :=
  ⟨h.proper, Nat.le_trans h.depth_le hle⟩

theorem array {items : List Json} (h : ∀ v ∈ items, Fits n v) : Fits (n + 1) (.array items) := by
  have hitems : ProperItems items ∧ itemsDepth items ≤ n := by
    induction items with
    | nil => exact ⟨trivial, Nat.zero_le n⟩
    | cons v rest ih =>
      obtain ⟨hv, hrest⟩ := List.forall_mem_cons.1 h
      obtain ⟨hproper, hdepth⟩ := ih hrest
      exact ⟨⟨hv.proper, hproper⟩, Nat.max_le.2 ⟨hv.depth_le, hdepth⟩⟩
  exact ⟨hitems.1, Nat.succ_le_succ hitems.2⟩

theorem object {fields : OrderedMap Json} (h : ∀ q ∈ fields.toList, Fits n q.2) :
    Fits (n + 1) (.object fields) := by
  obtain ⟨entries⟩ := fields
  have hfields : ProperFields entries ∧ fieldsDepth entries ≤ n := by
    change ∀ q ∈ entries.toList, Fits n q.2 at h
    induction entries with
    | nil => exact ⟨trivial, Nat.zero_le n⟩
    | snoc init key v fresh ih =>
      obtain ⟨hinit, hv⟩ := Entries.forall_mem_toList_snoc.1 h
      obtain ⟨hproper, hdepth⟩ := ih hinit
      exact ⟨⟨hproper, hv.proper⟩, Nat.max_le.2 ⟨hdepth, hv.depth_le⟩⟩
  exact ⟨hfields.1, Nat.succ_le_succ hfields.2⟩

theorem ofPairs {pairs : List (String × Json)} (h : ∀ q ∈ pairs, Fits n q.2) :
    Fits (n + 1) (ofPairs pairs) := by
  refine object (OrderedMap.forall_mem_toList_insertMany ?_ h)
  exact fun q hq => absurd hq List.not_mem_nil

end Fits

theorem Fits.scalar {n : Nat} {v : Json} (hproper : v.Proper) (hdepth : v.depth = 0) : Fits n v :=
  ⟨hproper, hdepth ▸ Nat.zero_le n⟩

theorem fits_string (n : Nat) (s : String) : Fits n (.string s) := .scalar trivial rfl

end Json

namespace ExtendedJson

open Json

/-! ### The JSON of a value -/

mutual

/-- How many scopes of code nest in a value. -/
def scopeNesting : Value → Nat
  | .document d => scopeNestingFields d.entries
  | .array items => scopeNestingItems items
  | .scopedCode _ scope => scopeNestingFields scope.entries + 1
  | .dbRef _ id _ => scopeNesting id
  | .hook _ result => scopeNesting result
  | _ => 0

/-- How many nest in a field. -/
def scopeNestingFields : {keys : List String} → Entries Value keys → Nat
  | _, .nil => 0
  | _, .snoc init _ v _ => max (scopeNestingFields init) (scopeNesting v)

/-- How many nest in an item. -/
def scopeNestingItems : List Value → Nat
  | [] => 0
  | v :: rest => max (scopeNesting v) (scopeNestingItems rest)

end

variable {n : Nat} {promote : Bool}

theorem fits_wrap {key : String} {content : Json} (h : Fits n content) :
    Fits (n + 1) (wrap key content) :=
  .ofPairs fun _ hq => List.mem_singleton.1 hq ▸ h

theorem fits_ofDouble (n : Nat) (x : Double) : Fits (n + 1) (ofDouble x) := by
  unfold ofDouble
  split
  · rename_i hfinite
    exact .scalar hfinite rfl
  · exact fits_wrap (fits_string n _)

/-- An object with two scalars. -/
theorem fits_pair {k l : String} {v w : Json} (hv : Fits n v) (hw : Fits n w) :
    Fits (n + 1) (ofPairs [(k, v), (l, w)]) :=
  .ofPairs fun q hq => by
    rcases List.mem_cons.1 hq with rfl | hq
    · exact hv
    · exact List.mem_singleton.1 hq ▸ hw

theorem fits_ofBinary (n : Nat) (subtype : UInt8) (data : ByteArray) :
    Fits (n + 2) (ofBinary subtype data) :=
  fits_wrap (fits_pair (fits_string n _) (fits_string n _))

theorem fits_ofInstant (n : Nat) (millis : Int) : Fits (n + 2) (ofInstant millis) := by
  refine fits_wrap ?_
  split
  · exact fits_string _ _
  · exact fits_wrap (fits_string n _)

theorem fits_ofRegex (n : Nat) (r : Regex) : Fits (n + 2) (ofRegex r) :=
  fits_wrap (fits_pair (fits_string n _) (fits_string n _))

theorem fits_ofTimestamp (n : Nat) (t : Timestamp) : Fits (n + 2) (ofTimestamp t) :=
  fits_wrap (fits_pair (.scalar trivial rfl) (.scalar trivial rfl))

theorem fits_ofReference (collection : String) {id : Json} (h : Fits n id)
    (database : Option String) : Fits (n + 1) (ofReference collection id database) := by
  refine .ofPairs fun q hq => ?_
  rcases List.mem_append.1 hq with hq | hq
  · rcases List.mem_cons.1 hq with rfl | hq
    · exact fits_string n _
    · exact List.mem_singleton.1 hq ▸ h
  · cases database with
    | none => exact absurd hq List.not_mem_nil
    | some database => exact List.mem_singleton.1 hq ▸ fits_string n database

mutual

/-- The JSON of what can be read nests no more than the frames, two, and one for each scope. -/
theorem ofValue_fits : ∀ (v : Value) {levels : Nat} {j : Json}, Readable promote levels v →
    ofValue v = .ok j → Fits (levels + scopeNesting v + 2) j
  | .null, _, _, _, hj | .boolean _, _, _, _, hj | .int32 _, _, _, _, hj | .long _, _, _, _, hj
  | .string _, _, _, _, hj => Except.ok.inj hj ▸ .scalar trivial rfl
  | .symbol _, _, _, _, hj | .objectId _, _, _, _, hj | .code _, _, _, _, hj
  | .minKey, _, _, _, hj | .maxKey, _, _, _, hj =>
    Except.ok.inj hj ▸ fits_wrap (.scalar trivial rfl)
  | .double x, _, _, _, hj => Except.ok.inj hj ▸ fits_ofDouble _ x
  | .binary b, _, _, _, hj => Except.ok.inj hj ▸ fits_ofBinary _ b.subtype b.data
  | .dateTime millis, _, _, _, hj => Except.ok.inj hj ▸ fits_ofInstant _ millis.toInt
  | .regex r, _, _, _, hj => Except.ok.inj hj ▸ fits_ofRegex _ r
  | .timestamp t, _, _, _, hj => Except.ok.inj hj ▸ fits_ofTimestamp _ t
  | .document d, levels, _, h, hj => by
    obtain ⟨hlevels, -, hfields⟩ := h
    obtain ⟨entries, hentries, hj⟩ := Error.bind_eq_ok.1 hj
    cases hj
    have hobject : Fits _ (.object ⟨entries⟩) := .object (ofEntries_fits d.entries hfields hentries)
    refine hobject.mono ?_
    rw [scopeNesting]
    omega
  | .array list, levels, _, h, hj => by
    obtain ⟨hlevels, hitems⟩ := h
    obtain ⟨items, hof, hj⟩ := Error.bind_eq_ok.1 hj
    cases hj
    refine (Fits.array (ofItems_fits list hitems hof)).mono ?_
    rw [scopeNesting]
    omega
  | .scopedCode source scope, levels, _, h, hj => by
    obtain ⟨hlevels, hfields⟩ := h
    obtain ⟨entries, hentries, hj⟩ := Error.bind_eq_ok.1 hj
    cases hj
    -- two objects for one frame: that of the scope and the one that it stands in
    have hobject : Fits _ (.object ⟨entries⟩) :=
      .object (ofEntries_fits scope.entries hfields hentries)
    refine (fits_pair (fits_string _ source) hobject).mono ?_
    rw [scopeNesting]
    omega
  | .dbRef collection id database, levels, _, h, hj => by
    obtain ⟨hlevels, hid⟩ := h
    obtain ⟨j, hof, hj⟩ := Error.bind_eq_ok.1 hj
    cases hj
    refine (fits_ofReference collection (ofValue_fits id hid hof) database).mono ?_
    rw [scopeNesting]
    omega

/-- So does the JSON of fields. -/
theorem ofEntries_fits : ∀ {keys : List String} (entries : Entries Value keys) {levels : Nat}
    {js : Entries Json keys}, ReadableFields promote levels entries → ofEntries entries = .ok js →
      ∀ q ∈ js.toList, Fits (levels + scopeNestingFields entries + 2) q.2
  | _, .nil, _, _, _, hjs => by
    cases hjs
    exact fun q hq => absurd hq List.not_mem_nil
  | _, .snoc init key v fresh, levels, _, h, hjs => by
    obtain ⟨front, hfront, hrest⟩ := Error.bind_eq_ok.1 hjs
    obtain ⟨j, hj, hjs⟩ := Error.bind_eq_ok.1 hrest
    cases hjs
    rw [Entries.forall_mem_toList_snoc, scopeNestingFields]
    refine ⟨fun q hq => (ofEntries_fits init h.1 hfront q hq).mono ?_,
      (ofValue_fits v h.2.2 hj).mono ?_⟩
    · omega
    · omega

/-- And the JSON of items. -/
theorem ofItems_fits : ∀ (list : List Value) {levels : Nat} {js : List Json},
    ReadableItems promote levels list → ofItems list = .ok js →
      ∀ j ∈ js, Fits (levels + scopeNestingItems list + 2) j
  | [], _, _, _, hjs => by
    cases hjs
    exact fun j hj => absurd hj List.not_mem_nil
  | v :: rest, levels, _, h, hjs => by
    obtain ⟨j, hj, hrest⟩ := Error.bind_eq_ok.1 hjs
    obtain ⟨tail, htail, hjs⟩ := Error.bind_eq_ok.1 hrest
    cases hjs
    have hv : Fits (levels + scopeNesting v + 2) j := by
      -- a place that was passed over holds no frame, only a wrapper
      rcases h.1 with rfl | hv
      · cases hj
        exact fits_wrap (.scalar trivial rfl)
      · exact ofValue_fits v hv hj
    rw [List.forall_mem_cons, scopeNestingItems]
    refine ⟨hv.mono ?_, fun k hk => (ofItems_fits rest h.2 htail k hk).mono ?_⟩
    · omega
    · omega

end

/-! ### Texts -/

/-- The text of proper JSON is read as what it is written for, with the doubles that are read back,
if it does not nest too deep. -/
theorem parseDocument_pretty {j : Json} (h : j.Proper) (hdepth : j.depth < 128) :
    parseDocument j.pretty = toDocument j.reread := by
  have hfits : j.depth ≤ State.maxDepth := Nat.le_of_lt_succ hdepth
  rw [parseDocument, ofText?_pretty h, if_pos hfits]

/-- It is refused if it does. -/
theorem parseDocument_pretty_of_le {j : Json} (h : j.Proper) (hdepth : 128 ≤ j.depth) :
    parseDocument j.pretty = .error (.invalidJson .malformed) := by
  have hdeep : ¬j.depth ≤ State.maxDepth := Nat.not_le_of_lt hdepth
  rw [parseDocument_eq_malformed_iff, ofText?_pretty h, if_neg hdeep]

/-- The JSON of a document that was decoded. -/
theorem ofDocument_fits {d : Document} (hd : ReadableFields promote (maxDepth - 1) d.entries) :
    ∃ j, ofDocument d = .ok j ∧ Fits (maxDepth + 2 + scopeNesting (.document d)) j := by
  obtain ⟨entries, hentries⟩ := ofEntries_of_readable d.entries hd
  have hobject : Fits _ (.object ⟨entries⟩) := .object (ofEntries_fits d.entries hd hentries)
  refine ⟨_, Error.bind_eq_ok.2 ⟨entries, hentries, rfl⟩, hobject.mono ?_⟩
  rw [scopeNesting, maxDepth]
  omega

/-- **The text of a document that was decoded is read as JSON again, unless its JSON nests 128 deep
or deeper.** What is read is the JSON that was written, with the doubles that are read back, which
are the same if they are short. It nests no deeper than the hundred frames that decoding allows, two
more, and one more for each scope of code that stands in another; with 25 scopes in one another it
is always read. -/
theorem documentText_reads (b : ByteArray) (read : DecodeOptions) (d : Document)
    (h : decode b read = .ok d) :
    ∃ j text, ofDocument d = .ok j ∧ documentText d = .ok text ∧
      (j.depth < 128 → parseDocument text = toDocument j.reread) ∧
      (j.depth < 128 → j.Short → parseDocument text = toDocument j) ∧
      (parseDocument text = .error (.invalidJson .malformed) ↔ 128 ≤ j.depth) ∧
      j.depth ≤ maxDepth + 2 + scopeNesting (.document d) ∧
      (scopeNesting (.document d) ≤ 25 →
        parseDocument text ≠ .error (.invalidJson .malformed)) := by
  obtain ⟨j, hj, hfits⟩ := ofDocument_fits (readableFields_of_decode h)
  have hsmall := parseDocument_pretty hfits.proper
  have hiff : parseDocument j.pretty = .error (.invalidJson .malformed) ↔ 128 ≤ j.depth :=
    ⟨fun hmalformed => Nat.le_of_not_lt fun hlt =>
      toDocument_notMalformed j.reread ((hsmall hlt).symm.trans hmalformed),
      parseDocument_pretty_of_le hfits.proper⟩
  have hshort : j.depth < 128 → j.Short → parseDocument j.pretty = toDocument j := fun hlt h =>
    (hsmall hlt).trans (congrArg toDocument (reread_eq_self j h))
  refine ⟨j, _, hj, Error.bind_eq_ok.2 ⟨j, hj, rfl⟩, hsmall, hshort, hiff, hfits.depth_le,
    fun hscopes => ?_⟩
  have hdepth := hfits.depth_le
  rw [maxDepth] at hdepth
  rw [Ne, hiff]
  omega

/-! ### Scopes in one another -/

open Grammar

/-- Code in whose scope there is code with a scope, a number of times. -/
def scopes : Nat → Document
  | 0 => .ofList [("a", .null)]
  | n + 1 => .ofList [("a", .scopedCode "f" (scopes n))]

/-- Its elements. -/
def scopesElements : Nat → Elements
  | 0 => .cons "a" .null .nil
  | n + 1 => .cons "a"
    (Layout.codeWithScope "f" (Layout.frameLength (scopesElements n).bytes) (scopesElements n)) .nil

/-- Its bytes. -/
def scopesBytes (n : Nat) : ByteArray :=
  (Payload.document (Layout.frameLength (scopesElements n).bytes)
    (scopesElements n)).bytes.toByteArray

/-- Its JSON. -/
def scopesJson : Nat → Json
  | 0 => .ofPairs [("a", .null)]
  | n + 1 => .ofPairs [("a", .ofPairs [("$code", .string "f"), ("$scope", scopesJson n)])]

theorem isEmpty_scopes (n : Nat) : (scopes n).isEmpty = false := by cases n <;> rfl

theorem length_scopesElements (n : Nat) : (scopesElements n).bytes.length = 18 * n + 3 := by
  have hkey : (cstring "a").length = 2 := by decide
  have hsource : (utf8 "f").length = 1 := by decide
  induction n with
  | zero => decide
  | succ n ih =>
    have hcode := Layout.length_codeWithScope "f" (scopesElements n)
    rw [scopesElements, bytes_cons]
    simp only [List.length_cons, List.length_append, hkey, hcode, hsource, ih, Elements.bytes,
      List.length_nil]
    omega

theorem layout_scopes : ∀ (n : Nat) {depth : Nat}, depth + n ≤ maxDepth →
    Layout.fields {} depth (scopes n).entries = .ok (scopesElements n)
  | 0, _, _ => rfl
  | n + 1, depth, h => by
    have hinner := @layout_scopes n (depth + 1) (by omega)
    have hcode : Layout.payload {} depth (.scopedCode "f" (scopes n)) = .ok (Layout.codeWithScope
        "f" (Layout.frameLength (scopesElements n).bytes) (scopesElements n)) := by
      rw [Layout.payload, isEmpty_scopes, if_neg Bool.false_ne_true]
      exact Layout.frame_eq_ok.2 ⟨by omega, _, hinner, rfl⟩
    exact Layout.fields_snoc_eq_ok.2 ⟨.nil, rfl, rfl, _, hcode, rfl⟩

theorem normalDocument_scopes (promote : Bool) (n : Nat) :
    normalDocument {} promote (scopes n) = scopes n := by
  induction n with
  | zero => rfl
  | succ n ih =>
    have hcode : normal {} promote (.scopedCode "f" (scopes n)) = .scopedCode "f" (scopes n) := by
      rw [normal, isEmpty_scopes, if_neg Bool.false_ne_true, ← normalDocument, ih]
    change OrderedMap.ofList [("a", normal {} promote (.scopedCode "f" (scopes n)))] = _
    rw [hcode, scopes]

theorem nulFreeFields_scopes (n : Nat) : NulFreeFields false (scopes n).entries := by
  have hkey : '\x00' ∉ "a".toList := by decide
  induction n with
  | zero => exact ⟨trivial, .inr hkey, trivial⟩
  | succ n ih => exact ⟨trivial, .inr hkey, ih⟩

theorem decode_scopes {n : Nat} (h : n < maxDepth) :
    decode (scopesBytes n) {} = .ok (scopes n) := by
  have hlayout : Layout.document {} (scopes n) =
      .ok (.document (Layout.frameLength (scopesElements n).bytes) (scopesElements n)) :=
    Layout.frame_eq_ok.2 ⟨by decide, _, layout_scopes n (by omega), rfl⟩
  have hlength : (Payload.document (Layout.frameLength (scopesElements n).bytes)
      (scopesElements n)).bytes.length ≤ maxLengthField := by
    rw [maxDepth] at h
    rw [Payload.bytes, length_enclosed, length_scopesElements, maxLengthField]
    omega
  have hdecode := decode_layout hlayout hlength (nulFreeFields_scopes n) {}
  rwa [normalDocument_scopes] at hdecode

theorem ofDocument_scopes (n : Nat) : ofDocument (scopes n) = .ok (scopesJson n) := by
  induction n with
  | zero => rfl
  | succ n ih =>
    obtain ⟨entries, hentries, hobject⟩ := Error.bind_eq_ok.1 ih
    have hcode : ofValue (.scopedCode "f" (scopes n)) =
        .ok (.ofPairs [("$code", .string "f"), ("$scope", scopesJson n)]) :=
      Error.bind_eq_ok.2 ⟨entries, hentries, Except.ok.inj hobject ▸ rfl⟩
    have hfields : ofEntries (scopes (n + 1)).entries = .ok _ :=
      Error.bind_eq_ok.2 ⟨.nil, rfl, Error.bind_eq_ok.2 ⟨_, hcode, rfl⟩⟩
    exact Error.bind_eq_ok.2 ⟨_, hfields, rfl⟩

theorem depth_scopesJson (n : Nat) : (scopesJson n).depth = 2 * n + 1 := by
  induction n with
  | zero => rfl
  | succ n ih =>
    change max 0 (max (max 0 0) (scopesJson n).depth + 1) + 1 = _
    omega

theorem proper_scopesJson (n : Nat) : (scopesJson n).Proper := by
  induction n with
  | zero => exact ⟨trivial, trivial⟩
  | succ n ih => exact ⟨trivial, ⟨trivial, trivial⟩, ih⟩

theorem short_scopesJson (n : Nat) : (scopesJson n).Short := by
  induction n with
  | zero => exact ⟨trivial, trivial⟩
  | succ n ih => exact ⟨trivial, ⟨trivial, trivial⟩, ih⟩

/-- With 25 scopes in one another a document is read again. -/
theorem documentText_reads_scopes :
    decode (scopesBytes 25) {} = .ok (scopes 25) ∧ ∃ j text,
      ofDocument (scopes 25) = .ok j ∧ documentText (scopes 25) = .ok text ∧ j.depth < 128 ∧
        parseDocument text = toDocument j := by
  have hdecode : decode (scopesBytes 25) {} = .ok (scopes 25) := decode_scopes (by decide)
  obtain ⟨j, text, hj, htext, -, hshort, -⟩ := documentText_reads _ _ _ hdecode
  obtain rfl := Except.ok.inj (hj.symm.trans (ofDocument_scopes 25))
  have hdepth : (scopesJson 25).depth < 128 := by
    rw [depth_scopesJson]
    decide
  exact ⟨hdecode, _, text, hj, htext, hdepth, hshort hdepth (short_scopesJson 25)⟩

/-- With 64 it is not, although its bytes are decoded: each scope is one frame, but two objects. -/
theorem documentText_malformed :
    decode (scopesBytes 64) {} = .ok (scopes 64) ∧ ∃ text,
      documentText (scopes 64) = .ok text ∧
        parseDocument text = .error (.invalidJson .malformed) := by
  refine ⟨decode_scopes (by decide), (scopesJson 64).pretty,
    Error.bind_eq_ok.2 ⟨_, ofDocument_scopes 64, rfl⟩,
    parseDocument_pretty_of_le (proper_scopesJson 64) ?_⟩
  rw [depth_scopesJson]
  decide

end ExtendedJson

end Bson
