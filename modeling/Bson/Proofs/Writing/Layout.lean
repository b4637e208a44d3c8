import Bson.Proofs.Grammar.Basic
import Bson.Writer

/-!
# The layout of a value

What a value is encoded as, said without a sink: the tree of the value is built from the trees of
its parts, and a length is that of the bytes of the parts, which are there when it is needed.

* `Layout.payload`, `Layout.fields`, `Layout.items`: the trees. `Layout.document`: that of a
  document.
* `Layout.frame`: a frame around elements, unless too many are open around it.
* `Layout.payload_isFault`: what has no layout has a fault in a key, a hook or the nesting.
* `Layout.payload_measured`: if the bytes of a tree fit under a length field, every length in it is
  right, those that do not count when it is read included.

A fault is the first that is met on the way: the nesting of a frame, then for each field its key,
its hook and its value.
-/

namespace Bson

open Grammar

namespace Grammar

/-- Elements with another one at the end. -/
def Elements.snoc : Elements → String → Payload → Elements
  | .nil, key, p => .cons key p .nil
  | .cons k q rest, key, p => .cons k q (rest.snoc key p)

theorem Elements.bytes_snoc (key : String) (p : Payload) : ∀ es : Elements,
    (es.snoc key p).bytes = es.bytes ++ (p.tag.toByte :: (cstring key ++ p.bytes))
  | .nil => by simp [snoc, bytes]
  | .cons k q rest => by simp [snoc, bytes, bytes_snoc key p rest]

theorem Elements.measured_snoc {outer : Bool} (key : String) (p : Payload) : ∀ es : Elements,
    (es.snoc key p).Measured outer ↔ es.Measured outer ∧ p.Measured outer
  | .nil => by simp [snoc, Measured]
  | .cons k q rest => by simp [snoc, Measured, measured_snoc key p rest, and_assoc]

theorem Elements.clean_snoc (key : String) (p : Payload) : ∀ es : Elements,
    (es.snoc key p).Clean ↔ es.Clean ∧ NulFree key ∧ p.Clean
  | .nil => by simp [snoc, Clean]
  | .cons k q rest => by simp [snoc, Clean, clean_snoc key p rest, and_assoc]

theorem Elements.depth_snoc (key : String) (p : Payload) : ∀ es : Elements,
    (es.snoc key p).depth = max es.depth p.depth
  | .nil => by simp [snoc, depth]
  | .cons k q rest => by simp [snoc, depth, depth_snoc key p rest, Nat.max_assoc]

theorem Elements.document_snoc (promote : Bool) (key : String) (p : Payload) :
    ∀ (es : Elements) (d : Document),
      (es.snoc key p).document promote d = (es.document promote d).insert key (p.value promote)
  | .nil, d => by simp [snoc, document]
  | .cons k q rest, d => by simp [snoc, document, document_snoc promote key p rest]

end Grammar

namespace Layout

/-- The length in front of a text. -/
def textLength (s : String) : Int32 := Int32.ofNat ((utf8 s).length + 1)

/-- The length in front of a frame with given bytes in it. -/
def frameLength (body : List UInt8) : Int32 := Int32.ofNat (body.length + 5)

/-- A text. -/
def text (make : Int32 → String → Payload) (s : String) : Payload := make (textLength s) s

/-- A frame, unless too many are open around it. -/
def frame (make : Int32 → Elements → Payload) (depth : Nat) (body : Except Error Elements) :
    Except Error Payload := do
  if maxDepth ≤ depth then throw (.nestingTooDeep maxDepth)
  let es ← body
  return make (frameLength es.bytes) es

/-- Code with the frame of its scope. -/
def codeWithScope (source : String) (scopeLength : Int32) (scope : Elements) : Payload :=
  .scopedCode
    (Int32.ofNat ((enclosed (textLength source) (utf8 source)).length +
      (enclosed scopeLength scope.bytes).length + 4))
    (textLength source) source scopeLength scope

/-- Binary data; the old subtype repeats its length. -/
def binary (subtype : UInt8) (data : ByteArray) : Payload :=
  let length := Int32.ofNat data.size
  if subtype = oldBinarySubtype then .oldBinary length length data
  else .binary length subtype data

/-- A number: as a 32-bit integer if it is one, else as a double. -/
def number (x : Double) : Payload :=
  match x.toInt32? with
  | some n => .int32 n
  | none => .double x

/-- The fields of a reference, given what its id is laid out as. -/
def reference (collection : String) (id : Payload) (database : Option String) : Elements :=
  .cons refKey (text .string collection) (.cons idKey id
    (match database with
      | some database => .cons dbKey (text .string database) .nil
      | none => .nil))

/-- Refuses a key that breaks the rule, if keys are checked. -/
def checkKey (options : WriteOptions) (key : String) : Except Error Unit :=
  if options.checkKeys then Key.check key else .ok ()

theorem checkKey_of_unchecked {options : WriteOptions} (hkeys : options.checkKeys = false)
    (key : String) : checkKey options key = .ok () :=
  if_neg (Bool.eq_false_iff.1 hkeys)

mutual

/-- The payload of a value with a number of frames open around it. -/
def payload (options : WriteOptions) (depth : Nat) : Value → Except Error Payload
  | .double x => .ok (number x)
  | .boxedDouble x => .ok (.double x)
  | .int32 n => .ok (.int32 n)
  | .long n => .ok (.int64 n.low n.high)
  | .string s => .ok (text .string s)
  | .document d => frame .document depth (fields options (depth + 1) d.entries)
  | .array list => frame .array depth (items options (depth + 1) 0 list)
  | .binary b => .ok (binary b.subtype b.data)
  | .bytes data => .ok (binary genericSubtype data)
  | .objectId id => .ok (.objectId id)
  | .boolean b => .ok (.boolean (if b then 1 else 0))
  | .dateTime millis => .ok (.dateTime millis)
  | .null => .ok .null
  | .undefined => .ok .null
  | .regex r => .ok (.regex r.pattern r.flags.toOptions)
  | .code source => .ok (text .code source)
  | .scopedCode source scope =>
    if scope.isEmpty then .ok (text .code source)
    else frame (codeWithScope source) depth (fields options (depth + 1) scope.entries)
  | .function source => .ok (text .code source)
  | .symbol s => .ok (text .symbol s)
  | .timestamp t => .ok (.timestamp t.low t.high)
  | .minKey => .ok .minKey
  | .maxKey => .ok .maxKey
  | .dbRef collection id database => frame .document depth do
    let p ← payload options (depth + 1) id
    return reference collection p database
  | .hook _ result =>
    if result.isConvertible then .error (.hookInvalid .returnedHook)
    else payload options depth result
  | .brokenHook slot => .error (.hookInvalid (.notCallable slot.kind))

/-- The elements of the fields of a document, without those that are left out. -/
def fields (options : WriteOptions) (depth : Nat) :
    {keys : List String} → Entries Value keys → Except Error Elements
  | _, .nil => .ok .nil
  | _, .snoc init key v _ => do
    let front ← fields options depth init
    checkKey options key
    if Writer.isDropped options v then return front
    else return front.snoc key (← payload options depth v)

/-- The elements of the items of an array, the first of them under a given index. -/
def items (options : WriteOptions) (depth : Nat) : Nat → List Value → Except Error Elements
  | _, [] => .ok .nil
  | index, v :: rest => do
    let p ← payload options depth v
    let es ← items options depth (index + 1) rest
    return .cons (toString index) p es

end

/-- The frame of a document. -/
def document (options : WriteOptions) (d : Document) : Except Error Payload :=
  frame .document 0 (fields options 1 d.entries)

/-! ### Faults -/

/-- Whether the reason of an error lies in a document: in a key, a hook or the nesting. -/
def IsFault : Error → Prop
  | .keyInvalid _ _ | .hookInvalid _ | .nestingTooDeep _ => True
  | _ => False

theorem bind_eq_error {α β : Type} {x : Except Error α} {f : α → Except Error β} {e : Error} :
    x >>= f = .error e ↔ x = .error e ∨ ∃ a, x = .ok a ∧ f a = .error e := by
  change Except.bind x f = _ ↔ _
  cases x <;> simp [Except.bind]

theorem frame_isFault {make : Int32 → Elements → Payload} {depth : Nat}
    {body : Except Error Elements} {e : Error} (h : frame make depth body = .error e)
    (hbody : body = .error e → IsFault e) : IsFault e := by
  unfold frame at h
  split at h
  · cases h
    trivial
  · rcases bind_eq_error.1 h with h | ⟨es, -, h⟩
    · exact hbody h
    · cases h

theorem checkKey_isFault {options : WriteOptions} {key : String} {e : Error}
    (h : checkKey options key = .error e) : IsFault e := by
  unfold checkKey Key.check at h
  split at h
  · split at h
    · cases h
      trivial
    · cases h
  · cases h

mutual

/-- A value without a layout has a fault. -/
theorem payload_isFault {options : WriteOptions} {e : Error} : ∀ (v : Value) {depth : Nat},
    payload options depth v = .error e → IsFault e
  | .double _, _, h | .boxedDouble _, _, h | .int32 _, _, h | .long _, _, h | .string _, _, h
  | .binary _, _, h | .bytes _, _, h | .objectId _, _, h | .boolean _, _, h | .dateTime _, _, h
  | .null, _, h | .undefined, _, h | .regex _, _, h | .code _, _, h | .function _, _, h
  | .symbol _, _, h | .timestamp _, _, h | .minKey, _, h | .maxKey, _, h => nomatch h
  | .document d, _, h => frame_isFault h (fields_isFault d.entries)
  | .array list, _, h => frame_isFault h (items_isFault list)
  | .scopedCode source scope, _, h => by
    rw [payload] at h
    split at h
    · cases h
    · exact frame_isFault h (fields_isFault scope.entries)
  | .dbRef collection id database, _, h => by
    refine frame_isFault h fun hbody => ?_
    rcases bind_eq_error.1 hbody with hid | ⟨p, -, hp⟩
    · exact payload_isFault id hid
    · cases hp
  | .hook _ result, _, h => by
    rw [payload] at h
    split at h
    · cases h
      trivial
    · exact payload_isFault result h
  | .brokenHook _, _, h => by
    cases h
    trivial

/-- The same of the fields of a document. -/
theorem fields_isFault {options : WriteOptions} {e : Error} :
    ∀ {keys : List String} (entries : Entries Value keys) {depth : Nat},
      fields options depth entries = .error e → IsFault e
  | _, .nil, _, h => nomatch h
  | _, .snoc init key v _, _, h => by
    rw [fields] at h
    rcases bind_eq_error.1 h with hinit | ⟨front, -, h⟩
    · exact fields_isFault init hinit
    · rcases bind_eq_error.1 h with hkey | ⟨_, -, h⟩
      · exact checkKey_isFault hkey
      · split at h
        · cases h
        · rcases bind_eq_error.1 h with hv | ⟨p, -, hp⟩
          · exact payload_isFault v hv
          · cases hp

/-- The same of the items of an array. -/
theorem items_isFault {options : WriteOptions} {e : Error} :
    ∀ (list : List Value) {depth index : Nat},
      items options depth index list = .error e → IsFault e
  | [], _, _, h => nomatch h
  | v :: rest, _, _, h => by
    rw [items] at h
    rcases bind_eq_error.1 h with hv | ⟨p, -, h⟩
    · exact payload_isFault v hv
    · rcases bind_eq_error.1 h with hrest | ⟨es, -, hes⟩
      · exact items_isFault rest hrest
      · cases hes

end

/-- A document without a layout has a fault. -/
theorem document_isFault {options : WriteOptions} {d : Document} {e : Error}
    (h : document options d = .error e) : IsFault e :=
  payload_isFault (.document d) h

/-! ### Lengths -/

theorem toInt_ofNat {n : Nat} (h : n ≤ maxLengthField) : (Int32.ofNat n).toInt = n := by
  rw [maxLengthField] at h
  exact Int32.toInt_ofNat_of_lt (by omega)

theorem toNat_toUInt32_ofNat {n : Nat} (h : n ≤ maxLengthField) :
    (Int32.ofNat n).toUInt32.toNat = n := by
  change (UInt32.ofNat n).toNat = n
  exact UInt32.toNat_ofNat_of_lt' (Nat.lt_of_le_of_lt h (by decide))

theorem frame_eq_ok {make : Int32 → Elements → Payload} {depth : Nat}
    {body : Except Error Elements} {p : Payload} :
    frame make depth body = .ok p ↔
      depth < maxDepth ∧ ∃ es, body = .ok es ∧ p = make (frameLength es.bytes) es := by
  unfold frame
  split
  · rename_i h
    exact ⟨nofun, fun hp => absurd hp.1 (Nat.not_lt.2 h)⟩
  · rename_i h
    cases body with
    | error e => exact ⟨nofun, fun ⟨_, _, he, _⟩ => nomatch he⟩
    | ok es =>
      change Except.ok _ = _ ↔ _
      simp [Nat.not_le.1 h, eq_comm]

theorem fields_snoc_eq_ok {options : WriteOptions} {depth : Nat} {keys : List String}
    {init : Entries Value keys} {key : String} {v : Value} {fresh : key ∉ keys} {es : Elements} :
    fields options depth (init.snoc key v fresh) = .ok es ↔
      ∃ front, fields options depth init = .ok front ∧ checkKey options key = .ok () ∧
        if Writer.isDropped options v then es = front
        else ∃ p, payload options depth v = .ok p ∧ es = front.snoc key p := by
  rw [fields, Error.bind_eq_ok]
  simp only [Error.bind_eq_ok]
  constructor
  · rintro ⟨front, hfront, u, hkey, hes⟩
    refine ⟨front, hfront, hkey, ?_⟩
    split at hes
    · rw [if_pos ‹_›]
      cases hes
      rfl
    · rw [if_neg ‹_›]
      obtain ⟨p, hp, hes⟩ := Error.bind_eq_ok.1 hes
      cases hes
      exact ⟨p, hp, rfl⟩
  · rintro ⟨front, hfront, hkey, hes⟩
    refine ⟨front, hfront, (), hkey, ?_⟩
    split at hes
    · rw [if_pos ‹_›, hes]
      rfl
    · rw [if_neg ‹_›]
      obtain ⟨p, hp, rfl⟩ := hes
      exact Error.bind_eq_ok.2 ⟨p, hp, rfl⟩

theorem items_cons_eq_ok {options : WriteOptions} {depth index : Nat} {v : Value}
    {rest : List Value} {es : Elements} :
    items options depth index (v :: rest) = .ok es ↔
      ∃ p, payload options depth v = .ok p ∧
        ∃ tail, items options depth (index + 1) rest = .ok tail ∧
          es = .cons (toString index) p tail := by
  rw [items, Error.bind_eq_ok]
  constructor
  · rintro ⟨p, hp, hes⟩
    obtain ⟨tail, htail, hes⟩ := Error.bind_eq_ok.1 hes
    cases hes
    exact ⟨p, hp, tail, htail, rfl⟩
  · rintro ⟨p, hp, tail, htail, rfl⟩
    exact ⟨p, hp, Error.bind_eq_ok.2 ⟨tail, htail, rfl⟩⟩

variable {outer : Bool}

theorem text_measured {make : Int32 → String → Payload} {s : String}
    (hmake : ∀ n, (make n s).Measured outer ↔ MeasuresText n s)
    (hbytes : ∀ n, (make n s).bytes = enclosed n (utf8 s))
    (h : (text make s).bytes.length ≤ maxLengthField) : (text make s).Measured outer := by
  rw [text] at h ⊢
  rw [hbytes, length_enclosed] at h
  rw [hmake, MeasuresText, textLength, toInt_ofNat (by omega)]
  rfl

theorem number_measured (x : Double) : (number x).Measured outer := by
  unfold number
  split <;> trivial

theorem binary_measured {subtype : UInt8} {data : ByteArray}
    (h : (binary subtype data).bytes.length ≤ maxLengthField) :
    (binary subtype data).Measured outer := by
  have hdata := length_toList_data data
  unfold binary at h ⊢
  by_cases hold : subtype = oldBinarySubtype
  · simp only [if_pos hold, Payload.bytes, List.length_append, List.length_cons] at h
    simp only [if_pos hold, Payload.Measured]
    exact ⟨toInt_ofNat (by omega), fun _ => trivial⟩
  · simp only [if_neg hold, Payload.bytes, List.length_append, List.length_cons] at h
    simp only [if_neg hold, Payload.Measured]
    exact toInt_ofNat (by omega)

/-- The length of a frame is that of its bytes, if those fit under a length field. -/
theorem frameLength_measures {body : List UInt8}
    (h : (enclosed (frameLength body) body).length ≤ maxLengthField) :
    MeasuresFrame (frameLength body) body := by
  rw [length_enclosed] at h
  rw [MeasuresFrame, length_enclosed, frameLength, toNat_toUInt32_ofNat h]

theorem length_document (es : Elements) :
    (Payload.document (frameLength es.bytes) es).bytes.length = es.bytes.length + 5 :=
  length_enclosed _ es.bytes

theorem length_array (es : Elements) :
    (Payload.array (frameLength es.bytes) es).bytes.length = es.bytes.length + 5 :=
  length_enclosed _ es.bytes

/-- A reference takes what its id takes, and what it takes around an id without bytes. -/
theorem length_reference (collection : String) (id : Payload) (database : Option String) :
    (reference collection id database).bytes.length =
      id.bytes.length + (reference collection .null database).bytes.length := by
  simp only [reference, bytes_cons, List.length_cons, List.length_append, Payload.bytes,
    List.length_nil]
  omega

theorem length_codeWithScope (source : String) (scope : Elements) :
    (codeWithScope source (frameLength scope.bytes) scope).bytes.length =
      (utf8 source).length + scope.bytes.length + 14 := by
  simp only [codeWithScope, Payload.bytes, List.length_append, length_int32, length_enclosed]
  omega

theorem codeWithScope_measured {source : String} {scope : Elements}
    (h : (codeWithScope source (frameLength scope.bytes) scope).bytes.length ≤ maxLengthField)
    (hscope : scope.bytes.length ≤ maxLengthField → scope.Measured outer) :
    (codeWithScope source (frameLength scope.bytes) scope).Measured outer := by
  have hlen := length_codeWithScope source scope
  have htext := length_enclosed (textLength source) (utf8 source)
  have hframe := length_enclosed (frameLength scope.bytes) scope.bytes
  refine ⟨(toInt_ofNat (by omega)).trans (congrArg Nat.cast ?_), ?_,
    frameLength_measures (by omega), hscope (by omega)⟩
  · change _ = (codeWithScope source (frameLength scope.bytes) scope).bytes.length
    omega
  · rw [MeasuresText, textLength, toInt_ofNat (by omega)]
    rfl

theorem reference_measured {collection : String} {id : Payload} {database : Option String}
    (h : (reference collection id database).bytes.length ≤ maxLengthField)
    (hid : id.bytes.length ≤ maxLengthField → id.Measured outer) :
    (reference collection id database).Measured outer := by
  have htext : ∀ s, (text .string s).bytes.length ≤ maxLengthField →
      (text .string s).Measured outer := fun s =>
    text_measured (fun _ => Iff.rfl) fun _ => rfl
  simp only [reference, bytes_cons, List.length_append, List.length_cons] at h
  refine ⟨htext collection (by omega), hid (by omega), ?_⟩
  cases database with
  | none => trivial
  | some database =>
    simp only [bytes_cons, List.length_append, List.length_cons] at h
    exact ⟨htext database (by omega), trivial⟩

variable {options : WriteOptions}

mutual

/-- If the bytes of a payload fit under a length field, every length in it is that of what it
stands in front of. -/
theorem payload_measured : ∀ (v : Value) {depth : Nat} {p : Payload},
    payload options depth v = .ok p → p.bytes.length ≤ maxLengthField → p.Measured outer
  | .double x, _, _, h, _ => by
    cases h
    exact number_measured x
  | .boxedDouble _, _, _, h, _ | .int32 _, _, _, h, _ | .long _, _, _, h, _
  | .objectId _, _, _, h, _ | .boolean _, _, _, h, _ | .dateTime _, _, _, h, _ | .null, _, _, h, _
  | .undefined, _, _, h, _ | .regex _, _, _, h, _ | .timestamp _, _, _, h, _ | .minKey, _, _, h, _
  | .maxKey, _, _, h, _ => by
    cases h
    trivial
  | .string s, _, _, h, hl | .code s, _, _, h, hl | .function s, _, _, h, hl
  | .symbol s, _, _, h, hl => by
    cases h
    exact text_measured (fun _ => Iff.rfl) (fun _ => rfl) hl
  | .binary _, _, _, h, hl | .bytes _, _, _, h, hl => by
    cases h
    exact binary_measured hl
  | .document d, _, _, h, hl => by
    obtain ⟨_, es, hes, rfl⟩ := frame_eq_ok.1 h
    have hbody := length_enclosed (frameLength es.bytes) es.bytes
    rw [Payload.bytes] at hl
    exact ⟨frameLength_measures hl, fields_measured d.entries hes (by omega)⟩
  | .array list, _, _, h, hl => by
    obtain ⟨_, es, hes, rfl⟩ := frame_eq_ok.1 h
    have hbody := length_enclosed (frameLength es.bytes) es.bytes
    rw [Payload.bytes] at hl
    exact ⟨frameLength_measures hl, items_measured list hes (by omega)⟩
  | .scopedCode source scope, _, _, h, hl => by
    rw [payload] at h
    split at h
    · cases h
      exact text_measured (fun _ => Iff.rfl) (fun _ => rfl) hl
    · obtain ⟨_, es, hes, rfl⟩ := frame_eq_ok.1 h
      exact codeWithScope_measured hl fun hl => fields_measured scope.entries hes hl
  | .dbRef collection id database, _, _, h, hl => by
    obtain ⟨_, es, hes, rfl⟩ := frame_eq_ok.1 h
    obtain ⟨p, hp, hes⟩ := Error.bind_eq_ok.1 hes
    cases hes
    have hbody := length_enclosed (frameLength (reference collection p database).bytes)
      (reference collection p database).bytes
    rw [Payload.bytes] at hl
    exact ⟨frameLength_measures hl,
      reference_measured (by omega) fun hl => payload_measured id hp hl⟩
  | .hook _ result, _, _, h, hl => by
    rw [payload] at h
    split at h
    · cases h
    · exact payload_measured result h hl
  | .brokenHook _, _, _, h, _ => nomatch h

/-- The same of the fields of a document. -/
theorem fields_measured : ∀ {keys : List String} (entries : Entries Value keys) {depth : Nat}
    {es : Elements}, fields options depth entries = .ok es →
      es.bytes.length ≤ maxLengthField → es.Measured outer
  | _, .nil, _, _, h, _ => by
    cases h
    trivial
  | _, .snoc init key v _, _, _, h, hl => by
    obtain ⟨front, hfront, _, hes⟩ := fields_snoc_eq_ok.1 h
    split at hes
    · subst hes
      exact fields_measured init hfront hl
    · obtain ⟨p, hp, rfl⟩ := hes
      rw [Elements.bytes_snoc, List.length_append, List.length_cons, List.length_append] at hl
      exact (Elements.measured_snoc key p front).2
        ⟨fields_measured init hfront (by omega), payload_measured v hp (by omega)⟩

/-- The same of the items of an array. -/
theorem items_measured : ∀ (list : List Value) {depth index : Nat} {es : Elements},
    items options depth index list = .ok es → es.bytes.length ≤ maxLengthField → es.Measured outer
  | [], _, _, _, h, _ => by
    cases h
    trivial
  | v :: rest, _, _, _, h, hl => by
    obtain ⟨p, hp, tail, htail, rfl⟩ := items_cons_eq_ok.1 h
    rw [bytes_cons, List.length_cons, List.length_append, List.length_append] at hl
    exact ⟨payload_measured v hp (by omega), items_measured rest htail (by omega)⟩

end

end Layout

end Bson
