import Bson.Proofs.ExtendedJson.RoundTrip
import Bson.Proofs.RoundTrip.Readable

/-!
# The canonical form of extended JSON

JSON that is read and written again is in canonical form: another round changes nothing, however it
was spelled first. Plain JSON is in canonical form already.

* `Settled`: values that JSON can be read as. `toValue_settled`: no other is read.
* `ofValue_restored`: a settled value and what is restored of it are written alike.
* `Plain`: JSON without keys that start with a dollar sign and without numbers that are rounded.
* `canonical`: the canonical form. `canonical_idempotent`: the two statements about it.
-/

namespace Bson.ExtendedJson

/-! ### Values that are read -/

mutual

/-- Whether JSON can be read as a value: no hook, and no document, but for the scope of code, in the
shape of code, of a wrapper or of a reference. -/
def Settled : Value → Prop
  | .document d => IsOrdinary d ∧ d.reference? = none ∧ SettledFields d.entries
  | .array items => SettledItems items
  | .scopedCode _ scope => SettledFields scope.entries
  | .dbRef _ id _ => Settled id
  | .hook _ _ | .brokenHook _ => False
  | _ => True

/-- The same of fields. -/
def SettledFields : {keys : List String} → Entries Value keys → Prop
  | _, .nil => True
  | _, .snoc init _ v _ => SettledFields init ∧ Settled v

/-- The same of items. -/
def SettledItems : List Value → Prop
  | [] => True
  | v :: rest => Settled v ∧ SettledItems rest

end

mutual

theorem Settled.unmistakable : ∀ (v : Value), Settled v → Unmistakable v
  | .document d, h => ⟨h.1, SettledFields.unmistakable d.entries h.2.2⟩
  | .array items, h => SettledItems.unmistakable items h
  | .scopedCode _ scope, h => SettledFields.unmistakable scope.entries h
  | .dbRef _ id _, h => Settled.unmistakable id h
  | .double _, _ | .boxedDouble _, _ | .int32 _, _ | .long _, _ | .string _, _ | .binary _, _
  | .bytes _, _ | .objectId _, _ | .boolean _, _ | .dateTime _, _ | .null, _ | .undefined, _
  | .regex _, _ | .code _, _ | .function _, _ | .symbol _, _ | .timestamp _, _ | .minKey, _
  | .maxKey, _ => trivial

theorem SettledFields.unmistakable : ∀ {keys : List String} (entries : Entries Value keys),
    SettledFields entries → UnmistakableFields entries
  | _, .nil, _ => trivial
  | _, .snoc init _ v _, h => ⟨SettledFields.unmistakable init h.1, Settled.unmistakable v h.2⟩

theorem SettledItems.unmistakable : ∀ (items : List Value),
    SettledItems items → UnmistakableItems items
  | [], _ => trivial
  | v :: rest, h => ⟨Settled.unmistakable v h.1, SettledItems.unmistakable rest h.2⟩

end

theorem settledFields_iff {keys : List String} (entries : Entries Value keys) :
    SettledFields entries ↔ ∀ p ∈ entries.toList, Settled p.2 := by
  induction entries with
  | nil => exact ⟨fun _ _ h => absurd h List.not_mem_nil, fun _ => trivial⟩
  | snoc init key v fresh ih => rw [SettledFields, ih, Entries.forall_mem_toList_snoc]

theorem SettledFields.get? {keys : List String} {entries : Entries Value keys}
    (h : SettledFields entries) {key : String} {v : Value} (hv : entries.get? key = some v) :
    Settled v :=
  (settledFields_iff entries).1 h _ (Entries.mem_toList_of_get? hv)

/-- The fields of an ordinary object become a document or a reference. -/
theorem asReference_settled {d : Document} (hordinary : IsOrdinary d)
    (h : SettledFields d.entries) : Settled d.asReference := by
  rcases d.asReference_cases with ⟨hnone, href⟩ | ⟨_, id, _, href, -, hid, -⟩
  · rw [href]
    exact ⟨hordinary, hnone, h⟩
  · rw [href]
    exact SettledFields.get? (v := id) h hid

/-! ### What is read is settled -/

theorem wraps_settled {α : Type} {x : Except Error α} {f : α → Value} (hf : ∀ a, Settled (f a))
    {v : Value} (h : some (do return f (← x)) = some (.ok v)) : Settled v := by
  obtain ⟨a, -, hv⟩ := Error.bind_eq_ok.1 (Option.some.inj h)
  cases hv
  exact hf a

theorem unwrap?_settled {key : String} {j : Json} {v : Value}
    (h : unwrap? key j = some (.ok v)) : Settled v := by
  rcases mem_wrapperKeys.1 (mem_wrapperKeys_of_unwrap? h) with
    rfl | rfl | rfl | rfl | rfl | rfl | rfl | rfl | rfl | rfl | rfl | rfl
  · exact wraps_settled (f := .objectId) (fun _ => trivial) h
  · exact wraps_settled (f := .dateTime) (fun _ => trivial) h
  · exact wraps_settled (f := .int32) (fun _ => trivial) h
  · exact wraps_settled (f := fun n => .long (.ofInt64 n)) (fun _ => trivial) h
  · exact wraps_settled (f := .double) (fun _ => trivial) h
  · exact wraps_settled (f := .binary) (fun _ => trivial) h
  · exact wraps_settled (f := .regex) (fun _ => trivial) h
  · exact wraps_settled (f := .timestamp) (fun _ => trivial) h
  · exact wraps_settled (f := .symbol) (fun _ => trivial) h
  -- the content of the last three does not count
  · cases h
    trivial
  · cases h
    trivial
  · cases h
    trivial

theorem codeWith_settled (source : String) {scope : Option Document}
    (h : ∀ d, scope = some d → SettledFields d.entries) : Settled (codeWith source scope) := by
  cases scope with
  | none => trivial
  | some d => exact h d rfl

mutual

/-- What JSON is read as is settled. -/
theorem toValue_settled : ∀ (j : Json) {v : Value}, toValue j = .ok v → Settled v
  | .null, _, h | .bool _, _, h | .double _, _, h | .string _, _, h | .largeInteger _, _, h => by
    rw [toValue] at h
    cases h
    trivial
  | .integer n, _, h => by
    rw [toValue] at h
    cases h
    unfold ofInteger
    split <;> trivial
  | .array items, _, h => by
    rw [toValue] at h
    obtain ⟨values, hvalues, hv⟩ := Error.bind_eq_ok.1 h
    cases hv
    exact toItems_settled items hvalues
  | .object fields, _, h => by
    rw [toValue] at h
    split at h
    · obtain ⟨source, -, h⟩ := Error.bind_eq_ok.1 h
      obtain ⟨scope, hscope, h⟩ := Error.bind_eq_ok.1 h
      cases h
      exact codeWith_settled source fun d hd => toScope_settled fields.entries (hd ▸ hscope)
    · rename_i hcode
      split at h
      · rename_i result hresult
        unfold wrapped? at hresult
        split at hresult
        · exact unwrap?_settled (h ▸ hresult)
        · cases hresult
      · rename_i hwrapped
        obtain ⟨values, hvalues, h⟩ := Error.bind_eq_ok.1 h
        cases h
        have hordinary : IsOrdinary fields :=
          ⟨OrderedMap.get?_eq_none_iff.1 hcode, wrapped?_eq_none_iff.1 hwrapped⟩
        exact asReference_settled ⟨hordinary.no_code, hordinary.no_wrapper⟩
          (toEntries_settled fields.entries hvalues)

/-- So are fields. -/
theorem toEntries_settled : ∀ {keys : List String} (entries : Entries Json keys)
    {values : Entries Value keys}, toEntries entries = .ok values → SettledFields values
  | _, .nil, _, h => by
    rw [toEntries] at h
    cases h
    trivial
  | _, .snoc init key j fresh, _, h => by
    rw [toEntries] at h
    obtain ⟨front, hfront, h⟩ := Error.bind_eq_ok.1 h
    obtain ⟨v, hv, h⟩ := Error.bind_eq_ok.1 h
    cases h
    exact ⟨toEntries_settled init hfront, toValue_settled j hv⟩

/-- So are items. -/
theorem toItems_settled : ∀ (items : List Json) {values : List Value},
    toItems items = .ok values → SettledItems values
  | [], _, h => by
    rw [toItems] at h
    cases h
    trivial
  | j :: rest, _, h => by
    rw [toItems] at h
    obtain ⟨v, hv, h⟩ := Error.bind_eq_ok.1 h
    obtain ⟨tail, htail, h⟩ := Error.bind_eq_ok.1 h
    cases h
    exact ⟨toValue_settled j hv, toItems_settled rest htail⟩

/-- So are the fields of a scope. -/
theorem toScope_settled : ∀ {keys : List String} (entries : Entries Json keys) {d : Document},
    toScope entries = .ok (some d) → SettledFields d.entries
  | _, .nil, _, h => by
    rw [toScope] at h
    cases h
  | _, .snoc init key (.object scope) fresh, _, h => by
    rw [toScope] at h
    split at h
    · obtain ⟨values, hvalues, h⟩ := Error.bind_eq_ok.1 h
      cases h
      exact toEntries_settled scope.entries hvalues
    · exact toScope_settled init h
  | _, .snoc init _ .null _, _, h | _, .snoc init _ (.bool _) _, _, h
  | _, .snoc init _ (.integer _) _, _, h | _, .snoc init _ (.largeInteger _) _, _, h
  | _, .snoc init _ (.double _) _, _, h | _, .snoc init _ (.string _) _, _, h
  | _, .snoc init _ (.array _) _, _, h => by
    rw [toScope] at h
    · split at h
      · cases h
      · exact toScope_settled init h
    · exact fun _ hobject => nomatch hobject

end

/-! ### What is restored is written alike -/

theorem get?_restoredDocument (d : Document) (key : String) :
    (restoredDocument d).get? key = (d.get? key).map restored := by
  obtain ⟨entries⟩ := d
  change (restoredEntries entries).get? key = (entries.get? key).map restored
  induction entries with
  | nil => rfl
  | snoc init k v fresh ih =>
    rw [restoredEntries, Entries.get?_snoc, Entries.get?_snoc, ih]
    split <;> rfl

/-- Texts stay texts, and nothing else becomes one. -/
theorem asString?_restored {v : Value} (h : Settled v) : (restored v).asString? = v.asString? := by
  cases v with
  | long n =>
    rw [restored, restoredLong]
    split <;> rfl
  | document d => exact OrderedMap.asString?_asReference (restoredDocument d)
  | hook _ _ => exact h.elim
  | _ => rfl

/-- A document that is no reference does not become one. -/
theorem asReference_restoredDocument {d : Document} (h : SettledFields d.entries)
    (hnone : d.reference? = none) :
    (restoredDocument d).asReference = .document (restoredDocument d) := by
  have htexts : d.Rel (fun v w => w.asString? = v.asString?) (restoredDocument d) :=
    .of_get?_eq_map (get?_restoredDocument d) fun _ _ hv =>
      asString?_restored (SettledFields.get? h hv)
  exact OrderedMap.asReference_of_none (OrderedMap.reference?_eq_none_of_rel htexts hnone)

theorem ofDouble_of_isNaN {x : Double} (h : x.isNaN) :
    ofDouble x = wrap "$numberDouble" (.string "NaN") := by
  rw [ofDouble, if_neg fun hfinite => Double.isNaN_of_isFinite hfinite h, if_pos h]

theorem ofDouble_restoredDouble (x : Double) : ofDouble (restoredDouble x) = ofDouble x := by
  unfold restoredDouble
  split
  · rename_i h
    rw [ofDouble_of_isNaN h, ofDouble_of_isNaN (by decide)]
  · rfl

/-- An integer of either width is written as the integer that it was read from. -/
theorem ofValue_ofInteger (n : Int64) : ofValue (ofInteger n) = .ok (.integer n) := by
  unfold ofInteger
  split
  · rename_i h
    have hle : -2147483648 ≤ n.toInt := h.1
    have hlt : n.toInt < 2147483648 := h.2
    have hvalue : n.toInt.bmod 4294967296 = n.toInt := by
      rw [Int.bmod_def]
      omega
    have hback : n.toInt32.toInt64 = n :=
      Int64.toInt_inj.1 (by rw [Int32.toInt_toInt64, Int64.toInt_toInt32]; exact hvalue)
    rw [ofValue, hback]
  · rw [ofValue, Long.toInt64_ofInt64]

mutual

/-- A settled value and what is restored of it are written alike. -/
theorem ofValue_restored : ∀ (v : Value), Settled v → ofValue (restored v) = ofValue v
  | .double x, _ | .boxedDouble x, _ => by
    rw [restored, ofValue, ofValue, ofDouble_restoredDouble]
  | .long n, _ => by rw [restored, ← ofInteger_restoredLong, ofValue_ofInteger, ofValue]
  | .document d, h => by
    have href := asReference_restoredDocument h.2.2 h.2.1
    rw [restoredDocument] at href
    rw [restored, href, ofValue, ofValue, ofEntries_restored d.entries h.2.2]
  | .array items, h => by rw [restored, ofValue, ofValue, ofItems_restored items h]
  | .scopedCode _ scope, h => by
    rw [restored, ofValue, ofValue, ofEntries_restored scope.entries h]
  | .dbRef _ id _, h => by rw [restored, ofValue, ofValue, ofValue_restored id h]
  | .int32 _, _ | .string _, _ | .binary _, _ | .bytes _, _ | .objectId _, _ | .boolean _, _
  | .dateTime _, _ | .null, _ | .undefined, _ | .regex _, _ | .code _, _ | .function _, _
  | .symbol _, _ | .timestamp _, _ | .minKey, _ | .maxKey, _ => rfl

/-- So are fields. -/
theorem ofEntries_restored : ∀ {keys : List String} (entries : Entries Value keys),
    SettledFields entries → ofEntries (restoredEntries entries) = ofEntries entries
  | _, .nil, _ => rfl
  | _, .snoc init key v fresh, h => by
    rw [restoredEntries, ofEntries, ofEntries, ofEntries_restored init h.1, ofValue_restored v h.2]

/-- So are items. -/
theorem ofItems_restored : ∀ (items : List Value), SettledItems items →
    ofItems (restoredItems items) = ofItems items
  | [], _ => rfl
  | v :: rest, h => by
    rw [restoredItems, ofItems, ofItems, ofValue_restored v h.1, ofItems_restored rest h.2]

end

/-! ### Plain JSON -/

mutual

/-- Whether no key in JSON starts with a dollar sign and every number is a signed 64-bit integer or
a finite double. -/
def Plain : Json → Prop
  | .largeInteger _ => False
  | .double x => x.isFinite = true
  | .array items => PlainItems items
  | .object fields => PlainFields fields.entries
  | _ => True

/-- The same of fields. -/
def PlainFields : {keys : List String} → Entries Json keys → Prop
  | _, .nil => True
  | _, .snoc init key v _ => PlainFields init ∧ key.toList.head? ≠ some '$' ∧ Plain v

/-- The same of items. -/
def PlainItems : List Json → Prop
  | [] => True
  | v :: rest => Plain v ∧ PlainItems rest

end

theorem PlainFields.head?_ne : ∀ {keys : List String} {entries : Entries Json keys} {key : String},
    PlainFields entries → key ∈ keys → key.toList.head? ≠ some '$'
  | _, .nil, _, _, hkey => absurd hkey List.not_mem_nil
  | _, .snoc init _ _ _, key, h, hkey => by
    rcases List.mem_cons.1 hkey with rfl | hkey
    · exact h.2.1
    · exact h.1.head?_ne hkey

/-- Plain objects are read as documents. -/
theorem isOrdinary_of_plain {fields : OrderedMap Json} (h : PlainFields fields.entries) :
    IsOrdinary fields := by
  have hdollar : ∀ key ∈ wrapperKeys, key.toList.head? = some '$' := by decide
  refine ⟨fun hcode => ?_, fun key hkey hkeys => ?_⟩
  · exact h.head?_ne (OrderedMap.mem_keys.1 hcode) (by decide)
  · have hmem : key ∈ fields.keys := hkeys ▸ List.mem_singleton_self key
    exact h.head?_ne (OrderedMap.mem_keys.1 hmem) (hdollar key hkey)

theorem asReference_of_plain {fields : OrderedMap Json} (h : PlainFields fields.entries)
    (values : Entries Value fields.newestFirst) :
    OrderedMap.asReference ⟨values⟩ = .document ⟨values⟩ := by
  have href : refKey ∉ fields.newestFirst := fun hmem => h.head?_ne hmem (by decide)
  have hget : (⟨values⟩ : Document).get? refKey = none := values.get?_eq_none_iff.2 href
  refine OrderedMap.asReference_of_none ?_
  rw [OrderedMap.reference?, hget]
  rfl

mutual

/-- Plain JSON is read, and written as it was. -/
theorem ofValue_toValue_plain : ∀ (j : Json), Plain j → ∃ v, toValue j = .ok v ∧ ofValue v = .ok j
  | .null, _ => ⟨_, by rw [toValue], rfl⟩
  | .bool _, _ => ⟨_, by rw [toValue], rfl⟩
  | .string _, _ => ⟨_, by rw [toValue], rfl⟩
  | .integer n, _ => ⟨_, by rw [toValue], ofValue_ofInteger n⟩
  | .double x, h =>
    have hfinite : ofDouble x = .double x := if_pos h
    ⟨.double x, by rw [toValue], congrArg Except.ok hfinite⟩
  | .array items, h => by
    obtain ⟨values, hvalues, hback⟩ := ofItems_toItems_plain items h
    refine ⟨.array values, ?_, ?_⟩
    · rw [toValue, hvalues]
      rfl
    · rw [ofValue, hback]
      rfl
  | .object fields, h => by
    obtain ⟨values, hvalues, hback⟩ := ofEntries_toEntries_plain fields.entries h
    refine ⟨.document ⟨values⟩, ?_, ?_⟩
    · rw [toValue_object (isOrdinary_of_plain h) hvalues, asReference_of_plain h]
    · rw [ofValue, hback]
      rfl

/-- So are fields. -/
theorem ofEntries_toEntries_plain : ∀ {keys : List String} (entries : Entries Json keys),
    PlainFields entries → ∃ values, toEntries entries = .ok values ∧ ofEntries values = .ok entries
  | _, .nil, _ => ⟨.nil, rfl, rfl⟩
  | _, .snoc init key j fresh, h => by
    obtain ⟨front, hfront, hinit⟩ := ofEntries_toEntries_plain init h.1
    obtain ⟨v, hv, hj⟩ := ofValue_toValue_plain j h.2.2
    exact ⟨front.snoc key v fresh, toEntries_snoc hfront hv, ofEntries_snoc hinit hj⟩

/-- So are items. -/
theorem ofItems_toItems_plain : ∀ (items : List Json), PlainItems items →
    ∃ values, toItems items = .ok values ∧ ofItems values = .ok items
  | [], _ => ⟨[], rfl, rfl⟩
  | j :: rest, h => by
    obtain ⟨v, hv, hj⟩ := ofValue_toValue_plain j h.1
    obtain ⟨tail, htail, hrest⟩ := ofItems_toItems_plain rest h.2
    exact ⟨v :: tail, toItems_cons hv htail, ofItems_cons hj hrest⟩

end

/-! ### The canonical form -/

/-- JSON that is read and written again. -/
def canonical (j : Json) : Except Error Json := do ofValue (← toValue j)

/-- **The canonical form is stable.** JSON that is read as a value has a canonical form, which is
read again and is its own canonical form. Plain JSON is always read and is its own canonical form. -/
theorem canonical_idempotent (j : Json) :
    (∀ v, toValue j = .ok v → ∃ c, ofValue v = .ok c ∧ canonical j = .ok c ∧
      (∃ w, toValue c = .ok w) ∧ canonical c = .ok c) ∧
      (Plain j → (∃ v, toValue j = .ok v) ∧ canonical j = .ok j) := by
  refine ⟨fun v hv => ?_, fun hplain => ?_⟩
  · have hsettled := toValue_settled j hv
    obtain ⟨c, hc, hback⟩ := value_restores v (Settled.unmistakable v hsettled)
    refine ⟨c, hc, ?_, ⟨_, hback⟩, ?_⟩
    · rw [canonical, hv]
      exact hc
    · rw [canonical, hback]
      exact (ofValue_restored v hsettled).trans hc
  · obtain ⟨v, hv, hj⟩ := ofValue_toValue_plain j hplain
    refine ⟨⟨v, hv⟩, ?_⟩
    rw [canonical, hv]
    exact hj

/-- A reference with a wrapped id and one field too many, a regular expression with options out of
order, and an object whose first key alone would wrap. -/
def looseJson : Json :=
  .array [.ofPairs [("$ref", .string "c"), ("$id", wrap "$numberLong" (.string "+07")),
      ("more", .bool true)],
    wrap "$regularExpression" (.ofPairs [("options", .string "mxi"), ("pattern", .string "a")]),
    .ofPairs [("$oid", .integer 1), ("y", .double ⟨0⟩)]]

/-- Its canonical form. -/
def settledJson : Json :=
  .array [.ofPairs [("$ref", .string "c"), ("$id", .integer 7)],
    wrap "$regularExpression" (.ofPairs [("pattern", .string "a"), ("options", .string "im")]),
    .ofPairs [("$oid", .integer 1), ("y", .double ⟨0⟩)]]

/-- One round gives the canonical form and the next changes nothing; a plain object is left alone
from the start. -/
theorem canonical_idempotent_loose :
    canonical looseJson = .ok settledJson ∧ canonical settledJson = .ok settledJson ∧
      canonical (.ofPairs [("b", .integer 1), ("a", .double ⟨0⟩)]) =
        .ok (.ofPairs [("b", .integer 1), ("a", .double ⟨0⟩)]) := by
  have hread : toValue looseJson = .ok (.array [.dbRef "c" (.long ⟨7, 0⟩) none,
      .regex ⟨"a", ⟨false, true, true⟩⟩,
      .document (.ofList [("$oid", .int32 1), ("y", .double ⟨0⟩)])]) := by rfl
  have hwritten : ofValue (.array [.dbRef "c" (.long ⟨7, 0⟩) none,
      .regex ⟨"a", ⟨false, true, true⟩⟩,
      .document (.ofList [("$oid", .int32 1), ("y", .double ⟨0⟩)])]) = .ok settledJson := by rfl
  obtain ⟨c, hc, hcanonical, -, hstable⟩ := (canonical_idempotent looseJson).1 _ hread
  obtain rfl : c = settledJson := Except.ok.inj (hc.symm.trans hwritten)
  have hplain : Plain (.ofPairs [("b", .integer 1), ("a", .double ⟨0⟩)]) :=
    ⟨⟨trivial, by decide, trivial⟩, by decide, rfl⟩
  exact ⟨hcanonical, hstable, ((canonical_idempotent _).2 hplain).2⟩

end Bson.ExtendedJson
