import Bson.Limits
import Bson.Value.Basic

/-!
# Documents that stand for references

A document with a text under `$ref`, a value under `$id` and a text, if anything, under `$db` is a
reference; its other fields do not count.
-/

namespace Bson

namespace Value

/-- The text of a string value. -/
def asString? : Value → Option String
  | .string s => some s
  | _ => none

end Value

namespace OrderedMap

/-- The database that a document names; the outer `none` says that what it holds is no name. -/
def database? (d : Document) : Option (Option String) :=
  match d.get? dbKey with
  | none => some none
  | some v => v.asString?.map some

/-- The reference that a document stands for. -/
def reference? (d : Document) : Option Value := do
  let collection ← (d.get? refKey).bind Value.asString?
  let id ← d.get? idKey
  let database ← d.database?
  return .dbRef collection id database

/-- The document, or the reference that it stands for. -/
def asReference (d : Document) : Value := d.reference?.getD (.document d)

theorem reference?_eq_some {d : Document} {v : Value} :
    d.reference? = some v ↔ ∃ collection id database,
      (d.get? refKey).bind Value.asString? = some collection ∧ d.get? idKey = some id ∧
        d.database? = some database ∧ v = .dbRef collection id database := by
  simp only [reference?, Option.bind_eq_bind, Option.bind_eq_some_iff, Option.pure_def,
    Option.some.injEq]
  constructor
  · rintro ⟨collection, hcollection, id, hid, database, hdatabase, rfl⟩
    exact ⟨collection, id, database, hcollection, hid, hdatabase, rfl⟩
  · rintro ⟨collection, id, database, hcollection, hid, hdatabase, rfl⟩
    exact ⟨collection, hcollection, id, hid, database, hdatabase, rfl⟩

theorem bind_asString?_eq_some {v : Option Value} {s : String} :
    v.bind Value.asString? = some s ↔ v = some (.string s) := by
  rw [Option.bind_eq_some_iff]
  constructor
  · rintro ⟨w, rfl, hw⟩
    cases w <;> cases hw
    rfl
  · rintro rfl
    exact ⟨_, rfl, rfl⟩

/-- A document that names a database holds its name. -/
theorem get?_dbKey_of_database? {d : Document} {database : String}
    (h : d.database? = some (some database)) : d.get? dbKey = some (.string database) := by
  unfold database? at h
  cases hv : d.get? dbKey with
  | none =>
    rw [hv] at h
    cases h
  | some v =>
    rw [hv] at h
    cases v <;> cases h
    rfl

theorem asReference_of_none {d : Document} (h : d.reference? = none) :
    d.asReference = .document d := by
  rw [asReference, h]
  rfl

/-- A document stays one, or becomes the reference whose parts it holds. -/
theorem asReference_cases (d : Document) :
    (d.reference? = none ∧ d.asReference = .document d) ∨
      ∃ collection id database, d.asReference = .dbRef collection id database ∧
        d.get? refKey = some (.string collection) ∧ d.get? idKey = some id ∧
          d.database? = some database := by
  cases href : d.reference? with
  | none => exact .inl ⟨rfl, asReference_of_none href⟩
  | some v =>
    obtain ⟨collection, id, database, hcollection, hid, hdatabase, rfl⟩ := reference?_eq_some.1 href
    refine .inr ⟨collection, id, database, ?_, bind_asString?_eq_some.1 hcollection, hid, hdatabase⟩
    rw [asReference, href]
    rfl

theorem asString?_asReference (d : Document) : d.asReference.asString? = none := by
  rcases d.asReference_cases with ⟨-, h⟩ | ⟨_, _, _, h, -⟩
  · rw [h]
    rfl
  · rw [h]
    rfl

/-- Documents that hold the same texts, and values under the same keys, stand for references
alike. -/
theorem reference?_rel {R : Value → Value → Prop} {d e : Document}
    (hR : ∀ key v w, d.get? key = some v → e.get? key = some w → R v w →
      v.asString? = w.asString?)
    (h : d.Rel R e) :
    (d.reference? = none ∧ e.reference? = none) ∨
      ∃ collection id id' database, d.reference? = some (.dbRef collection id database) ∧
        e.reference? = some (.dbRef collection id' database) ∧ R id id' := by
  have htext : (d.get? refKey).bind Value.asString? = (e.get? refKey).bind Value.asString? := by
    rcases h.cases refKey with ⟨hv, hw⟩ | ⟨v, w, hv, hw, hvw⟩
    · rw [hv, hw]
    · rw [hv, hw]
      exact hR _ _ _ hv hw hvw
  have hdatabase : d.database? = e.database? := by
    unfold database?
    rcases h.cases dbKey with ⟨hv, hw⟩ | ⟨v, w, hv, hw, hvw⟩
    · rw [hv, hw]
    · rw [hv, hw]
      exact congrArg (Option.map some) (hR _ _ _ hv hw hvw)
  -- of the three parts only the ids differ
  unfold reference?
  rw [htext, hdatabase]
  cases (e.get? refKey).bind Value.asString? with
  | none => exact .inl ⟨rfl, rfl⟩
  | some collection =>
    rcases h.cases idKey with ⟨hv, hw⟩ | ⟨v, w, hv, hw, hvw⟩
    · rw [hv, hw]
      exact .inl ⟨rfl, rfl⟩
    · rw [hv, hw]
      cases e.database? with
      | none => exact .inl ⟨rfl, rfl⟩
      | some database => exact .inr ⟨collection, v, w, database, rfl, rfl, hvw⟩

/-- A document that is no reference does not become one as long as texts stay texts and nothing
else becomes one. -/
theorem reference?_eq_none_of_rel {d e : Document}
    (h : d.Rel (fun v w => w.asString? = v.asString?) e) (hnone : d.reference? = none) :
    e.reference? = none := by
  rcases reference?_rel (fun _ _ _ _ _ htext => htext.symm) h with
    ⟨-, he⟩ | ⟨_, _, _, _, hd, -, -⟩
  · exact he
  · rw [hnone] at hd
    cases hd

end OrderedMap

end Bson
