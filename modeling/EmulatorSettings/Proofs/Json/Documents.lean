import EmulatorSettings.Proofs.Ini.RoundTrip
import EmulatorSettings.Proofs.Json.Printing

/-!
# JSON documents — the sections of a file

The document with the values of a file's sections has an object for each section, an empty one for
an empty section, with a scalar for each key.

* `FileSections.plain_values`: what was read from a text holds no infinity and no NaN.
* `FileSections.member?_document_values`, `FileSections.member?_of_object`: the members of the
  document are what the look-ups in the sections find.
* `Value.shows_document`: a value has a scalar that says what its text says.
-/

namespace EmulatorSettings

open Json (Document documents Plain)

/-! ### Members -/

theorem Json.documents_eq_map (members : List (String × Json)) :
    documents members = members.map fun m => (m.1, m.2.document) := by
  induction members with
  | nil => rfl
  | cons m r ih => rw [documents, ih, List.map_cons]

/-- What `find?` gives for the name `k` in a list is what `Table.find` gives. -/
theorem Table.find?_map_eq_find {α : Type} (k : String) (l : List (String × α)) :
    (l.find? fun e => e.1 == k).map (·.2) = Table.find k l := by
  induction l with
  | nil => rfl
  | cons e r ih =>
      obtain ⟨k', v⟩ := e
      by_cases h : k' = k
      · simp [Table.find, h]
      · simp [Table.find, h, Ne.symm h, ih]

/-- The members of an object that is made of the table `t` are those that `t.get?` finds. -/
theorem Json.member?_document_entries (t : Table String Json) (name : String) :
    (object t.entries).document.member? name = (t.get? name).map document := by
  rw [document, documents_eq_map, Document.member?, Table.find?_map_eq_find, Table.find_map]
  rfl

theorem Json.names_document_entries (t : Table String Json) :
    (object t.entries).document.names = t.keys := by
  rw [document, documents_eq_map, Document.names, List.map_map]
  rfl

/-! ### Sections -/

theorem Section.member?_document_values (s : Section) (k : String) :
    s.values.document.member? k = (s.get? k).map fun x => x.value.document := by
  rw [values, Json.member?_document_entries, Table.get?_mapValues, Option.map_map]
  rfl

theorem FileSections.member?_document_values (m : FileSections) (n : String) :
    m.values.document.member? n = (m.section? n).map fun s => s.values.document := by
  rw [values, Json.member?_document_entries, Table.get?_mapValues, Option.map_map]
  rfl

/-- **The scalar** under `n` and `k` is the `document` of the value that `get?` finds there. -/
theorem FileSections.member?_of_object {m : FileSections} {n : String}
    {settings : List (String × Document)}
    (h : m.values.document.member? n = some (.object settings)) (k : String) :
    (Document.object settings).member? k = (m.get? n k).map fun x => x.value.document := by
  rw [member?_document_values] at h
  obtain ⟨s, hs, hvalues⟩ := Option.map_eq_some_iff.1 h
  rw [← hvalues, s.member?_document_values, get?, hs, Option.bind_some]

theorem FileSections.names_document_values (m : FileSections) :
    m.values.document.names = m.sections.keys := by
  rw [values, Json.names_document_entries, Table.keys, Table.mapValues, List.map_map]
  rfl

/-- An object that is made of a table `t` is `Plain` if `f` makes `Plain` values of what is in `t`.
-/
theorem Json.plain_entries {α : Type} {f : α → Json} {t : Table String α}
    (h : ∀ k a, t.get? k = some a → (f a).Plain) : (object (t.mapValues f).entries).Plain := by
  refine .object fun m hm => ?_
  obtain ⟨⟨k, a⟩, he, rfl⟩ := List.mem_map.1 hm
  exact h k a (Table.mem_entries_iff.1 he)

/-- **What was read** from a text is `AsRead`, and so holds no infinity and no NaN. -/
theorem FileSections.plain_values {m : FileSections} (hm : m.AsRead) : m.values.Plain := by
  refine Json.plain_entries fun n s hs => Json.plain_entries fun k x hx => .scalar fun y hy => ?_
  have hget : m.get? n k = some x := by
    rw [get?, section?, hs]
    exact hx
  exact Value.isFinite_of_ofText_eq_float ((hm.settled hget).trans hy)

/-! ### Scalars -/

/-- The scalar `d` says what `text` says: a number token that `Value.ofText` reads as the same
number, if `text` reads as one, and else the string `text`. -/
def Json.Document.Shows (d : Document) (text : String) : Prop :=
  match Value.ofText text with
  | .text _ => d = .string text
  | v       => ∃ token, d = .number token ∧ Value.ofText token = v

/-- **A value `v`** that its own text reads as has a `document` that `Shows` this text. -/
theorem Value.shows_document {v : Value} (h : ofText v.written = v) :
    v.document.Shows v.written := by
  unfold Document.Shows
  rw [h]
  cases v with
  | int n => exact ⟨_, rfl, h⟩
  | float x =>
      cases x with
      | nan => exact absurd h (ofText_ne_nan _)
      | infinity s => exact absurd h (ofText_ne_infinity _ s)
      | finite s n => exact ⟨_, rfl, ofText_jsonText s n⟩
  | text s => rfl

end EmulatorSettings
