import EmulatorSettings.Store.FileSections

/-!
# Settings files — writing

A section is its header and one line per setting, in the order of the keys.  Sections follow in
the order of their names with a blank line between two; sections without settings are left out.

The text `write m` has one place for the value under a key that is there.  Setting that key changes
the text in this place and nowhere else, so two values give the same text only if they are written
the same.

* `exists_write_set`: `write m` and `write (m.set n k v).2` agree around the value under `n`, `k`.
* `write_set_eq_iff`: they are equal exactly if the two values have the same `written` text.
-/

namespace EmulatorSettings.Ini

/-! ### The text of a file -/

/-- The line `key=value` of the setting `x`, with its end. -/
def entryText (x : Setting) : List Char :=
  x.key.toList ++ '=' :: x.value.written.toList ++ ['\n']

/-- The lines of the section `s`: its header, and `entryText` of each setting. -/
def sectionText (s : Section) : List Char :=
  '[' :: s.name.toList ++ [']', '\n'] ++ s.settings.values.flatMap entryText

/-- The text of the file `m`: the `sectionText` of every section that is not empty, with a line
break between two. -/
def write (m : FileSections) : String :=
  let texts := (m.sections.values.filter fun s => !s.isEmpty).map sectionText
  String.ofList (List.intercalate ['\n'] texts)

/-- What stands around one `part` of a joined list does not depend on that part. -/
theorem exists_intercalate {α : Type} (sep : List α) (before after : List (List α)) :
    ∃ a b, ∀ part, List.intercalate sep (before ++ part :: after) = a ++ part ++ b := by
  induction before with
  | nil =>
      cases after with
      | nil =>
          refine ⟨[], [], fun part => ?_⟩
          rw [List.nil_append, List.intercalate_singleton, List.nil_append, List.append_nil]
      | cons next after =>
          refine ⟨[], sep ++ List.intercalate sep (next :: after), fun part => ?_⟩
          rw [List.nil_append, List.intercalate_cons_cons, List.nil_append, List.append_assoc]
  | cons first before ih =>
      obtain ⟨a, b, hjoin⟩ := ih
      refine ⟨first ++ sep ++ a, b, fun part => ?_⟩
      have hcons : List.intercalate sep (first :: (before ++ part :: after)) =
          first ++ sep ++ List.intercalate sep (before ++ part :: after) := by
        cases before with
        | nil => exact List.intercalate_cons_cons
        | cons second before => exact List.intercalate_cons_cons
      rw [List.cons_append, hcons, hjoin]
      simp only [List.append_assoc]

/-! ### One value of a section -/

/-- Setting a key that is there replaces the value of its setting `x`, and nothing else. -/
theorem set_of_get? {s : Section} {k : String} {x : Setting} (h : s.get? k = some x) (v : Value) :
    (s.set k v).2 = { s with settings := s.settings.insert k { x with value := v } } := by
  rw [Section.set, h]
  rfl

/-- Setting `k` changes `sectionText s` only where the value under `k` is written. -/
theorem exists_sectionText_set {s : Section} {k : String} {x : Setting} (h : s.get? k = some x) :
    ∃ a b, sectionText s = a ++ x.value.written.toList ++ b ∧
      ∀ v, sectionText (s.set k v).2 = a ++ v.written.toList ++ b := by
  obtain ⟨before, after, hvalues, hinsert⟩ := Table.exists_values_insert h
  have htext : ∀ v : Value, '[' :: s.name.toList ++ [']', '\n'] ++
      (before ++ { x with value := v } :: after).flatMap entryText =
        ('[' :: s.name.toList ++ [']', '\n'] ++ before.flatMap entryText ++
          x.key.toList ++ ['=']) ++
            v.written.toList ++ ('\n' :: after.flatMap entryText) := fun v => by
    simp only [List.flatMap_append, List.flatMap_cons, entryText, List.append_assoc,
      List.cons_append, List.nil_append]
  refine ⟨_, _, (congrArg _ (congrArg _ hvalues)).trans (htext x.value), fun v => ?_⟩
  rw [set_of_get? h, sectionText, hinsert, htext]

/-- A section with a setting is not empty, so `write` does not leave it out. -/
theorem isEmpty_of_get? {s : Section} {k : String} {x : Setting} (h : s.get? k = some x) :
    s.isEmpty = false :=
  Bool.eq_false_iff.2 fun hempty => by
    rw [Section.get?, Table.isEmpty_iff.1 hempty k] at h
    cases h

/-! ### One value of a file -/

/-- The sections `before` and `after` a section give the same text around `sectionText s`, whatever
`s` holds. -/
theorem exists_write_of_values (before after : List Section) :
    ∃ a b, ∀ (m : FileSections) (s : Section), m.sections.values = before ++ s :: after →
      s.isEmpty = false → (write m).toList = a ++ sectionText s ++ b := by
  obtain ⟨a, b, hjoin⟩ := exists_intercalate ['\n']
    ((before.filter fun s => !s.isEmpty).map sectionText)
    ((after.filter fun s => !s.isEmpty).map sectionText)
  refine ⟨a, b, fun m s hvalues hs => ?_⟩
  rw [← hjoin, write, String.toList_ofList, hvalues]
  simp only [List.filter_append, List.filter_cons, hs, Bool.not_false, if_true, List.map_append,
    List.map_cons]

variable {m : FileSections} {n k : String} {x : Setting}

/-- **The text around a value** stays as it is when the value under `n` and `k` is set to any `v`.
-/
theorem exists_write_set (h : m.get? n k = some x) :
    ∃ a b, (write m).toList = a ++ x.value.written.toList ++ b ∧
      ∀ v, (write (m.set n k v).2).toList = a ++ v.written.toList ++ b := by
  obtain ⟨s, hs, hx⟩ := Option.bind_eq_some_iff.1 h
  obtain ⟨before, after, hvalues, hinsert⟩ := Table.exists_values_insert hs
  obtain ⟨a, b, htext, htextSet⟩ := exists_sectionText_set hx
  obtain ⟨c, d, hwrite⟩ := exists_write_of_values before after
  have hnew : m.sectionOrNew n = s := by rw [FileSections.sectionOrNew, hs, Option.getD_some]
  refine ⟨c ++ a, b ++ d, ?_, fun v => ?_⟩
  · rw [hwrite m s hvalues (isEmpty_of_get? hx), htext]
    simp only [List.append_assoc]
  · have hvaluesSet : (m.set n k v).2.sections.values = before ++ (s.set k v).2 :: after := by
      rw [← hinsert, FileSections.set, FileSections.modify, hnew]
    have hxSet : (s.set k v).2.get? k = some { x with value := v } := by
      rw [set_of_get? hx]
      exact Table.get?_insert_self _ _ _
    rw [hwrite _ _ hvaluesSet (isEmpty_of_get? hxSet), htextSet]
    simp only [List.append_assoc]

/-- **The text of the file** stays the same exactly if `v` is written as the value of `x` is. -/
theorem write_set_eq_iff (h : m.get? n k = some x) (v : Value) :
    write (m.set n k v).2 = write m ↔ v.written = x.value.written := by
  obtain ⟨a, b, hold, hnew⟩ := exists_write_set h
  rw [← String.toList_inj, hold, hnew, List.append_left_inj, List.append_right_inj,
    String.toList_inj]

end EmulatorSettings.Ini
