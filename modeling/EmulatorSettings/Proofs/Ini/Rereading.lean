import EmulatorSettings.Ini.Writing
import EmulatorSettings.Proofs.Ini.Readable
import EmulatorSettings.Proofs.Table.Building

/-!
# Settings files — reading what was written

A file whose entries are readable is read back from its own text: section by section, and line by
line in each.  What comes back is the file *reread*: without the empty sections, and with every
value as its written text reads.

* `lines_sectionText`: the lines of a written section are its header and its entries.
* `readLines_sectionLines`: reading them opens the section and sets its keys one by one.
* `read_write_of_readable`: reading a written file gives the file reread, and passes no line over.
-/

namespace EmulatorSettings

/-! ### Rereading -/

/-- The section `s` with every value as `Value.ofText` reads its written text. -/
def Section.reread (s : Section) : Section :=
  { s with
    settings := s.settings.mapValues fun x => ⟨x.key, s.name, s.file, .ofText x.value.written⟩ }

/-- The file `m` without its empty sections. -/
def FileSections.withoutEmpty (m : FileSections) : FileSections :=
  { m with sections := m.sections.filterValues fun s => !s.isEmpty }

/-- The file `m` without its empty sections, every other one as `Section.reread`. -/
def FileSections.reread (m : FileSections) : FileSections :=
  { m with sections := m.withoutEmpty.sections.mapValues Section.reread }

namespace Ini

/-! ### The lines of a section -/

/-- The line `key=value` of the setting `x`. -/
def entryLine (x : Setting) : List Char :=
  x.key.toList ++ '=' :: x.value.written.toList

/-- The header of `s` and an `entryLine` for each setting. -/
def sectionLines (s : Section) : List (List Char) :=
  ('[' :: s.name.toList ++ [']']) :: s.settings.values.map entryLine

/-- The name of `s` is one line, and its settings are `ReadableEntry`s. -/
def ReadableSection (s : Section) : Prop :=
  '\n' ∉ s.name.toList ∧
    ∀ x ∈ s.settings.values, ReadableEntry x.key.toList x.value.written.toList

theorem lines_entryTexts {xs : List Setting} (rest : List Char)
    (h : ∀ x ∈ xs, ReadableEntry x.key.toList x.value.written.toList) :
    Text.lines (xs.flatMap entryText ++ rest) = xs.map entryLine ++ Text.lines rest := by
  induction xs with
  | nil => rfl
  | cons x xs ih =>
      have hx := h x List.mem_cons_self
      have htext : (x :: xs).flatMap entryText ++ rest =
          entryLine x ++ '\n' :: (xs.flatMap entryText ++ rest) := by
        simp only [List.flatMap_cons, entryText, entryLine, List.append_assoc, List.cons_append,
          List.nil_append]
      rw [htext, Text.lines_append (l := entryLine x) _ hx.feed_line hx.return_line,
        ih fun y hy => h y (List.mem_cons_of_mem x hy)]
      rfl

theorem feed_header {name : List Char} (h : '\n' ∉ name) : '\n' ∉ '[' :: name ++ [']'] := by
  intro hm
  rcases List.mem_append.1 hm with hm | hm
  · rcases List.mem_cons.1 hm with hm | hm
    · cases hm
    · exact h hm
  · exact absurd hm (by decide)

theorem return_header (name : List Char) : ('[' :: name ++ [']']).getLast? ≠ some '\r' := by
  rw [List.getLast?_concat]
  decide

/-- **The lines of `sectionText s`** are `sectionLines s`, whatever `rest` follows. -/
theorem lines_sectionText {s : Section} (h : ReadableSection s) (rest : List Char) :
    Text.lines (sectionText s ++ rest) = sectionLines s ++ Text.lines rest := by
  have htext : sectionText s ++ rest =
      ('[' :: s.name.toList ++ [']']) ++ '\n' :: (s.settings.values.flatMap entryText ++ rest) := by
    simp only [sectionText, List.append_assoc, List.cons_append, List.nil_append]
  rw [htext, Text.lines_append _ (feed_header h.1) (return_header _), lines_entryTexts _ h.2]
  rfl

/-! ### Reading the lines of a section -/

/-- Setting the keys of `xs` in a `WellStored` section one by one, each to the value its text reads
as. -/
theorem foldl_set {s : Section} (hs : s.WellStored) (xs : List Setting) :
    xs.foldl (fun s x => (s.set x.key (.ofText x.value.written)).2) s =
      { s with settings := xs.foldl (fun u x =>
          u.insert x.key ⟨x.key, s.name, s.file, .ofText x.value.written⟩) s.settings } := by
  induction xs generalizing s with
  | nil => rfl
  | cons x xs ih =>
      rw [List.foldl_cons, ih (Section.wellStored_set hs _ _), Section.set_snd hs]
      rfl

/-- A new section, once the keys of `s` are set in it, is `s.reread`. -/
theorem foldl_set_new {s : Section} (hs : s.WellStored) :
    s.settings.values.foldl (fun s x => (s.set x.key (.ofText x.value.written)).2)
      (Section.new s.name s.file) = s.reread := by
  rw [foldl_set (Section.wellStored_new s.name s.file), Section.reread]
  exact congrArg (Section.mk s.name s.file)
    (Table.foldl_insert_values (fun k x hx => (hs k x hx).1) _)

theorem readLines_entryLines (done : FileSections) (s : Section) (number : Nat)
    {xs : List Setting} (rest : List (List Char))
    (h : ∀ x ∈ xs, ReadableEntry x.key.toList x.value.written.toList) :
    readLines done (some s) number (xs.map entryLine ++ rest) =
      readLines done
        (some (xs.foldl (fun s x => (s.set x.key (.ofText x.value.written)).2) s))
        (number + xs.length) rest := by
  induction xs generalizing s number with
  | nil => rfl
  | cons x xs ih =>
      have hx := h x List.mem_cons_self
      rw [List.map_cons, List.cons_append, readLines, entryLine, hx.trim_line, hx.ofChars_line]
      dsimp only
      rw [Option.map_some, String.ofList_toList, String.ofList_toList,
        ih _ _ fun y hy => h y (List.mem_cons_of_mem x hy), List.foldl_cons, List.length_cons,
        Nat.add_assoc, Nat.add_comm 1]

/-- **Reading `sectionLines s`** closes the `current` section, and leaves `s.reread` open. -/
theorem readLines_sectionLines {done : FileSections} (current : Option Section) (number : Nat)
    {s : Section} (rest : List (List Char)) (hfile : s.file = done.file) (hs : s.WellStored)
    (h : ReadableSection s) :
    readLines done current number (sectionLines s ++ rest) =
      readLines (close done current) (some s.reread) (number + 1 + s.settings.values.length)
        rest := by
  rw [sectionLines, List.cons_append, readLines, ofChars_header]
  dsimp only
  rw [String.ofList_toList, readLines_entryLines _ _ _ _ h.2, ← hfile, foldl_set_new hs]

/-! ### Reading the text of a file -/

/-- Reading the texts of the sections `ss`, with a blank line between two, stores each of them as
`Section.reread`. -/
theorem readLines_sectionTexts {ss : List Section} {done : FileSections} (current : Option Section)
    (number : Nat) (h : ∀ s ∈ ss, s.file = done.file ∧ s.WellStored ∧ ReadableSection s) :
    readLines done current number
        (Text.lines (List.intercalate ['\n'] (ss.map sectionText))) =
      ⟨ss.foldl (fun m s => m.store s.reread) (close done current), []⟩ := by
  induction ss generalizing done current number with
  | nil => rfl
  | cons s ss ih =>
      obtain ⟨hfile, hs, hread⟩ := h s List.mem_cons_self
      -- closing a section does not change what file the sections are of
      have hrest : ∀ t ∈ ss, t.file = (close done current).file ∧ t.WellStored ∧
          ReadableSection t := by
        rw [file_close]
        exact fun t ht => h t (List.mem_cons_of_mem s ht)
      cases ss with
      | nil =>
          have htext : List.intercalate ['\n'] ([s].map sectionText) = sectionText s ++ [] := by
            rw [List.map_singleton, List.intercalate_singleton, List.append_nil]
          rw [htext, lines_sectionText hread,
            readLines_sectionLines current number _ hfile hs hread]
          rfl
      | cons t ts =>
          -- the blank line says nothing: the section stays open until the next header closes it
          have htext : List.intercalate ['\n'] ((s :: t :: ts).map sectionText) =
              sectionText s ++ '\n' :: List.intercalate ['\n'] ((t :: ts).map sectionText) := by
            rw [List.map_cons, List.map_cons, List.intercalate_cons_cons, List.append_assoc]
            rfl
          rw [htext, lines_sectionText hread,
            readLines_sectionLines current number _ hfile hs hread, Text.lines, readLines]
          exact ih (some s.reread) _ hrest

theorem foldl_store (ss : List Section) (m : FileSections) :
    ss.foldl (fun m s => m.store s.reread) m =
      { m with sections := ss.foldl (fun u s => u.insert s.name s.reread) m.sections } := by
  induction ss generalizing m with
  | nil => rfl
  | cons s ss ih =>
      rw [List.foldl_cons, ih]
      rfl

theorem readableSection_of_section? {m : FileSections} (hm : m.WellStored) (h : Readable m)
    {n : String} {s : Section} (hs : m.section? n = some s) (hne : s.isEmpty = false) :
    ReadableSection s := by
  obtain ⟨hn, -, hw⟩ := hm n s hs
  have hentry : ∀ k x, s.get? k = some x → m.get? n k = some x := fun k x hx =>
    Option.bind_eq_some_iff.2 ⟨s, hs, hx⟩
  refine ⟨?_, fun x hx => ?_⟩
  · have hsome : ¬ ∀ k, s.get? k = none := fun hnone =>
      Bool.eq_false_iff.1 hne (Section.isEmpty_iff.2 hnone)
    obtain ⟨k, hk⟩ := not_forall.1 hsome
    obtain ⟨x, hx⟩ := Option.ne_none_iff_exists'.1 hk
    rw [hn]
    exact (h n k x (hentry k x hx)).1
  · obtain ⟨k, hk⟩ := Table.mem_values_iff.1 hx
    rw [(hw k x hk).1]
    exact (h n k x (hentry k x hk)).2

/-- **Reading a written file** leaves out no line and gives `m.reread`, whatever the names, keys and
values of `m`, as long as each entry by itself is readable. -/
theorem read_write_of_readable {m : FileSections} (hm : m.WellStored) (h : Readable m) :
    read m.file (write m) = ⟨m.reread, []⟩ := by
  have hsections : ∀ s ∈ m.withoutEmpty.sections.values,
      s.file = (FileSections.new m.file).file ∧ s.WellStored ∧ ReadableSection s := by
    intro s hs
    obtain ⟨n, hn⟩ := Table.mem_values_iff.1 hs
    obtain ⟨hn, hne⟩ := Option.filter_eq_some_iff.1 (Table.get?_filterValues _ _ n ▸ hn)
    obtain ⟨-, hfile, hw⟩ := hm n s hn
    exact ⟨hfile, hw, readableSection_of_section? hm h hn (Bool.not_eq_true' _ ▸ hne)⟩
  have hkey : ∀ n s, m.withoutEmpty.sections.get? n = some s → s.name = n := by
    intro n s hs
    obtain ⟨hs, -⟩ := Option.filter_eq_some_iff.1 (Table.get?_filterValues _ _ n ▸ hs)
    exact (hm n s hs).1
  have hwrite : (write m).toList =
      List.intercalate ['\n'] (m.withoutEmpty.sections.values.map sectionText) := by
    rw [write, String.toList_ofList, FileSections.withoutEmpty, Table.values_filterValues]
  rw [read, hwrite, readLines_sectionTexts none 1 hsections, foldl_store, FileSections.reread]
  exact congrArg (Reading.mk · []) (congrArg (FileSections.mk m.file)
    (Table.foldl_insert_values hkey _))

end Ini

end EmulatorSettings
