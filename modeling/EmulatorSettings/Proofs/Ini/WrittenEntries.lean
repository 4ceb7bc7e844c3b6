import EmulatorSettings.Proofs.Ini.Meaning
import EmulatorSettings.Proofs.Ini.RoundTrip
import EmulatorSettings.Proofs.Value.Numerals

/-!
# Settings files — the text that a file gives a key

Reading turns the text of a value into a value of some kind.  Here is the text itself: what a file
says literally under a section and key, and that a written file says the text of the value in
memory there.  So each key that stands at a numeral stands at a text for a whole number once the
file has been read and written.  It is the same number except between the range of 32 bits and the
overflow of binary numbers, where only the first 24 binary digits are kept.

* `Gives.unique`: a text gives a key one value.
* `get?_read_iff`: what is read under a key is what the text gives it.
* `gives_write`: a written file gives a key the written text of its value.
* `gives_write_read`: after reading and writing, that is the text that the value read has.
* `rewritten_numeral_iff`: which number stands there for a numeral, and when it is the same.
* `serial_is_rounded`: the first numeral that is changed.
-/

namespace EmulatorSettings.Ini

open Text (trim)

/-- What `text` gives the key `k` of the section `n`: the `value` on the last line that is an entry
of `k`, in the block after the last header of `n`. -/
def Gives (text n k value : String) : Prop :=
  ∃ block, IsLastBlock (trimmedLines text) n.toList block ∧
    IsLastEntry block k.toList value.toList

/-! ### Reading -/

theorem gives_iff {text n k value : String} :
    Gives text n k value ↔
      (lastBlock? n.toList (trimmedLines text)).bind (lastValue? k.toList) =
        some value.toList := by
  simp only [Gives, Option.bind_eq_some_iff, lastBlock?_eq_some_iff, lastValue?_eq_some_iff]

/-- A text gives a key one value. -/
theorem Gives.unique {text n k value value' : String} (h : Gives text n k value)
    (h' : Gives text n k value') : value = value' := by
  have heq := (gives_iff.1 h).symm.trans (gives_iff.1 h')
  exact String.toList_inj.1 (Option.some.inj heq)

/-- **What `get?` finds** after `read` is what `text` `Gives`. -/
theorem get?_read_iff {file : SettingsFile} {text n k : String} {x : Setting} :
    (read file text).sections.get? n k = some x ↔
      ∃ value, Gives text n k value ∧ x = ⟨k, n, file, .ofText value⟩ := by
  have hget : (read file text).sections.get? n k =
      ((lastBlock? n.toList (trimmedLines text)).bind (lastValue? k.toList)).map
        fun value => ⟨k, n, file, .ofText (String.ofList value)⟩ := by
    rw [FileSections.get?, read, section?_readLines, trimmedLines]
    cases lastBlock? n.toList ((Text.lines text.toList).map trim) with
    | none => rfl
    | some block =>
        refine (get?_addLines (Section.wellStored_new n file) block k).trans ?_
        exact Option.or_none
  rw [hget, Option.map_eq_some_iff]
  constructor
  · rintro ⟨value, hvalue, rfl⟩
    exact ⟨String.ofList value, gives_iff.2 (by rw [hvalue, String.toList_ofList]), rfl⟩
  · rintro ⟨value, hgives, rfl⟩
    exact ⟨value.toList, gives_iff.1 hgives, by rw [String.ofList_toList]⟩

/-! ### The lines of a written file -/

/-- The lines of the sections `ss`, written one after the other. -/
def fileLines (ss : List Section) : List (List Char) :=
  List.intercalate [[]] (ss.map sectionLines)

/-- First come the lines of `s`, then a blank line if there are more sections, then the lines of
`ss`. -/
theorem exists_fileLines_cons (s : Section) (ss : List Section) :
    ∃ gap, (∀ l ∈ gap, l = []) ∧ fileLines (s :: ss) = sectionLines s ++ (gap ++ fileLines ss) := by
  cases ss with
  | nil =>
      refine ⟨[], nofun, ?_⟩
      rw [fileLines, List.map_singleton, List.intercalate_singleton]
      exact (List.append_nil _).symm
  | cons t ts =>
      refine ⟨[[]], fun l hl => List.mem_singleton.1 hl, ?_⟩
      rw [fileLines, List.map_cons, List.map_cons, List.intercalate_cons_cons, List.append_assoc]
      rfl

/-- **The section `s` among others**: its lines, a gap, and the lines of the sections after it. -/
theorem exists_fileLines_append (before : List Section) (s : Section) (after : List Section) :
    ∃ first gap, (∀ l ∈ gap, l = []) ∧
      fileLines (before ++ s :: after) = first ++ (sectionLines s ++ (gap ++ fileLines after)) := by
  induction before with
  | nil =>
      obtain ⟨gap, hgap, hlines⟩ := exists_fileLines_cons s after
      exact ⟨[], gap, hgap, hlines⟩
  | cons t before ih =>
      obtain ⟨first, gap, hgap, hrest⟩ := ih
      obtain ⟨gap', -, hlines⟩ := exists_fileLines_cons t (before ++ s :: after)
      refine ⟨sectionLines t ++ (gap' ++ first), gap, hgap, ?_⟩
      rw [List.cons_append, hlines, hrest]
      simp only [List.append_assoc]

/-- Every line of `fileLines ss` is blank or a line of some section. -/
theorem mem_fileLines {ss : List Section} {l : List Char} (h : l ∈ fileLines ss) :
    l = [] ∨ ∃ s ∈ ss, l ∈ sectionLines s := by
  induction ss with
  | nil => cases h
  | cons s ss ih =>
      obtain ⟨gap, hgap, hlines⟩ := exists_fileLines_cons s ss
      rw [hlines] at h
      rcases List.mem_append.1 h with h | h
      · exact .inr ⟨s, List.mem_cons_self, h⟩
      · rcases List.mem_append.1 h with h | h
        · exact .inl (hgap l h)
        · exact (ih h).imp_right fun ⟨t, ht, hl⟩ => ⟨t, List.mem_cons_of_mem s ht, hl⟩

theorem lines_sectionTexts {ss : List Section} (h : ∀ s ∈ ss, ReadableSection s) :
    Text.lines (List.intercalate ['\n'] (ss.map sectionText)) = fileLines ss := by
  induction ss with
  | nil => rfl
  | cons s ss ih =>
      have hs := h s List.mem_cons_self
      cases ss with
      | nil =>
          have htext : List.intercalate ['\n'] ([s].map sectionText) = sectionText s ++ [] := by
            rw [List.map_singleton, List.intercalate_singleton, List.append_nil]
          rw [htext, lines_sectionText hs, fileLines, List.map_singleton,
            List.intercalate_singleton]
          exact List.append_nil _
      | cons t ts =>
          have htext : List.intercalate ['\n'] ((s :: t :: ts).map sectionText) =
              sectionText s ++ '\n' :: List.intercalate ['\n'] ((t :: ts).map sectionText) := by
            rw [List.map_cons, List.map_cons, List.intercalate_cons_cons, List.append_assoc]
            rfl
          have hlines : fileLines (s :: t :: ts) = sectionLines s ++ [] :: fileLines (t :: ts) := by
            simp only [fileLines, List.map_cons, List.intercalate_cons_cons, List.append_assoc,
              List.singleton_append]
          rw [htext, lines_sectionText hs, Text.lines, hlines,
            ih fun u hu => h u (List.mem_cons_of_mem s hu)]

theorem trim_headerLine (name : List Char) : trim (headerLine name) = headerLine name := by
  refine Text.trim_eq_self_iff.2 ⟨fun c hc => ?_, fun c hc => ?_⟩
  · obtain rfl := Option.some.inj hc
    decide
  · rw [headerLine, List.getLast?_concat] at hc
    obtain rfl := Option.some.inj hc
    decide

theorem trim_of_mem_sectionLines {s : Section} (hs : ReadableSection s) {l : List Char}
    (h : l ∈ sectionLines s) : trim l = l := by
  rcases List.mem_cons.1 h with rfl | h
  · exact trim_headerLine _
  · obtain ⟨x, hx, rfl⟩ := List.mem_map.1 h
    exact (hs.2 x hx).trim_line

/-- The sections of `m` that `write` writes. -/
def writtenSections (m : FileSections) : List Section :=
  m.sections.values.filter fun s => !s.isEmpty

/-- **The lines of `write m`** are those of its `writtenSections`: none has blanks at its ends. -/
theorem trimmedLines_write {m : FileSections}
    (h : ∀ s ∈ writtenSections m, ReadableSection s) :
    trimmedLines (write m) = fileLines (writtenSections m) := by
  have hlines : Text.lines (write m).toList = fileLines (writtenSections m) := by
    rw [write, String.toList_ofList]
    exact lines_sectionTexts h
  rw [trimmedLines, hlines]
  refine (List.map_congr_left fun l hl => ?_).trans (List.map_id _)
  rcases mem_fileLines hl with rfl | ⟨s, hs, hl⟩
  · rfl
  · exact trim_of_mem_sectionLines (h s hs) hl

/-! ### A header or an entry among the lines -/

theorem not_isHeader_entryLine {x : Setting}
    (h : ReadableEntry x.key.toList x.value.written.toList) : ¬ IsHeader (entryLine x) :=
  not_isHeader_of_ofChars h.ofChars_line nofun

theorem isEntry_entryLine_iff {x : Setting}
    (h : ReadableEntry x.key.toList x.value.written.toList) {key value : List Char} :
    IsEntry (entryLine x) key value ↔ x.key.toList = key ∧ x.value.written.toList = value := by
  rw [← ofChars_eq_entry_iff, entryLine, h.ofChars_line, Line.entry.injEq]

theorem not_isHeader_nil : ¬ IsHeader [] := by
  rintro ⟨name, hname⟩
  cases hname

theorem not_isEntry_nil {key value : List Char} : ¬ IsEntry [] key value := fun h =>
  not_splitsInto_nil h.2.1

/-- A `headerLine` among the lines of readable sections is the header of one of them. -/
theorem exists_of_isHeader {ss : List Section} (h : ∀ s ∈ ss, ReadableSection s)
    {name : List Char} (hname : headerLine name ∈ fileLines ss) :
    ∃ s ∈ ss, s.name.toList = name := by
  rcases mem_fileLines hname with hnil | ⟨s, hs, hl⟩
  · exact absurd (hnil ▸ isHeader_headerLine name) not_isHeader_nil
  · rcases List.mem_cons.1 hl with hl | hl
    · exact ⟨s, hs, (headerLine_inj.1 hl).symm⟩
    · obtain ⟨x, hx, hline⟩ := List.mem_map.1 hl
      exact absurd (hline ▸ isHeader_headerLine name) (not_isHeader_entryLine ((h s hs).2 x hx))

theorem isHeader_head?_fileLines {ss : List Section} : ∀ l ∈ (fileLines ss).head?, IsHeader l := by
  intro l hl
  cases ss with
  | nil => cases hl
  | cons s ss =>
      obtain ⟨gap, -, hlines⟩ := exists_fileLines_cons s ss
      rw [hlines] at hl
      obtain rfl := Option.some.inj hl
      exact isHeader_headerLine s.name.toList

/-! ### Writing -/

variable {m : FileSections} {n k : String} {x : Setting}

theorem readableSection_of_mem (hm : m.WellStored) (h : Readable m) :
    ∀ s ∈ writtenSections m, ReadableSection s := by
  intro s hs
  obtain ⟨hmem, hempty⟩ := List.mem_filter.1 hs
  obtain ⟨n, hn⟩ := Table.mem_values_iff.1 hmem
  exact readableSection_of_section? hm h hn (Bool.not_eq_true' _ ▸ hempty)

/-- The entry of `k` is the last one of `k` in its section. -/
theorem isLastEntry_entryLines {s : Section} (hs : s.WellStored) (hread : ReadableSection s)
    (hx : s.get? k = some x) {gap : List (List Char)} (hgap : ∀ l ∈ gap, l = []) :
    IsLastEntry (s.settings.values.map entryLine ++ gap) k.toList x.value.written.toList := by
  obtain ⟨before, after, hvalues, hafter⟩ := Table.exists_values_of_get? hx
  have hmem : ∀ y ∈ x :: after, y ∈ s.settings.values := fun y hy =>
    hvalues ▸ List.mem_append_right before hy
  refine ⟨before.map entryLine, entryLine x, after.map entryLine ++ gap, ?_, ?_, ?_⟩
  · rw [hvalues, List.map_append, List.map_cons, List.append_assoc, List.cons_append]
  · exact (isEntry_entryLine_iff (hread.2 x (hmem x List.mem_cons_self))).2
      ⟨by rw [(hs k x hx).1], rfl⟩
  · intro l hl v hentry
    rcases List.mem_append.1 hl with hl | hl
    · -- an entry after this one stands under another key
      obtain ⟨y, hy, rfl⟩ := List.mem_map.1 hl
      obtain ⟨k', hk', hne⟩ := hafter y hy
      have hyread := hread.2 y (hmem y (List.mem_cons_of_mem x hy))
      obtain ⟨hkey, -⟩ := (isEntry_entryLine_iff hyread).1 hentry
      exact hne ((hs k' y hk').1.symm.trans (String.toList_inj.1 hkey))
    · exact not_isEntry_nil (hgap l hl ▸ hentry)

/-- **A written file** gives each key the written text of its value. -/
theorem gives_write (hm : m.WellStored) (h : Readable m) (hx : m.get? n k = some x) :
    Gives (write m) n k x.value.written := by
  obtain ⟨s, hs, hk⟩ := Option.bind_eq_some_iff.1 hx
  obtain ⟨hname, -, hstored⟩ := hm n s hs
  have hread := readableSection_of_mem hm h
  have hthere : m.withoutEmpty.section? n = some s := by
    rw [FileSections.section?_withoutEmpty, hs, Option.filter_some, isEmpty_of_get? hk]
    rfl
  obtain ⟨before, after, hvalues, hafter⟩ := Table.exists_values_of_get? hthere
  have hwritten : writtenSections m = before ++ s :: after := by
    rw [writtenSections, ← Table.values_filterValues]
    exact hvalues
  have hmem : ∀ t ∈ s :: after, t ∈ writtenSections m := fun t ht =>
    hwritten ▸ List.mem_append_right before ht
  have hsread := hread s (hmem s List.mem_cons_self)
  obtain ⟨first, gap, hgap, hlines⟩ := exists_fileLines_append before s after
  refine ⟨s.settings.values.map entryLine ++ gap, ⟨first, fileLines after, ?_, ?_, ?_, ?_⟩,
    isLastEntry_entryLines hstored hsread hk hgap⟩
  · rw [trimmedLines_write hread, hwritten, hlines, ← hname, sectionLines, headerLine,
      List.cons_append, List.append_assoc]
  · intro hheader
    -- a section after this one has another name
    obtain ⟨t, ht, htname⟩ := exists_of_isHeader
      (fun t ht => hread t (hmem t (List.mem_cons_of_mem s ht))) hheader
    obtain ⟨n', hn', hne⟩ := hafter t ht
    have hn'' := (Option.filter_eq_some_iff.1
      ((FileSections.section?_withoutEmpty m n').symm.trans hn')).1
    exact hne ((hm n' t hn'').1.symm.trans (String.toList_inj.1 htname))
  · intro l hl
    rcases List.mem_append.1 hl with hl | hl
    · obtain ⟨y, hy, rfl⟩ := List.mem_map.1 hl
      exact not_isHeader_entryLine (hsread.2 y hy)
    · exact hgap l hl ▸ not_isHeader_nil
  · exact isHeader_head?_fileLines

/-- **Reading and writing** a `text` puts `(Value.ofText value).written` in the place of `value`. -/
theorem gives_write_read {text value : String} (file : SettingsFile) (h : Gives text n k value) :
    Gives (write (read file text).sections) n k (Value.ofText value).written := by
  have has := asRead_read file text
  have hread : (read file text).sections.get? n k = some ⟨k, n, file, .ofText value⟩ :=
    get?_read_iff.2 ⟨value, h, rfl⟩
  have hgives := gives_write has.wellStored has.readable hread
  exact hgives

/-! ### Numerals -/

/-- **A numeral that is read and written.** Where `text` gives `k` a numeral for `i`, the text that
`write` makes gives it a text for one whole number, `Value.rewritten i`.  That is `i` itself exactly
if `i` is of 32 bits, has at most 24 binary digits before the zeros at its end, or is past the
finite binary numbers. -/
theorem rewritten_numeral_iff (file : SettingsFile) {text n k value : String} {i : Int}
    (h : Gives text n k value) (hi : Numeral value.toList i) :
    ∃ value', Gives (write (read file text).sections) n k value' ∧
      (∀ j, DenotesWhole value'.toList j ↔ j = Value.rewritten i) ∧
      (DenotesWhole value'.toList i ↔ (-0x80000000 ≤ i ∧ i < 0x80000000) ∨
        2 ^ (i.natAbs.log2 - 23) ∣ i.natAbs ∨ 2 ^ 128 - 2 ^ 103 ≤ i.natAbs) := by
  refine ⟨(Value.ofText value).written, gives_write_read file h, Value.denotes_written_iff hi, ?_⟩
  rw [Value.denotes_written_iff hi, eq_comm]
  exact Value.rewritten_eq_iff

theorem rewritten_numeral_of_large_power :
    ∃ value', Gives (write (read .config "[Core]\nserial=+4294967296\n").sections)
        "Core" "serial" value' ∧ DenotesWhole value'.toList 4294967296 := by
  have hgives : Gives "[Core]\nserial=+4294967296\n" "Core" "serial" "+4294967296" :=
    gives_iff.2 (by decide +kernel)
  have hnumeral : Numeral "+4294967296".toList 4294967296 :=
    Value.numeral?_eq_some_iff.1 (by decide +kernel)
  obtain ⟨value', hwritten, -, hsame⟩ := rewritten_numeral_iff .config hgives hnumeral
  exact ⟨value', hwritten, hsame.2 (.inr (.inl (by decide +kernel)))⟩

/-- The number `2147483649` becomes `2147483648.0`, although nobody edits the file. -/
theorem serial_is_rounded :
    Gives "[Core]\nserial=2147483649\n" "Core" "serial" "2147483649" ∧
      Numeral "2147483649".toList 2147483649 ∧
      write (read .config "[Core]\nserial=2147483649\n").sections =
        "[Core]\nserial=2147483648.0\n" ∧
      Gives "[Core]\nserial=2147483648.0\n" "Core" "serial" "2147483648.0" ∧
      ¬ DenotesWhole "2147483648.0".toList 2147483649 := by
  have hnumeral : Numeral "2147483648".toList 2147483648 :=
    Value.numeral?_eq_some_iff.1 (by decide +kernel)
  refine ⟨gives_iff.2 (by decide +kernel), Value.numeral?_eq_some_iff.1 (by decide +kernel),
    by decide +kernel, gives_iff.2 (by decide +kernel), fun h => ?_⟩
  have hother := (denotesWhole_iff_of_point hnumeral 2147483649).1 h
  exact absurd hother (by decide)

end EmulatorSettings.Ini
