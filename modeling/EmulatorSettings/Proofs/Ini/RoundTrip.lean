import EmulatorSettings.Proofs.Ini.Rereading

/-!
# Settings files — round trips

The format has neither quoting nor escapes, and still loses nothing, in both directions.

* `read_write_of_checked`: sections whose names, keys and values pass the checks of the store are
  read back from their text, with exactly their keys, and each value as its text reads.
* `read_write_inFile`: what was written for one file can be read as another.
* `asRead_read`: what reading a text can lead to, whatever the text.
* `read_write_read`: what was read from any text is written to a text that reads the same.
-/

namespace EmulatorSettings

namespace FileSections

/-! ### Sections that were reread -/

theorem section?_withoutEmpty (m : FileSections) (n : String) :
    m.withoutEmpty.section? n = (m.section? n).filter fun s => !s.isEmpty :=
  Table.get?_filterValues _ _ n

theorem section?_reread (m : FileSections) (n : String) :
    m.reread.section? n = ((m.section? n).filter fun s => !s.isEmpty).map Section.reread := by
  rw [← section?_withoutEmpty]
  exact Table.get?_mapValues _ _ n

/-- Every key is there in `m.reread`, with its value as the written text reads. -/
theorem get?_reread {m : FileSections} (hm : m.WellStored) (n k : String) :
    m.reread.get? n k =
      (m.get? n k).map fun x => ⟨k, n, m.file, .ofText x.value.written⟩ := by
  rw [get?, get?, section?_reread]
  cases hs : m.section? n with
  | none => rfl
  | some s =>
      -- a section that is left out holds no key
      obtain ⟨rfl, hfile, hw⟩ := hm n s hs
      cases hempty : s.isEmpty with
      | true =>
          rw [Option.filter_some, hempty, Option.bind_some, Section.isEmpty_iff.1 hempty k]
          rfl
      | false =>
          rw [Option.filter_some, hempty, Option.bind_some, ← hfile]
          change (s.settings.mapValues _).get? k = (s.settings.get? k).map _
          rw [Table.get?_mapValues]
          cases hx : s.settings.get? k with
          | none => rfl
          | some x => rw [Option.map_some, Option.map_some, (hw k x hx).1]

/-- Where `Value.ofText` reads every value of `m` back from its written text, `m.reread` is
`m.withoutEmpty`. -/
theorem reread_eq_withoutEmpty {m : FileSections} (hm : m.WellStored)
    (h : ∀ n k x, m.get? n k = some x → Value.ofText x.value.written = x.value) :
    m.reread = m.withoutEmpty := by
  have hsection : ∀ n s, m.section? n = some s → s.reread = s := by
    intro n s hs
    refine congrArg (Section.mk s.name s.file) (Table.mapValues_eq_self fun k x hx => ?_)
    obtain ⟨-, -, hw⟩ := hm n s hs
    obtain ⟨-, hname, hfile⟩ := hw k x hx
    have hvalue := h n k x (Option.bind_eq_some_iff.2 ⟨s, hs, hx⟩)
    rw [hvalue, ← hname, ← hfile]
  refine congrArg (FileSections.mk m.file) (Table.mapValues_eq_self fun n s hs => ?_)
  exact hsection n s (Option.filter_eq_some_iff.1 ((section?_withoutEmpty m n).symm.trans hs)).1

end FileSections

namespace Ini

theorem write_withoutEmpty (m : FileSections) : write m.withoutEmpty = write m := by
  have hfilter : m.withoutEmpty.sections.values.filter (fun s => !s.isEmpty) =
      m.sections.values.filter fun s => !s.isEmpty := by
    rw [← Table.values_filterValues, ← Table.values_filterValues, FileSections.withoutEmpty,
      Table.filterValues_filterValues]
  rw [write, write, hfilter]

/-! ### Writing, then reading -/

/-- **What was checked reads back.** If `checkName` and `checkEntry` pass everything in `m`, then
`read` leaves out no line of `write m` and finds the sections of `m` that are not empty, each with
its keys and its values as their texts read.  No name, key or value splits, merges, drops or adds an
entry or a section. -/
theorem read_write_of_checked {m : FileSections} (hm : m.WellStored)
    (hnames : ∀ n s, m.section? n = some s → checkName n = .ok ())
    (hentries : ∀ n k x, m.get? n k = some x → checkEntry k x.value = .ok ()) :
    (read m.file (write m)).skipped = [] ∧ (read m.file (write m)).sections.file = m.file ∧
      ∀ n, (read m.file (write m)).sections.section? n =
        ((m.section? n).filter fun s => !s.isEmpty).map fun s =>
          ⟨n, m.file,
            s.settings.mapValues fun x => ⟨x.key, n, m.file, .ofText x.value.written⟩⟩ := by
  have hreadable : Readable m := by
    intro n k x hx
    obtain ⟨s, hs, -⟩ := Option.bind_eq_some_iff.1 hx
    exact ⟨feed_of_checkName (hnames n s hs), readable_of_checkEntry (hentries n k x hx)⟩
  rw [read_write_of_readable hm hreadable]
  refine ⟨rfl, rfl, fun n => ?_⟩
  rw [FileSections.section?_reread]
  cases hs : (m.section? n).filter fun s => !s.isEmpty with
  | none => rfl
  | some s =>
      obtain ⟨rfl, hfile, -⟩ := hm n s (Option.filter_eq_some_iff.1 hs).1
      rw [Option.map_some, Option.map_some, Section.reread, hfile]

/-! ### Reading, then writing -/

/-- Sections whose names, keys and values come as close to `[`, `=` and `]` as the checks let them,
and one without settings. -/
def awkward : FileSections :=
  let m := ((FileSections.new (.game "demo")).set "Core=x" "[jit" (.text "on=[off")).2
  let m := (m.set "Core" "jit]" (.int 2)).2
  let m := (m.set "Core" "speed" (.float (.signedZero true))).2
  m.ensure "Empty"

theorem read_write_awkward :
    (read (.game "demo") (write awkward)).skipped = [] ∧
      (read (.game "demo") (write awkward)).sections.section? "Core=x" =
        some ⟨"Core=x", .game "demo", Table.empty.insert "[jit"
          ⟨"[jit", "Core=x", .game "demo", .text "on=[off"⟩⟩ ∧
      (read (.game "demo") (write awkward)).sections.section? "Empty" = none := by
  have hm : awkward.WellStored :=
    FileSections.wellStored_modify (FileSections.wellStored_set (FileSections.wellStored_set
      (FileSections.wellStored_set (FileSections.wellStored_new _) _ _ _) _ _ _) _ _ _)
      fun _ hs => ⟨rfl, rfl, hs⟩
  have hnames : ∀ e ∈ awkward.sections.entries, checkName e.1 = .ok () := by decide +kernel
  have hentries : ∀ e ∈ awkward.sections.entries, ∀ d ∈ e.2.settings.entries,
      checkEntry d.1 d.2.value = .ok () := by decide +kernel
  obtain ⟨hskipped, -, hsections⟩ := read_write_of_checked hm
    (fun n s hs => hnames (n, s) (Table.mem_entries_iff.2 hs))
    fun n k x hx => by
      obtain ⟨s, hs, hk⟩ := Option.bind_eq_some_iff.1 hx
      exact hentries (n, s) (Table.mem_entries_iff.2 hs) (k, x) (Table.mem_entries_iff.2 hk)
  refine ⟨hskipped, ?_, ?_⟩
  · exact (hsections "Core=x").trans (by decide +kernel)
  · exact (hsections "Empty").trans (by decide +kernel)

end Ini

/-! ### Read as another file -/

section InFile

variable {m : FileSections} {file : SettingsFile}

/-- The section `s` as one of another `file`. -/
def Section.inFile (file : SettingsFile) (s : Section) : Section :=
  { s with file := file, settings := s.settings.mapValues fun x => { x with file := file } }

/-- The sections of `m` as those of another `file`. -/
def FileSections.inFile (file : SettingsFile) (m : FileSections) : FileSections :=
  ⟨file, m.sections.mapValues (Section.inFile file)⟩

theorem Section.isEmpty_inFile (file : SettingsFile) (s : Section) :
    (s.inFile file).isEmpty = s.isEmpty :=
  List.isEmpty_map

theorem FileSections.section?_inFile (m : FileSections) (file : SettingsFile) (n : String) :
    (m.inFile file).section? n = (m.section? n).map (Section.inFile file) :=
  Table.get?_mapValues _ _ n

theorem FileSections.get?_inFile (m : FileSections) (file : SettingsFile) (n k : String) :
    (m.inFile file).get? n k = (m.get? n k).map fun x => { x with file := file } := by
  rw [get?, get?, section?_inFile]
  cases m.section? n with
  | none => rfl
  | some s => exact Table.get?_mapValues _ _ k

theorem FileSections.wellStored_inFile (hm : m.WellStored) : (m.inFile file).WellStored := by
  intro n s hs
  obtain ⟨s', hs', rfl⟩ := Option.map_eq_some_iff.1 ((section?_inFile m file n).symm.trans hs)
  obtain ⟨hn, -, hw⟩ := hm n s' hs'
  refine ⟨hn, rfl, fun k x hx => ?_⟩
  obtain ⟨x', hx', rfl⟩ := Option.map_eq_some_iff.1 ((Table.get?_mapValues _ _ k).symm.trans hx)
  obtain ⟨hk, hn', -⟩ := hw k x' hx'
  exact ⟨hk, hn', rfl⟩

namespace Ini

/-- The text of a file does not say which `file` it is of. -/
theorem write_inFile (m : FileSections) (file : SettingsFile) :
    write (m.inFile file) = write m := by
  have htext : ∀ s : Section, sectionText (s.inFile file) = sectionText s := by
    intro s
    rw [sectionText, sectionText, Section.inFile, Table.values_mapValues, List.flatMap_map]
    rfl
  rw [write, write, FileSections.inFile, Table.values_mapValues, List.filter_map, List.map_map]
  refine congrArg (fun texts => String.ofList (List.intercalate ['\n'] texts)) ?_
  have hempty : (fun s => !s.isEmpty) ∘ Section.inFile file = fun s : Section => !s.isEmpty :=
    funext fun s => congrArg _ (s.isEmpty_inFile file)
  rw [hempty]
  exact List.map_congr_left fun s _ => htext s

/-- **Reading `write m` as another `file`** gives the sections of `m` as those of that file, without
the empty ones and with every value as its text reads. -/
theorem read_write_inFile (hm : m.WellStored) (h : Readable m) :
    (read file (write m)).sections.file = file ∧ ∀ n,
      (read file (write m)).sections.section? n =
        ((m.section? n).filter fun s => !s.isEmpty).map fun s =>
          ⟨n, file, s.settings.mapValues fun x => ⟨x.key, n, file, .ofText x.value.written⟩⟩ := by
  have hreadable : Readable (m.inFile file) := by
    intro n k x hx
    obtain ⟨x', hx', rfl⟩ := Option.map_eq_some_iff.1 ((m.get?_inFile file n k).symm.trans hx)
    exact h n k x' hx'
  have hread := read_write_of_readable (FileSections.wellStored_inFile hm) hreadable
  rw [write_inFile] at hread
  change read file (write m) = _ at hread
  rw [hread]
  refine ⟨rfl, fun n => ?_⟩
  rw [FileSections.section?_reread, FileSections.section?_inFile]
  cases hs : m.section? n with
  | none => rfl
  | some s =>
      obtain ⟨rfl, -⟩ := hm n s hs
      rw [Option.map_some, Option.filter_some, Option.filter_some, Section.isEmpty_inFile]
      split
      · rw [Option.map_some, Option.map_some, Section.reread, Section.inFile,
          Table.mapValues_mapValues]
        rfl
      · rfl

end Ini

end InFile

/-! ### What reading leads to -/

/-- The section `s` is as reading leaves it: its name is one line, its entries are readable, and
every value is the one that `Value.ofText` reads from its written text. -/
structure Section.AsRead (file : SettingsFile) (s : Section) : Prop where
  file_eq : s.file = file
  wellStored : s.WellStored
  name_line : '\n' ∉ s.name.toList
  readable : ∀ k x, s.get? k = some x → Ini.ReadableEntry k.toList x.value.written.toList
  settled : ∀ k x, s.get? k = some x → Value.ofText x.value.written = x.value

/-- Every section of `m` has its own name and is `AsRead`. -/
def FileSections.AsRead (m : FileSections) : Prop :=
  ∀ n s, m.section? n = some s → s.name = n ∧ s.AsRead m.file

namespace Section.AsRead

theorem new {name : List Char} (file : SettingsFile) (h : '\n' ∉ name) :
    (Section.new (String.ofList name) file).AsRead file := by
  refine ⟨rfl, wellStored_new _ _, ?_, fun _ _ hx => ?_, fun _ _ hx => ?_⟩
  · rwa [Section.new, String.toList_ofList]
  · cases hx
  · cases hx

/-- Setting a `ReadableEntry` keeps a section `AsRead`. -/
theorem set {file : SettingsFile} {s : Section} (hs : s.AsRead file) {key value : List Char}
    (h : Ini.ReadableEntry key value) :
    (s.set (String.ofList key) (.ofText (String.ofList value))).2.AsRead file := by
  have hget : ∀ k x, (s.set (String.ofList key) (.ofText (String.ofList value))).2.get? k = some x →
      (k = String.ofList key ∧ x.value = .ofText (String.ofList value)) ∨ s.get? k = some x := by
    intro k x hx
    rw [get?_set_of_wellStored hs.wellStored] at hx
    split at hx
    · next hk => exact .inl ⟨hk, Option.some.inj hx ▸ rfl⟩
    · exact .inr hx
  refine ⟨?_, wellStored_set hs.wellStored _ _, ?_, fun k x hx => ?_, fun k x hx => ?_⟩
  · rw [file_set, hs.file_eq]
  · rw [name_set]
    exact hs.name_line
  · rcases hget k x hx with ⟨hk, hv⟩ | hx
    · rw [hk, hv, String.toList_ofList]
      exact h.written
    · exact hs.readable k x hx
  · rcases hget k x hx with ⟨-, hv⟩ | hx
    · rw [hv, Value.ofText_written_ofText]
    · exact hs.settled k x hx

end Section.AsRead

namespace FileSections.AsRead

variable {m : FileSections}

theorem new (file : SettingsFile) : (FileSections.new file).AsRead :=
  fun _ _ hs => by cases hs

theorem store (hm : m.AsRead) {s : Section} (hs : s.AsRead m.file) : (m.store s).AsRead := by
  intro n t ht
  rw [section?, FileSections.store, Table.get?_insert] at ht
  split at ht
  · next hn => exact Option.some.inj ht ▸ ⟨hn.symm, hs⟩
  · exact hm n t ht

theorem wellStored (hm : m.AsRead) : m.WellStored := fun n s hs =>
  ⟨(hm n s hs).1, (hm n s hs).2.file_eq, (hm n s hs).2.wellStored⟩

theorem readable (hm : m.AsRead) : Ini.Readable m := by
  intro n k x hx
  obtain ⟨s, hs, hk⟩ := Option.bind_eq_some_iff.1 hx
  obtain ⟨rfl, has⟩ := hm n s hs
  exact ⟨has.name_line, has.readable k x hk⟩

theorem settled (hm : m.AsRead) {n k : String} {x : Setting} (hx : m.get? n k = some x) :
    Value.ofText x.value.written = x.value := by
  obtain ⟨s, hs, hk⟩ := Option.bind_eq_some_iff.1 hx
  exact (hm n s hs).2.settled k x hk

end FileSections.AsRead

namespace Ini

theorem asRead_close {done : FileSections} (hdone : done.AsRead) {current : Option Section}
    (hcurrent : ∀ s ∈ current, s.AsRead done.file) : (close done current).AsRead := by
  cases current with
  | none => exact hdone
  | some s => exact hdone.store (hcurrent s rfl)

/-- The `name` in a header is a part of its `line`. -/
theorem feed_of_ofChars_header {line name : List Char} (hfeed : '\n' ∉ line)
    (h : Line.ofChars (Text.trim line) = .header name) : '\n' ∉ name := by
  intro hm
  have hline := Line.ofChars_header_iff.1 h
  refine hfeed (Text.trim_subset line ?_)
  rw [hline]
  exact List.mem_append_left _ (List.mem_cons_of_mem _ hm)

/-- One line after the other, what is `done` and what is `current` stays `AsRead`. -/
theorem asRead_readLines {lines : List (List Char)} (hlines : ∀ l ∈ lines, '\n' ∉ l)
    {done : FileSections} (hdone : done.AsRead) {current : Option Section}
    (hcurrent : ∀ s ∈ current, s.AsRead done.file) (number : Nat) :
    (readLines done current number lines).sections.AsRead := by
  induction lines generalizing done current number with
  | nil => exact asRead_close hdone hcurrent
  | cons line rest ih =>
      have hline := hlines line List.mem_cons_self
      have hrest : ∀ l ∈ rest, '\n' ∉ l := fun l hl => hlines l (List.mem_cons_of_mem line hl)
      unfold readLines
      split
      · exact ih hrest hdone hcurrent _
      · next name hname =>
        -- the section that was open is done, whether or not its name was there before
        refine ih hrest (asRead_close hdone hcurrent) (fun s hs => ?_) _
        rw [file_close]
        exact Option.some.inj hs ▸ .new done.file (feed_of_ofChars_header hline hname)
      · next key value hentry =>
        refine ih hrest hdone (fun s hs => ?_) _
        obtain ⟨t, ht, rfl⟩ := Option.map_eq_some_iff.1 hs
        exact (hcurrent t ht).set (readable_of_ofChars hline hentry)
      · dsimp only
        split
        · exact ih hrest hdone hcurrent _
        · exact ih hrest hdone hcurrent _

/-- **What `read` leads to**, whatever the `text`: sections under their own names, with readable
entries and values that their written texts read as. -/
theorem asRead_read (file : SettingsFile) (text : String) : (read file text).sections.AsRead :=
  asRead_readLines (fun _ hl => Text.not_mem_of_mem_lines hl) (.new file)
    (fun _ hs => by cases hs) 1

/-- **What was read reads back.** Whatever `text` holds, the sections that `read` finds are written
to a text that is read as the same sections, the empty ones left out, and so is written as itself.
-/
theorem read_write_read (file : SettingsFile) (text : String) :
    read file (write (read file text).sections) = ⟨(read file text).sections.withoutEmpty, []⟩ ∧
      write (read file (write (read file text).sections)).sections =
        write (read file text).sections := by
  have has := asRead_read file text
  have hread : read file (write (read file text).sections) =
      ⟨(read file text).sections.withoutEmpty, []⟩ := by
    have hback := read_write_of_readable has.wellStored has.readable
    rwa [file_read, FileSections.reread_eq_withoutEmpty has.wellStored fun _ _ _ => has.settled]
      at hback
  refine ⟨hread, ?_⟩
  rw [hread, write_withoutEmpty]

end Ini

end EmulatorSettings
