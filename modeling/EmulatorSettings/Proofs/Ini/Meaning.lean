import EmulatorSettings.Proofs.Ini.Readable

/-!
# Settings files — what a text means

What a text says, without a reader that goes through it: a section is there if it has a header, its
settings are those of the block after its *last* header, and in a block the last line of a key
counts.  A line is left out if it comes after some header and says nothing.

* `ofChars_eq_entry_iff`, `ofChars_eq_malformed_iff`: what one line says.
* `section?_readLines`: what the reader has under a name, by the last block of that name.
* `skipped_readLines`: which lines the reader leaves out.
* `read_meaning`: the reader gives exactly what the text says.
-/

namespace EmulatorSettings.Ini

open Text (trim)

/-! ### What the lines say -/

/-- What `Text.lines` makes of `text`, every line trimmed. -/
def trimmedLines (text : String) : List (List Char) :=
  (Text.lines text.toList).map trim

/-- The line `[name]` of a header. -/
def headerLine (name : List Char) : List Char :=
  '[' :: name ++ [']']

/-- The `line` is the `headerLine` of some name. -/
def IsHeader (line : List Char) : Prop :=
  ∃ name, line = headerLine name

/-- The `line` has `key` before its first `=` and `value` after it, both trimmed. -/
def SplitsInto (line key value : List Char) : Prop :=
  ∃ before after, line = before ++ '=' :: after ∧ '=' ∉ before ∧
    trim before = key ∧ trim after = value

/-- The `line` is no header and `SplitsInto` a `key` and a `value`, neither of them empty. -/
def IsEntry (line key value : List Char) : Prop :=
  ¬ IsHeader line ∧ SplitsInto line key value ∧ key ≠ [] ∧ value ≠ []

/-- The first reason for which a `line` does not split into a key and a value, neither of them
empty. -/
inductive Fault (line : List Char) : SkipReason → Prop where
  | missingSeparator (h : '=' ∉ line) : Fault line .missingSeparator
  | emptyKey {value : List Char} (h : SplitsInto line [] value) : Fault line .emptyKey
  | emptyValue {key : List Char} (h : SplitsInto line key []) (hkey : key ≠ []) :
      Fault line .emptyValue

/-- The `block` stands in `lines` after the last `headerLine name`, up to the next header or the
end. -/
def IsLastBlock (lines : List (List Char)) (name : List Char) (block : List (List Char)) : Prop :=
  ∃ before rest, lines = before ++ headerLine name :: (block ++ rest) ∧
    headerLine name ∉ rest ∧ (∀ l ∈ block, ¬ IsHeader l) ∧ ∀ l ∈ rest.head?, IsHeader l

/-- The last line of `block` that is an entry of `key` has the `value`. -/
def IsLastEntry (block : List (List Char)) (key value : List Char) : Prop :=
  ∃ earlier line later, block = earlier ++ line :: later ∧ IsEntry line key value ∧
    ∀ l ∈ later, ∀ v, ¬ IsEntry l key v

/-! ### One line -/

theorem isHeader_iff {line : List Char} :
    IsHeader line ↔ ∃ name, Line.ofChars line = .header name :=
  exists_congr fun _ => Line.ofChars_header_iff.symm

theorem cutAt_eq_some {line before after : List Char}
    (h : Text.cutAt '=' line = some (before, after)) :
    SplitsInto line (trim before) (trim after) := by
  obtain ⟨rfl, hn⟩ := Text.cutAt_eq_some_iff.1 h
  exact ⟨before, after, rfl, hn, rfl, rfl⟩

/-- A `line` splits in one way only, the one that `Text.cutAt` finds. -/
theorem SplitsInto.cutAt {line key value : List Char} (h : SplitsInto line key value) :
    ∃ before after, Text.cutAt '=' line = some (before, after) ∧ trim before = key ∧
      trim after = value := by
  obtain ⟨before, after, hline, hn, hk, hv⟩ := h
  exact ⟨before, after, Text.cutAt_eq_some_iff.2 ⟨hline, hn⟩, hk, hv⟩

theorem ofEntry_eq_entry_iff {line key value : List Char} :
    Line.ofEntry line = .entry key value ↔ SplitsInto line key value ∧ key ≠ [] ∧ value ≠ [] := by
  constructor
  · intro h
    unfold Line.ofEntry at h
    split at h
    · cases h
    · next before after hcut =>
      split at h
      · cases h
      · next hkey =>
        split at h
        · cases h
        · next hvalue =>
          cases h
          exact ⟨cutAt_eq_some hcut, hkey, hvalue⟩
  · rintro ⟨h, hkey, hvalue⟩
    obtain ⟨before, after, hcut, rfl, rfl⟩ := h.cutAt
    simp only [Line.ofEntry, hcut, if_neg hkey, if_neg hvalue]

theorem ofEntry_eq_malformed_iff {line : List Char} {reason : SkipReason} :
    Line.ofEntry line = .malformed reason ↔ Fault line reason := by
  constructor
  · intro h
    unfold Line.ofEntry at h
    split at h
    · next hcut =>
      cases h
      exact .missingSeparator (Text.cutAt_eq_none_iff.1 hcut)
    · next before after hcut =>
      split at h
      · next hkey =>
        cases h
        exact .emptyKey (hkey ▸ cutAt_eq_some hcut)
      · next hkey =>
        split at h
        · next hvalue =>
          cases h
          exact .emptyValue (hvalue ▸ cutAt_eq_some hcut) hkey
        · cases h
  · rintro (h | h | ⟨h, hkey⟩)
    · simp only [Line.ofEntry, Text.cutAt_eq_none_iff.2 h]
    · obtain ⟨before, after, hcut, hk, -⟩ := h.cutAt
      simp only [Line.ofEntry, hcut, hk, if_true]
    · obtain ⟨before, after, hcut, rfl, hv⟩ := h.cutAt
      simp only [Line.ofEntry, hcut, if_neg hkey, hv, if_true]

/-- A `line` that is neither blank nor a header is left to `Line.ofEntry`. -/
theorem ofChars_of_not_header {line : List Char} (hne : line ≠ []) (h : ¬ IsHeader line) :
    Line.ofChars line = Line.ofEntry line := by
  have hnone : Line.headerName? line = none :=
    Option.eq_none_iff_forall_ne_some.2 fun name hname =>
      h ⟨name, Line.headerName?_eq_some_iff.1 hname⟩
  rw [Line.ofChars, if_neg hne, hnone]

theorem not_splitsInto_nil {key value : List Char} : ¬ SplitsInto [] key value := by
  rintro ⟨before, after, h, -⟩
  exact List.append_ne_nil_of_right_ne_nil before (List.cons_ne_nil '=' after) h.symm

theorem ne_nil_of_ofChars {line : List Char} {l : Line} (h : Line.ofChars line = l)
    (hblank : l ≠ .blank) : line ≠ [] := by
  rintro rfl
  exact hblank h.symm

theorem not_isHeader_of_ofChars {line : List Char} {l : Line} (h : Line.ofChars line = l)
    (hheader : ∀ name, l ≠ .header name) : ¬ IsHeader line := fun hh =>
  let ⟨name, hname⟩ := isHeader_iff.1 hh
  hheader name (h.symm.trans hname)

/-- **The answer of `Line.ofChars` is an entry** exactly if the `line` is one, by `IsEntry`. -/
theorem ofChars_eq_entry_iff {line key value : List Char} :
    Line.ofChars line = .entry key value ↔ IsEntry line key value := by
  constructor
  · intro h
    have hne := ne_nil_of_ofChars h nofun
    have hh := not_isHeader_of_ofChars h nofun
    exact ⟨hh, ofEntry_eq_entry_iff.1 ((ofChars_of_not_header hne hh).symm.trans h)⟩
  · rintro ⟨hh, h⟩
    have hne : line ≠ [] := by
      rintro rfl
      exact not_splitsInto_nil h.1
    rw [ofChars_of_not_header hne hh, ofEntry_eq_entry_iff.2 h]

/-- **The answer of `Line.ofChars` is `malformed reason`** exactly if the `line` is neither blank
nor a header and has the `Fault`. -/
theorem ofChars_eq_malformed_iff {line : List Char} {reason : SkipReason} :
    Line.ofChars line = .malformed reason ↔ line ≠ [] ∧ ¬ IsHeader line ∧ Fault line reason := by
  constructor
  · intro h
    have hne := ne_nil_of_ofChars h nofun
    have hh := not_isHeader_of_ofChars h nofun
    exact ⟨hne, hh, ofEntry_eq_malformed_iff.1 ((ofChars_of_not_header hne hh).symm.trans h)⟩
  · rintro ⟨hne, hh, h⟩
    rw [ofChars_of_not_header hne hh, ofEntry_eq_malformed_iff.2 h]

/-! ### The lines of a block -/

/-- The value of a `line` that `Line.ofChars` reads as an entry of `key`. -/
def valueOf? (key line : List Char) : Option (List Char) :=
  match Line.ofChars line with
  | .entry key' value => if key' = key then some value else none
  | _                 => none

theorem valueOf?_eq_some_iff {key line value : List Char} :
    valueOf? key line = some value ↔ IsEntry line key value := by
  rw [← ofChars_eq_entry_iff, valueOf?]
  cases Line.ofChars line with
  | entry key' value' => by_cases h : key' = key <;> simp [h]
  | blank => simp
  | header name => simp
  | malformed reason => simp

/-- The value on the last line of `block` that is an entry of `key`, by a search from its end. -/
def lastValue? (key : List Char) (block : List (List Char)) : Option (List Char) :=
  block.reverse.findSome? (valueOf? key)

theorem lastValue?_cons (key line : List Char) (rest : List (List Char)) :
    lastValue? key (line :: rest) = (lastValue? key rest).or (valueOf? key line) := by
  rw [lastValue?, List.reverse_cons, List.findSome?_append, List.findSome?_singleton, lastValue?]

theorem lastValue?_eq_some_iff {key value : List Char} {block : List (List Char)} :
    lastValue? key block = some value ↔ IsLastEntry block key value := by
  have hnone : ∀ l, valueOf? key l = none ↔ ∀ v, ¬ IsEntry l key v := fun l =>
    Option.eq_none_iff_forall_ne_some.trans (forall_congr' fun _ => valueOf?_eq_some_iff.not)
  rw [lastValue?, List.findSome?_eq_some_iff]
  constructor
  · rintro ⟨later, line, earlier, hblock, hline, hlater⟩
    refine ⟨earlier.reverse, line, later.reverse, ?_, valueOf?_eq_some_iff.1 hline, fun l hl => ?_⟩
    · rw [← List.reverse_reverse block, hblock]
      simp
    · exact (hnone l).1 (hlater l (List.mem_reverse.1 hl))
  · rintro ⟨earlier, line, later, rfl, hline, hlater⟩
    refine ⟨later.reverse, line, earlier.reverse, by simp, valueOf?_eq_some_iff.2 hline, ?_⟩
    intro l hl
    exact (hnone l).2 (hlater l (List.mem_reverse.1 hl))

/-- The section `s` with the entries of some lines set in it, one after the other. -/
def addLines (s : Section) : List (List Char) → Section
  | []        => s
  | line :: r =>
    match Line.ofChars line with
    | .entry key value =>
      addLines (s.set (String.ofList key) (.ofText (String.ofList value))).2 r
    | _                => addLines s r

/-- **The entries of a block.** What `addLines` leaves under `k` is the `lastValue?` of the lines,
or what `s` had. -/
theorem get?_addLines {s : Section} (hs : s.WellStored) (lines : List (List Char)) (k : String) :
    (addLines s lines).get? k =
      ((lastValue? k.toList lines).map
        fun value => ⟨k, s.name, s.file, .ofText (String.ofList value)⟩).or (s.get? k) := by
  induction lines generalizing s with
  | nil => rfl
  | cons line rest ih =>
      rw [addLines, lastValue?_cons, valueOf?]
      cases Line.ofChars line with
      | entry key value =>
          dsimp only
          rw [ih (Section.wellStored_set hs _ _), Section.get?_set_of_wellStored hs,
            Section.name_set, Section.file_set]
          by_cases hk : k = String.ofList key
          · subst hk
            simp [String.toList_ofList]
          · have hk' : key ≠ k.toList := fun h => hk (by rw [h, String.ofList_toList])
            rw [if_neg hk, if_neg hk', Option.or_none]
      | blank => rw [ih hs, Option.or_none]
      | header name => rw [ih hs, Option.or_none]
      | malformed reason => rw [ih hs, Option.or_none]

@[simp] theorem name_addLines (s : Section) (lines : List (List Char)) :
    (addLines s lines).name = s.name := by
  induction lines generalizing s with
  | nil => rfl
  | cons line rest ih =>
      rw [addLines]
      split
      · rw [ih, Section.name_set]
      · exact ih s

/-! ### Blocks -/

theorem headerName?_eq_none_iff {line : List Char} :
    Line.headerName? line = none ↔ ¬ IsHeader line := by
  rw [Option.eq_none_iff_forall_ne_some, IsHeader, not_exists]
  exact forall_congr' fun _ => Line.headerName?_eq_some_iff.not

theorem isHeader_headerLine (name : List Char) : IsHeader (headerLine name) :=
  ⟨name, rfl⟩

theorem headerLine_inj {name name' : List Char} :
    headerLine name = headerLine name' ↔ name = name' := by
  simp [headerLine]

/-- The `lines` before the first header. -/
def leading (lines : List (List Char)) : List (List Char) :=
  lines.takeWhile fun l => (Line.headerName? l).isNone

theorem leading_cons_of_not_header {line : List Char} (h : ¬ IsHeader line)
    (rest : List (List Char)) : leading (line :: rest) = line :: leading rest :=
  List.takeWhile_cons_of_pos (by rw [headerName?_eq_none_iff.2 h]; rfl)

theorem leading_cons_of_header {line : List Char} (h : IsHeader line) (rest : List (List Char)) :
    leading (line :: rest) = [] := by
  refine List.takeWhile_cons_of_neg fun hnone => ?_
  exact headerName?_eq_none_iff.1 (Option.isNone_iff_eq_none.1 hnone) h

/-- Where no header stands in `block`, and `rest` starts with one or is empty,
`leading (block ++ rest)` is `block`. -/
theorem leading_append {block rest : List (List Char)} (hblock : ∀ l ∈ block, ¬ IsHeader l)
    (hrest : ∀ l ∈ rest.head?, IsHeader l) : leading (block ++ rest) = block := by
  induction block with
  | nil =>
      cases rest with
      | nil => rfl
      | cons l r => exact leading_cons_of_header (hrest l rfl) r
  | cons l b ih =>
      rw [List.cons_append, leading_cons_of_not_header (hblock l List.mem_cons_self),
        ih fun l' hl => hblock l' (List.mem_cons_of_mem l hl)]

theorem exists_leading (lines : List (List Char)) :
    ∃ rest, lines = leading lines ++ rest ∧ (∀ l ∈ leading lines, ¬ IsHeader l) ∧
      ∀ l ∈ rest.head?, IsHeader l := by
  induction lines with
  | nil => exact ⟨[], rfl, nofun, nofun⟩
  | cons line r ih =>
      by_cases h : IsHeader line
      · rw [leading_cons_of_header h]
        exact ⟨line :: r, rfl, nofun, fun l hl => Option.some.inj hl ▸ h⟩
      · obtain ⟨rest, hr, hblock, hrest⟩ := ih
        rw [leading_cons_of_not_header h]
        refine ⟨rest, congrArg (line :: ·) hr, fun l hl => ?_, hrest⟩
        rcases List.mem_cons.1 hl with rfl | hl
        · exact h
        · exact hblock l hl

/-- The block after the last `headerLine name`, by going through the lines. -/
def lastBlock? (name : List Char) : List (List Char) → Option (List (List Char))
  | []        => none
  | line :: r =>
    (lastBlock? name r).or (if line = headerLine name then some (leading r) else none)

theorem lastBlock?_eq_none_iff {name : List Char} {lines : List (List Char)} :
    lastBlock? name lines = none ↔ headerLine name ∉ lines := by
  induction lines with
  | nil => simp [lastBlock?]
  | cons line r ih =>
      rw [lastBlock?, Option.or_eq_none_iff, ih, List.mem_cons, not_or, and_comm]
      by_cases h : line = headerLine name <;> simp [h, eq_comm]

theorem lastBlock?_eq_some_iff {name : List Char} {lines block : List (List Char)} :
    lastBlock? name lines = some block ↔ IsLastBlock lines name block := by
  induction lines with
  | nil =>
      refine ⟨nofun, ?_⟩
      rintro ⟨before, rest, h, -⟩
      exact absurd h.symm (List.append_ne_nil_of_right_ne_nil before (List.cons_ne_nil _ _))
  | cons line r ih =>
      rw [lastBlock?, Option.or_eq_some_iff, ih]
      constructor
      · rintro (⟨before, rest, rfl, h⟩ | ⟨hnone, h⟩)
        · exact ⟨line :: before, rest, rfl, h⟩
        · split at h
          · next hline =>
            subst hline
            obtain rfl := Option.some.inj h
            obtain ⟨rest, hr, hblock, hrest⟩ := exists_leading r
            have hlast := lastBlock?_eq_none_iff.1 hnone
            refine ⟨[], rest, congrArg (_ :: ·) hr, fun hm => hlast ?_, hblock, hrest⟩
            rw [hr]
            exact List.mem_append_right _ hm
          · cases h
      · rintro ⟨before, rest, h, hlast, hblock, hrest⟩
        cases before with
        | nil =>
            obtain ⟨rfl, rfl⟩ := List.cons.inj h
            refine .inr ⟨lastBlock?_eq_none_iff.2 fun hm => ?_, ?_⟩
            · rcases List.mem_append.1 hm with hm | hm
              · exact hblock _ hm (isHeader_headerLine name)
              · exact hlast hm
            · rw [if_pos rfl, leading_append hblock hrest]
        | cons b bs =>
            obtain ⟨rfl, rfl⟩ := List.cons.inj h
            exact .inl ⟨bs, rest, rfl, hlast, hblock, hrest⟩

theorem lastBlock?_cons_of_not_header {line : List Char} (h : ¬ IsHeader line) (name : List Char)
    (rest : List (List Char)) : lastBlock? name (line :: rest) = lastBlock? name rest := by
  rw [lastBlock?, if_neg fun hl => h ⟨name, hl⟩, Option.or_none]

/-! ### The reader's sections -/

theorem section?_close_some (done : FileSections) (s : Section) (n : String) :
    (close done (some s)).section? n = if n = s.name then some s else done.section? n :=
  Table.get?_insert _ _ _ _

/-- **The sections of `readLines`**, from any state of it.  The section of a name with a header in
`lines` is made by `addLines` of its `lastBlock?`.  The section `current` gets the `leading` lines,
and what was `done` stays unless it has a header again. -/
theorem section?_readLines (done : FileSections) (current : Option Section) (number : Nat)
    (lines : List (List Char)) (n : String) :
    (readLines done current number lines).sections.section? n =
      ((lastBlock? n.toList (lines.map trim)).map (addLines (.new n done.file))).or
        ((close done (current.map fun s => addLines s (leading (lines.map trim)))).section? n) := by
  induction lines generalizing done current number with
  | nil => cases current <;> rfl
  | cons line rest ih =>
      rw [readLines, List.map_cons]
      generalize trim line = l
      cases hsays : Line.ofChars l with
      | header name =>
          -- the open section is done, and a block of this name begins
          obtain rfl : l = headerLine name := Line.ofChars_header_iff.1 hsays
          dsimp only
          have hname : headerLine name = headerLine n.toList ↔ n = String.ofList name := by
            rw [headerLine_inj, ← String.toList_inj, String.toList_ofList, eq_comm]
          rw [ih, file_close, leading_cons_of_header (isHeader_headerLine name), lastBlock?,
            Option.map_some, section?_close_some,
            show (addLines _ _).name = String.ofList name from name_addLines _ _]
          cases lastBlock? n.toList (rest.map trim) with
          | some block => rfl
          | none =>
              by_cases hn : n = String.ofList name
              · rw [if_pos hn, if_pos (hname.2 hn), hn]
                rfl
              · rw [if_neg hn, if_neg (hname.not.2 hn)]
                cases current <;> rfl
      | blank =>
          have hh := not_isHeader_of_ofChars hsays nofun
          simp only [ih, lastBlock?_cons_of_not_header hh, leading_cons_of_not_header hh, addLines,
            hsays]
      | entry key value =>
          have hh := not_isHeader_of_ofChars hsays nofun
          simp only [ih, lastBlock?_cons_of_not_header hh, leading_cons_of_not_header hh, addLines,
            hsays, Option.map_map, Function.comp_def]
      | malformed reason =>
          have hh := not_isHeader_of_ofChars hsays nofun
          simp only [lastBlock?_cons_of_not_header hh, leading_cons_of_not_header hh, addLines,
            hsays]
          rw [← ih done current (number + 1)]
          split <;> rfl

/-! ### The lines left out -/

/-- The skipped line `s` is one of `lines`, the first of which has the number `first`:
`Line.ofChars` finds it malformed, and it comes after a header or, if `isOpen`, anywhere. -/
def LeftOut (isOpen : Prop) (first : Nat) (lines : List (List Char)) (s : SkippedLine) : Prop :=
  ∃ before line after, lines = before ++ line :: after ∧ (isOpen ∨ ∃ h ∈ before, IsHeader h) ∧
    Line.ofChars line = .malformed s.reason ∧
    s.number = first + before.length ∧ s.text = String.ofList line

theorem not_leftOut_nil {isOpen : Prop} {first : Nat} {s : SkippedLine} :
    ¬ LeftOut isOpen first [] s := by
  rintro ⟨before, line, after, h, -⟩
  exact List.append_ne_nil_of_right_ne_nil before (List.cons_ne_nil line after) h.symm

/-- What is `LeftOut` is the first line or one of the `rest`. -/
theorem leftOut_cons {isOpen : Prop} {first : Nat} {line : List Char} {rest : List (List Char)}
    {s : SkippedLine} :
    LeftOut isOpen first (line :: rest) s ↔
      (isOpen ∧ Line.ofChars line = .malformed s.reason ∧ s.number = first ∧
        s.text = String.ofList line) ∨
      LeftOut (isOpen ∨ IsHeader line) (first + 1) rest s := by
  constructor
  · rintro ⟨before, l, after, h, hopen, hsays, hnumber, htext⟩
    cases before with
    | nil =>
        obtain ⟨rfl, rfl⟩ := List.cons.inj h
        exact .inl ⟨hopen.resolve_right (by simp), hsays, hnumber, htext⟩
    | cons b bs =>
        obtain ⟨rfl, rfl⟩ := List.cons.inj h
        refine .inr ⟨bs, l, after, rfl, ?_, hsays, ?_, htext⟩
        · simpa [or_assoc] using hopen
        · rw [hnumber, List.length_cons]
          omega
  · rintro (⟨hopen, hsays, hnumber, htext⟩ |
      ⟨before, l, after, rfl, hopen, hsays, hnumber, htext⟩)
    · exact ⟨[], line, rest, rfl, .inl hopen, hsays, hnumber, htext⟩
    · refine ⟨line :: before, l, after, rfl, ?_, hsays, ?_, htext⟩
      · simpa [or_assoc] using hopen
      · rw [hnumber, List.length_cons]
        omega

/-- **The lines that `readLines` leaves out**, from any state of it: those that are `LeftOut`, in
the order of their numbers. -/
theorem skipped_readLines (done : FileSections) (current : Option Section) (number : Nat)
    (lines : List (List Char)) :
    (readLines done current number lines).skipped.Pairwise (fun a b => a.number < b.number) ∧
      ∀ s, s ∈ (readLines done current number lines).skipped ↔
        LeftOut (current.isSome = true) number (lines.map trim) s := by
  induction lines generalizing done current number with
  | nil =>
      exact ⟨.nil, fun s => ⟨fun h => absurd h List.not_mem_nil, fun h => absurd h not_leftOut_nil⟩⟩
  | cons line rest ih =>
      rw [readLines, List.map_cons]
      simp only [leftOut_cons]
      generalize trim line = l
      cases hsays : Line.ofChars l with
      | header name =>
          obtain ⟨hsorted, hmem⟩ := ih (close done current)
            (some (Section.new (String.ofList name) done.file)) (number + 1)
          have hh : IsHeader l := isHeader_iff.2 ⟨name, hsays⟩
          exact ⟨hsorted, fun s => (hmem s).trans (by simp [hh])⟩
      | blank =>
          obtain ⟨hsorted, hmem⟩ := ih done current (number + 1)
          have hh := not_isHeader_of_ofChars hsays fun _ => Line.noConfusion
          exact ⟨hsorted, fun s => (hmem s).trans (by simp [hh])⟩
      | entry key value =>
          obtain ⟨hsorted, hmem⟩ := ih done (current.map fun s =>
            (s.set (String.ofList key) (Value.ofText (String.ofList value))).2) (number + 1)
          have hh := not_isHeader_of_ofChars hsays fun _ => Line.noConfusion
          exact ⟨hsorted, fun s => (hmem s).trans (by simp [hh])⟩
      | malformed reason =>
          obtain ⟨hsorted, hmem⟩ := ih done current (number + 1)
          have hh := not_isHeader_of_ofChars hsays fun _ => Line.noConfusion
          by_cases hopen : current.isSome = true
          · simp only [hopen, if_true]
            refine ⟨List.pairwise_cons.2 ⟨fun s hs => ?_, hsorted⟩, fun s => ?_⟩
            · -- the lines after this one have greater numbers
              obtain ⟨before, -, -, -, -, -, hnumber, -⟩ := (hmem s).1 hs
              show number < s.number
              omega
            · obtain ⟨n, text, r⟩ := s
              rw [List.mem_cons, hmem]
              simp only [hopen, hh, SkippedLine.mk.injEq, Line.malformed.injEq, true_and, or_false,
                eq_comm (a := r)]
              tauto
          · simp only [hopen]
            exact ⟨hsorted, fun s => (hmem s).trans (by simp [hopen, hh])⟩

/-! ### What a text means -/

/-- **What `read file text` answers**, for every `text`.  `section? n` finds a section exactly if
some line is the `headerLine` of `n`.  `get? n k` finds what the block after the last such header
says on its last line that `IsEntry` of `k`, with the value that `Value.ofText` reads.  The list
`skipped` holds, in order and with their numbers, the lines after some header that are neither blank
nor headers nor entries, each with the first `Fault` that applies. -/
theorem read_meaning (file : SettingsFile) (text : String) :
    (∀ n, (read file text).sections.section? n ≠ none ↔ headerLine n.toList ∈ trimmedLines text) ∧
    (∀ n k x, (read file text).sections.get? n k = some x ↔
      ∃ block value, IsLastBlock (trimmedLines text) n.toList block ∧
        IsLastEntry block k.toList value ∧ x = ⟨k, n, file, .ofText (String.ofList value)⟩) ∧
    (read file text).skipped.Pairwise (fun a b => a.number < b.number) ∧
    ∀ s, s ∈ (read file text).skipped ↔
      ∃ before line after, trimmedLines text = before ++ line :: after ∧
        (∃ h ∈ before, IsHeader h) ∧ line ≠ [] ∧ ¬ IsHeader line ∧ Fault line s.reason ∧
        s.number = before.length + 1 ∧ s.text = String.ofList line := by
  have hsection : ∀ n, (read file text).sections.section? n =
      (lastBlock? n.toList (trimmedLines text)).map (addLines (.new n file)) := fun n => by
    rw [read, section?_readLines, Option.map_none]
    exact Option.or_none
  obtain ⟨hsorted, hmem⟩ := skipped_readLines (.new file) none 1 (Text.lines text.toList)
  refine ⟨fun n => ?_, fun n k x => ?_, hsorted, fun s => (hmem s).trans ?_⟩
  · rw [hsection, Ne, Option.map_eq_none_iff, lastBlock?_eq_none_iff, not_not]
  · have hget : ∀ block, (addLines (.new n file) block).get? k = some x ↔
        ∃ value, IsLastEntry block k.toList value ∧
          x = ⟨k, n, file, .ofText (String.ofList value)⟩ := fun block => by
      rw [get?_addLines (Section.wellStored_new n file), show (Section.new n file).get? k = none
        from rfl, Option.or_none, Option.map_eq_some_iff]
      simp only [lastValue?_eq_some_iff, eq_comm (b := x)]
      rfl
    rw [FileSections.get?, hsection, Option.bind_eq_some_iff]
    constructor
    · rintro ⟨s, hs, hx⟩
      obtain ⟨block, hblock, rfl⟩ := Option.map_eq_some_iff.1 hs
      obtain ⟨value, hvalue⟩ := (hget block).1 hx
      exact ⟨block, value, lastBlock?_eq_some_iff.1 hblock, hvalue⟩
    · rintro ⟨block, value, hblock, hvalue⟩
      exact ⟨_, Option.map_eq_some_iff.2 ⟨block, lastBlock?_eq_some_iff.2 hblock, rfl⟩,
        (hget block).2 ⟨value, hvalue⟩⟩
  · simp only [LeftOut, ofChars_eq_malformed_iff, trimmedLines, and_assoc, Nat.add_comm 1]
    simp

end EmulatorSettings.Ini
