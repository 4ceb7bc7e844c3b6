import EmulatorSettings.Store.FileSections

/-!
# Settings files — reading

A trimmed line is blank, a header `[name]`, an entry `key=value`, or neither, as `Line.ofChars`
says.  A line from `[` to `]` is a header whatever stands between.  Any other line is cut at its
first `=`, and the parts are trimmed.

`read` never fails.  A header opens a section; if the name was open before, the section starts
over.  Entries go into the open section, a later one over an earlier one with the same key.  Lines
before the first header have nowhere to go and are passed over; after it, a line that says nothing
is reported as a `SkippedLine` with its number, counted from one.

* `Line.ofChars_header_iff`: a line is the header of exactly the name between its brackets.
* `file_read`: the sections of `read file text` belong to `file`.
-/

namespace EmulatorSettings.Ini

/-! ### One line -/

/-- Why a line is neither a header nor an entry, by the first reason that applies: no `=`, nothing
before it, or nothing after it. -/
inductive SkipReason where
  | missingSeparator
  | emptyKey
  | emptyValue
  deriving DecidableEq

/-- What a trimmed line says. -/
inductive Line where
  | blank
  | header (name : List Char)
  | entry (key value : List Char)
  | malformed (reason : SkipReason)
  deriving DecidableEq

namespace Line

/-- The name in a header, which is all that stands between `[` and `]`. -/
def headerName? : List Char → Option (List Char)
  | '[' :: r => if r.getLast? = some ']' then some r.dropLast else none
  | _        => none

/-- The `entry` that `cs` is once cut at its first `=`, or the reason why it is `malformed`. -/
def ofEntry (cs : List Char) : Line :=
  match Text.cutAt '=' cs with
  | none                 => malformed .missingSeparator
  | some (before, after) =>
    if Text.trim before = [] then malformed .emptyKey
    else if Text.trim after = [] then malformed .emptyValue
    else entry (Text.trim before) (Text.trim after)

/-- What the trimmed line `cs` says. -/
def ofChars (cs : List Char) : Line :=
  if cs = [] then blank
  else match headerName? cs with
    | some name => header name
    | none      => ofEntry cs

/-- A header is exactly a name between `[` and `]`. -/
theorem headerName?_eq_some_iff {cs name : List Char} :
    headerName? cs = some name ↔ cs = '[' :: name ++ [']'] := by
  constructor
  · intro h
    unfold headerName? at h
    split at h
    · next r =>
      split at h
      · next hl =>
        obtain rfl := Option.some.inj h
        obtain ⟨ys, rfl⟩ := List.getLast?_eq_some_iff.1 hl
        simp
      · exact absurd h (by simp)
    · exact absurd h (by simp)
  · rintro rfl
    simp [headerName?]

/-- No text is an entry and a header: `ofEntry` gives no `header`. -/
theorem ofEntry_ne_header (cs name : List Char) : ofEntry cs ≠ header name := by
  unfold ofEntry
  repeat' split
  all_goals simp

/-- The line `cs` is the header of `name` exactly if it is `name` between brackets, whatever `name`
is. -/
theorem ofChars_header_iff {cs name : List Char} :
    ofChars cs = header name ↔ cs = '[' :: name ++ [']'] := by
  rw [← headerName?_eq_some_iff]
  unfold ofChars
  by_cases h : cs = []
  · simp [h, headerName?]
  · cases hn : headerName? cs with
    | none   => simp [h, ofEntry_ne_header]
    | some m => simp [h]

end Line

/-! ### A text -/

/-- A line that was left out: its `number` counted from one, its trimmed `text`, and the `reason`.
-/
structure SkippedLine where
  number : Nat
  text : String
  reason : SkipReason
  deriving DecidableEq

/-- The `sections` of a text, and the lines that were `skipped`. -/
structure Reading where
  sections : FileSections
  skipped : List SkippedLine
  deriving DecidableEq

/-- The sections `done` with the open one, if any, stored over an earlier one of its name. -/
def close (done : FileSections) : Option Section → FileSections
  | some s => done.store s
  | none   => done

/-- Reads lines, the first of which has the given `number`, on top of the sections that are `done`
and the `current` one that is open. -/
def readLines (done : FileSections) (current : Option Section) (number : Nat) :
    List (List Char) → Reading
  | []          => ⟨close done current, []⟩
  | line :: rest =>
    match Line.ofChars (Text.trim line) with
    | .blank            => readLines done current (number + 1) rest
    | .header name      =>
      readLines (close done current) (some (Section.new (String.ofList name) done.file))
        (number + 1) rest
    | .entry key value  =>
      readLines done
        (current.map fun s =>
          (s.set (String.ofList key) (Value.ofText (String.ofList value))).2)
        (number + 1) rest
    | .malformed reason =>
      let r := readLines done current (number + 1) rest
      if current.isSome then
        { r with
          skipped := ⟨number, String.ofList (Text.trim line), reason⟩ :: r.skipped }
      else r

/-- Reads the `text` of `file`. -/
def read (file : SettingsFile) (text : String) : Reading :=
  readLines (FileSections.new file) none 1 (Text.lines text.toList)

/-- Closing a section keeps the file of the sections `done`. -/
@[simp] theorem file_close (done : FileSections) (current : Option Section) :
    (close done current).file = done.file := by
  cases current <;> rfl

/-- What `readLines` adds belongs to the file of the sections `done`. -/
theorem file_readLines (done : FileSections) (current : Option Section) (number : Nat)
    (lines : List (List Char)) :
    (readLines done current number lines).sections.file = done.file := by
  induction lines generalizing done current number with
  | nil => exact file_close done current
  | cons line rest ih =>
    unfold readLines
    split
    · exact ih ..
    · rw [ih, file_close]
    · exact ih ..
    · dsimp only
      split <;> exact ih ..

/-- The sections of `read file text` belong to `file`. -/
@[simp] theorem file_read (file : SettingsFile) (text : String) :
    (read file text).sections.file = file :=
  file_readLines ..

end EmulatorSettings.Ini
