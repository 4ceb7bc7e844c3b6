import EmulatorSettings.Store.Setting
import EmulatorSettings.Table.Basic

/-!
# Sections

A `Section` is a named group of settings in one file, in the byte order of their keys.  Its own
operations create settings with the section's identity; a setting that comes with an identity of
its own is taken only if that identity fits.

The sections of one file, `FileSections`, stand in the byte order of their names.  Whatever writes
to a section that is not there creates it first, so an empty section may stand in the store; it
leaves no trace in the file.

* `Section.get?_set`: setting a key gives that key the value and leaves the others alone.
* `Section.put_eq_ok_iff`: a setting is taken exactly when it belongs to the section and its file.
* `FileSections.section?_modify`: work on one section leaves the others alone.
-/

namespace EmulatorSettings

/-! ### Sections -/

/-- A named group of `settings` of one file, by key. -/
structure Section where
  name : String
  file : SettingsFile
  settings : Table String Setting
  deriving DecidableEq

namespace Section

/-- The section `name` of `file` without settings. -/
def new (name : String) (file : SettingsFile) : Section :=
  ⟨name, file, .empty⟩

instance : Inhabited Section := ⟨new "" .config⟩

/-- The setting under `key`. -/
def get? (s : Section) (key : String) : Option Setting :=
  s.settings.get? key

/-- Whether `s` has no setting, and so is left out of its file. -/
def isEmpty (s : Section) : Bool :=
  s.settings.isEmpty

/-- Takes a setting `x` that belongs here, and gives the one it replaces. -/
def put (s : Section) (x : Setting) : Except StoreError (Option Setting × Section) :=
  if x.sectionName ≠ s.name then .error (.sectionMismatch x.key x.sectionName s.name)
  else if x.file ≠ s.file then .error (.fileMismatch x.key x.file.fileName s.file.fileName)
  else .ok (s.get? x.key, { s with settings := s.settings.insert x.key x })

/-- Gives `key` the value `value`, and tells whether that changed anything; a new setting has the
identity of the section. -/
def set (s : Section) (key : String) (value : Value) : Bool × Section :=
  match s.get? key with
  | some x =>
    ((x.set value).1, { s with settings := s.settings.insert key (x.set value).2 })
  | none   =>
    (true, { s with settings := s.settings.insert key ⟨key, s.name, s.file, value⟩ })

/-- Gives `key` the value `value`, if `checkEntry` passes them. -/
def trySet (s : Section) (key : String) (value : Value) : Except StoreError (Bool × Section) :=
  (checkEntry key value).map fun () => s.set key value

/-- Changes the value under a `key` that is there, and tells whether that changed anything; `none`
if it is not there. -/
def update (s : Section) (key : String) (value : Value) : Option Bool × Section :=
  match s.get? key with
  | some x =>
    (some (x.set value).1, { s with settings := s.settings.insert key (x.set value).2 })
  | none   => (none, s)

/-- Removes `key`, and gives the setting that was there. -/
def remove (s : Section) (key : String) : Option Setting × Section :=
  (s.get? key, { s with settings := s.settings.erase key })

/-- After `set`, `key` has `value` and every other key what it had. -/
theorem get?_set (s : Section) (key key' : String) (value : Value) :
    ((s.set key value).2.get? key').map (·.value) =
      if key' = key then some value else (s.get? key').map (·.value) := by
  unfold set
  split <;> simp only [get?, Table.get?_insert] <;> split <;> simp [Setting.set]

/-- A setting is taken by `put` exactly when it belongs to the section and its file. -/
theorem put_eq_ok_iff {s : Section} {x : Setting} {r : Option Setting × Section} :
    s.put x = .ok r ↔ (x.sectionName = s.name ∧ x.file = s.file) ∧
      r = (s.get? x.key, { s with settings := s.settings.insert x.key x }) := by
  unfold put
  by_cases h₁ : x.sectionName = s.name
  · by_cases h₂ : x.file = s.file
    · simp [h₁, h₂, eq_comm]
    · simp [h₁, h₂]
  · simp [h₁]

end Section

/-! ### The sections of one file -/

/-- The `sections` of one `file`, by name. -/
structure FileSections where
  file : SettingsFile
  sections : Table String Section
  deriving DecidableEq

namespace FileSections

/-- The `file` without sections. -/
def new (file : SettingsFile) : FileSections :=
  ⟨file, .empty⟩

instance : Inhabited FileSections := ⟨new .config⟩

/-- The section `name`, if there is one. -/
def section? (m : FileSections) (name : String) : Option Section :=
  m.sections.get? name

/-- The section `name`, empty if there is none yet. -/
def sectionOrNew (m : FileSections) (name : String) : Section :=
  (m.section? name).getD (Section.new name m.file)

/-- Runs `work` on the section `name`, created empty if there is none yet. -/
def modify {α : Type} (m : FileSections) (name : String) (work : Section → α × Section) :
    α × FileSections :=
  let (result, s) := work (m.sectionOrNew name)
  (result, { m with sections := m.sections.insert name s })

/-- Creates the section `name` if there is none yet. -/
def ensure (m : FileSections) (name : String) : FileSections :=
  (m.modify name fun s => ((), s)).2

/-- Creates the section `name` if there is none yet and `checkName` passes the name. -/
def tryEnsure (m : FileSections) (name : String) : Except StoreError FileSections :=
  (checkName name).map fun () => m.ensure name

/-- The sections with `s` in the place of the one with its name. -/
def store (m : FileSections) (s : Section) : FileSections :=
  { m with sections := m.sections.insert s.name s }

/-- Takes a whole section `s` of this file, and gives the one it replaces. -/
def insert (m : FileSections) (s : Section) : Except StoreError (Option Section × FileSections) :=
  if s.file ≠ m.file then .error (.fileMismatch s.name s.file.fileName m.file.fileName)
  else .ok (m.section? s.name, m.store s)

/-- The setting under `sectionName` and `key`. -/
def get? (m : FileSections) (sectionName key : String) : Option Setting :=
  (m.section? sectionName).bind fun s => s.get? key

/-- Takes a setting `x` of this file into the section it belongs to, and gives the one it replaces.
-/
def put (m : FileSections) (x : Setting) : Except StoreError (Option Setting × FileSections) :=
  if x.file ≠ m.file then .error (.fileMismatch x.key x.file.fileName m.file.fileName)
  else
    ((m.sectionOrNew x.sectionName).put x).map fun (replaced, s) =>
      (replaced, { m with sections := m.sections.insert x.sectionName s })

/-- Gives `key` of a section the value `value`, and tells whether that changed anything. -/
def set (m : FileSections) (sectionName key : String) (value : Value) : Bool × FileSections :=
  m.modify sectionName fun s => s.set key value

/-- Whether `m` has no section, not even an empty one. -/
def isEmpty (m : FileSections) : Bool :=
  m.sections.isEmpty

/-- Work on the section `name` changes that section alone. -/
theorem section?_modify {α : Type} (m : FileSections) (name name' : String)
    (work : Section → α × Section) :
    (m.modify name work).2.section? name' =
      if name' = name then some (work (m.sectionOrNew name)).2 else m.section? name' := by
  simp [modify, section?, Table.get?_insert]

/-- Work on a section does not change whose sections they are: `file` stays. -/
@[simp] theorem file_modify {α : Type} (m : FileSections) (name : String)
    (work : Section → α × Section) : (m.modify name work).2.file = m.file := rfl

end FileSections

end EmulatorSettings
