import EmulatorSettings.Store.FileSections

/-!
# The settings of all files

All files that a screen has touched, in file order.  Like sections, files are created empty by
whatever writes to them first.

* `file?_modifyFile`: work on one file leaves the others alone.
-/

namespace EmulatorSettings

/-- The settings in memory: for each of the `files` that was touched its sections. -/
structure Settings where
  files : Table SettingsFile FileSections
  deriving DecidableEq

namespace Settings

/-- The settings without any file, where `file?` finds nothing. -/
def empty : Settings :=
  ⟨.empty⟩

instance : Inhabited Settings := ⟨empty⟩

/-- The sections of `file`, if it has been created. -/
def file? (s : Settings) (file : SettingsFile) : Option FileSections :=
  s.files.get? file

/-- The sections of `file`, none if it has not been created yet. -/
def fileOrNew (s : Settings) (file : SettingsFile) : FileSections :=
  (s.file? file).getD (FileSections.new file)

/-- Whether `file` has been created. -/
def containsFile (s : Settings) (file : SettingsFile) : Bool :=
  s.files.contains file

/-- Takes the sections `m` of a file, and gives the ones they replace. -/
def insertFile (s : Settings) (m : FileSections) : Option FileSections × Settings :=
  (s.file? m.file, ⟨s.files.insert m.file m⟩)

/-- Runs `work` on `file`, created empty if there is none yet. -/
def modifyFile {α : Type} (s : Settings) (file : SettingsFile)
    (work : FileSections → α × FileSections) : α × Settings :=
  let (result, m) := work (s.fileOrNew file)
  (result, ⟨s.files.insert file m⟩)

/-- Creates `file` if there is none yet. -/
def ensureFile (s : Settings) (file : SettingsFile) : Settings :=
  (s.modifyFile file fun m => ((), m)).2

/-- Runs `work` on a section of `file`, both created empty if there is none yet. -/
def modify {α : Type} (s : Settings) (file : SettingsFile) (sectionName : String)
    (work : Section → α × Section) : α × Settings :=
  s.modifyFile file fun m => m.modify sectionName work

/-- The section `sectionName` of `file`. -/
def section? (s : Settings) (file : SettingsFile) (sectionName : String) : Option Section :=
  (s.file? file).bind fun m => m.section? sectionName

/-- The setting under `file`, `sectionName` and `key`. -/
def get? (s : Settings) (file : SettingsFile) (sectionName key : String) : Option Setting :=
  (s.section? file sectionName).bind fun t => t.get? key

/-- Gives `key` the value `value`, and tells whether that changed anything.  Nothing is checked;
`trySet` does that. -/
def set (s : Settings) (file : SettingsFile) (sectionName key : String) (value : Value) :
    Bool × Settings :=
  s.modify file sectionName fun t => t.set key value

/-- Gives `key` the value `value` if `checkName` and `checkEntry` pass.  A fault of the section name
is found first. -/
def trySet (s : Settings) (file : SettingsFile) (sectionName key : String) (value : Value) :
    Except StoreError (Bool × Settings) := do
  checkName sectionName
  checkEntry key value
  return s.set file sectionName key value

/-- Removes `key`, and gives the setting that was there. -/
def remove (s : Settings) (file : SettingsFile) (sectionName key : String) :
    Option Setting × Settings :=
  s.modify file sectionName fun t => t.remove key

/-- Takes the setting `x` into the file and section it belongs to, and gives the one it replaces. -/
def put (s : Settings) (x : Setting) : Except StoreError (Option Setting × Settings) :=
  ((s.fileOrNew x.file).put x).map fun (replaced, m) => (replaced, ⟨s.files.insert x.file m⟩)

/-- Whether no file of `s` holds a section. -/
def isEmpty (s : Settings) : Bool :=
  s.files.values.all FileSections.isEmpty

/-- Work on `file` changes that file alone. -/
theorem file?_modifyFile {α : Type} (s : Settings) (file file' : SettingsFile)
    (work : FileSections → α × FileSections) :
    (s.modifyFile file work).2.file? file' =
      if file' = file then some (work (s.fileOrNew file)).2 else s.file? file' := by
  simp [modifyFile, file?, Table.get?_insert]

end Settings

end EmulatorSettings
