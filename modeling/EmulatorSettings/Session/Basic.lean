import EmulatorSettings.Storage.Repository
import EmulatorSettings.Store.Settings

/-!
# Sessions

A `Session` edits the settings of one file.  The file is loaded once; what was edited before stays
and wins over what the file says.  Every edit that changes something makes the session due for
saving, and it is saved when it is stopped for good.  A `Notice` is what a session tells the
outside: the user about files and messages, the running emulator about settings it should read
again.

* `edit_eq_error`: `edit` fails exactly if the action does, and then gives no new session.
* `beginSave_eq_none_iff`: nothing is saved unless the session ends, is due and has its file.
-/

namespace EmulatorSettings

/-! ### Notices -/

/-- Something the user or the emulator is told.  A `message` may be marked as a `long` one. -/
inductive Notice where
  | settingsNotFound (file : SettingsFile)
  | message (text : String) (long : Bool)
  | reload
  deriving DecidableEq

namespace Notice

/-- The sections that a load of `file` leads to and the notices it raises.  A file that cannot be
read counts as one without sections. -/
def ofLoad (file : SettingsFile) :
    Except StorageError FileSections → FileSections × List Notice
  | .ok sections => (sections, [])
  | .error _     => (FileSections.new file, [.settingsNotFound file])

/-- The notices that a save of `file` raises by itself: a failure is told, success is not. -/
def ofSave (file : SettingsFile) : Except StorageError Unit → List Notice
  | .ok ()   => []
  | .error e => [.message ("Error saving " ++ file.fileName ++ ": " ++ e.message) false]

end Notice

/-- A session: its `file`, the `settings` in memory, whether the file has been loaded, and whether
there is something to save. -/
structure Session where
  file : SettingsFile
  settings : Settings
  isLoaded : Bool
  isDirty : Bool
  deriving DecidableEq

/-- What came of stopping a session; `skipped` if there was nothing to save. -/
inductive StopOutcome where
  | skipped
  | saved
  | failed
  deriving DecidableEq

/-- A stop that has been carried out: its `outcome`, what was told, and the `session` after it. -/
structure Stop where
  outcome : StopOutcome
  notices : List Notice
  session : Session
  deriving DecidableEq

namespace Session

/-- The session of `file` at its start: nothing in memory, nothing loaded, nothing to save. -/
def new (file : SettingsFile) : Session :=
  ⟨file, Settings.empty, false, false⟩

instance : Inhabited Session := ⟨new .config⟩

/-- The session for the overrides of a game, or for `config` without the id of one; the empty id
counts as none. -/
def forGame : Option String → Session
  | none    => new .config
  | some id => if id = "" then new .config else new (.game id)

/-- The sections of the session's file, once `file?` has any. -/
def sections? (s : Session) : Option FileSections :=
  s.settings.file? s.file

/-- The sections of the session's file, none if `sections?` has none. -/
def sections (s : Session) : FileSections :=
  s.settings.fileOrNew s.file

/-- The session `s` with its file created, if it was not. -/
def withFile (s : Session) : Session :=
  { s with settings := s.settings.ensureFile s.file }

/-! ### Editing -/

/-- The session `s` with something to save. -/
def markDirty (s : Session) : Session :=
  { s with isDirty := true }

/-- Edits the settings by an action `work` that may fail and tells whether it changed something,
which makes the session dirty. -/
def edit {ε : Type} (s : Session) (work : Settings → Except ε (Bool × Settings)) :
    Except ε (Bool × Session) :=
  (work s.settings).map fun (changed, settings) =>
    (changed, { s with settings := settings, isDirty := s.isDirty || changed })

/-- Takes the setting `x` into the file and section it belongs to, and gives the one it replaces.
The session is dirty after that, changed or not. -/
def put (s : Session) (x : Setting) : Except StoreError (Option Setting × Session) :=
  (s.settings.put x).map fun (replaced, settings) =>
    (replaced, { s with settings := settings, isDirty := true })

/-! ### Loading -/

/-- The `sections` with the settings of `edited` set on top of them. -/
def overlay (sections edited : FileSections) : FileSections :=
  edited.sections.values.foldl
    (fun m s => s.settings.values.foldl (fun m x => (m.set s.name x.key x.value).2) m) sections

/-- What a load of `sections` leads to, once settings that have been edited are set on top. -/
def merged (s : Session) (sections : FileSections) : FileSections :=
  s.sections?.elim sections (overlay sections)

/-- Takes in the `result` of a load: the `merged` sections, and the notices of `Notice.ofLoad`. -/
def finishLoad (s : Session) (result : Except StorageError FileSections) :
    List Notice × Session :=
  let (sections, notices) := Notice.ofLoad s.file result
  let settings := (s.settings.insertFile (s.merged sections)).2
  (notices, { s with settings := settings, isLoaded := true }.withFile)

/-! ### Saving -/

/-- The sections to save when the session is stopped: `none` unless it is `finishing`, dirty and has
its file. -/
def beginSave (s : Session) (finishing : Bool) : Option FileSections :=
  if finishing && s.isDirty then s.sections? else none

/-- The message after a save of `file`. -/
def savedMessage (file : SettingsFile) : String :=
  match file.gameId? with
  | none    => "Saved settings"
  | some id => "Saved settings for " ++ id

/-- Takes in the `result` of a save: after a success nothing is left to save, and the emulator
should `reload`. -/
def finishSave (s : Session) (result : Except StorageError Unit) : Stop :=
  match result with
  | .error _ => ⟨.failed, Notice.ofSave s.file result, s⟩
  | .ok ()   =>
    ⟨.saved, Notice.ofSave s.file result ++ [.message (savedMessage s.file) false, .reload],
      { s with isDirty := false }⟩

/-- An edit fails exactly if `work` does, with the same error. -/
theorem edit_eq_error {ε : Type} {s : Session} {work : Settings → Except ε (Bool × Settings)}
    {e : ε} : s.edit work = .error e ↔ work s.settings = .error e := by
  unfold edit
  cases work s.settings <;> simp [Except.map]

/-- Nothing is saved exactly if the session is not `finishing`, not dirty or without its file. -/
theorem beginSave_eq_none_iff {s : Session} {finishing : Bool} :
    s.beginSave finishing = none ↔ (finishing = true → s.isDirty = true → s.sections? = none) := by
  unfold beginSave
  cases finishing <;> cases s.isDirty <;> simp

end Session

end EmulatorSettings
