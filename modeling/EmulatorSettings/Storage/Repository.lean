import EmulatorSettings.Disk.Tree
import EmulatorSettings.Ini.Reading
import EmulatorSettings.Ini.Writing

/-!
# Storage

A `Layout` says where settings files lie inside the user directory: the global one as
`config/config.ini`, the overrides of a game as `GameSettings/<id>.ini`.  The id of a game comes
from outside, so it is taken only as the plain name of a file.  `StorageError` is why a settings
file is not read or not written.

A `Repository` keeps the sections of settings files.  The one that matters keeps them as text files
in a user directory; writing replaces a whole file.  Work that is handed to a background task ends
in an error if the task crashes, where work done in place lets the crash through.

* `settingsPath_game`: the path of a game's file exists exactly for an id with `isPlainName`.
* `inBackground_inPlace`: for a repository that never crashes the background makes no difference.
-/

namespace EmulatorSettings

/-! ### Errors -/

/-- Why the work on a settings file fails; `interrupted` is a background task that crashed. -/
inductive StorageError where
  | notFound (path : String)
  | disk (path : String) (cause : DiskError)
  | invalidGameId (id : String)
  | interrupted (message : String)
  deriving DecidableEq

/-- The wording of an error, with the cause of `disk` in it. -/
def StorageError.message : StorageError → String
  | notFound path       => "settings file not found: " ++ path
  | disk path cause     => "I/O error accessing " ++ path ++ ": " ++ cause.message
  | invalidGameId id    => "invalid game id " ++ Text.quoted id ++ ": must be a plain file name"
  | interrupted message => "settings task did not complete: " ++ message

/-! ### Paths of settings files -/

/-- The user directory of the emulator, as a path that nobody tidied. -/
structure Layout where
  userDirectory : String
  deriving DecidableEq

namespace Layout

/-- Whether `id` names a file in whatever directory it is used: it is neither empty nor `.` or `..`,
and no slash is in it, forward or backward. -/
def isPlainName (id : String) : Bool :=
  id ≠ "" && id ≠ "." && id ≠ ".." && id.toList.all fun c => c ≠ '/' && c ≠ '\\'

/-- The path of `file` in a `directory` of the user directory. -/
def pathIn (l : Layout) (directory : String) (file : SettingsFile) : String :=
  Path.join (Path.join l.userDirectory directory) file.fileName

/-- The path of a settings file, `invalidGameId` for a game whose id is no plain name. -/
def settingsPath (l : Layout) (file : SettingsFile) : Except StorageError String :=
  match file with
  | .config  => .ok (l.pathIn "config" .config)
  | .game id =>
    if isPlainName id then .ok (l.pathIn "GameSettings" (.game id)) else .error (.invalidGameId id)

/-- Whether a game's file has a path depends on `isPlainName id` alone. -/
theorem settingsPath_game (l : Layout) (id : String) :
    l.settingsPath (.game id) =
      if isPlainName id then .ok (l.pathIn "GameSettings" (.game id))
      else .error (.invalidGameId id) := rfl

end Layout

/-! ### Repositories -/

/-- Where the sections of a file are loaded from and saved to, by actions in `m`. -/
structure Repository (m : Type → Type) where
  load : SettingsFile → m (Except StorageError FileSections)
  save : SettingsFile → FileSections → m (Except StorageError Unit)

/-- An operation that breaks off instead of answering, with the `message` it leaves. -/
structure Crash where
  message : String
  deriving DecidableEq

namespace Repository

variable {m : Type → Type} [Monad m]

/-- Loads `file` from its `settingsPath` in the user directory and reads its text by `Ini.read`. -/
def loadIni (d : Disk m) (l : Layout) (file : SettingsFile) :
    m (Except StorageError FileSections) :=
  match l.settingsPath file with
  | .error e => pure (.error e)
  | .ok path => do
    match ← d.readText path with
    | .ok text         => return .ok (Ini.read file text).sections
    | .error .notFound => return .error (.notFound path)
    | .error cause     => return .error (.disk path cause)

/-- Writes the `sections` to the `settingsPath` of `file`, making the directory it lies in first. -/
def saveIni (d : Disk m) (l : Layout) (file : SettingsFile) (sections : FileSections) :
    m (Except StorageError Unit) :=
  match l.settingsPath file with
  | .error e => pure (.error e)
  | .ok path => do
    match ← d.createDirectories (Path.parent path) with
    | .error cause => return .error (.disk (Path.parent path) cause)
    | .ok ()       =>
      match ← d.writeText path (Ini.write sections) with
      | .error cause => return .error (.disk path cause)
      | .ok ()       => return .ok ()

/-- The repository of the files in the user directory of `l`, by `loadIni` and `saveIni`. -/
def ini (d : Disk m) (l : Layout) : Repository m :=
  ⟨loadIni d l, saveIni d l⟩

/-- A repository whose every operation crashes with `message`. -/
def crashing (message : String) : Repository (ExceptT Crash m) :=
  ⟨fun _ => throw ⟨message⟩, fun _ _ => throw ⟨message⟩⟩

/-- The repository `r` used in place, where a crash would go through. -/
def inPlace (r : Repository m) : Repository (ExceptT Crash m) :=
  ⟨fun file => ExceptT.lift (r.load file), fun file sections => ExceptT.lift (r.save file sections)⟩

/-- What is said of a background `task` that crashed. -/
def crashReport (task : String) (crash : Crash) : String :=
  "task " ++ task ++ " panicked with message " ++ Text.quoted crash.message

/-- What a background `task` reports: its own answer, or that it was `interrupted`. -/
def settle {α : Type} (task : String) : Except Crash (Except StorageError α) → Except StorageError α
  | .ok answer   => answer
  | .error crash => .error (.interrupted (crashReport task crash))

/-- The repository whose operations are those of `r`, run as background tasks that go by the name
`task` and end in `settle`. -/
def inBackground (task : String) (r : Repository (ExceptT Crash m)) : Repository m :=
  ⟨fun file => settle task <$> (r.load file).run,
    fun file sections => settle task <$> (r.save file sections).run⟩

/-- An operation that never crashes answers from the background as it does in place. -/
theorem inBackground_inPlace [LawfulMonad m] (task : String) (r : Repository m) :
    inBackground task (inPlace r) = r := by
  cases r
  simp [inBackground, inPlace, settle]

end Repository

end EmulatorSettings
