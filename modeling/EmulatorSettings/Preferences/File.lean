import EmulatorSettings.Disk.Tree
import EmulatorSettings.Toml.Document

/-!
# Preferences

What the program remembers for itself, apart from the settings it edits: the user directory, once
one has been picked, and how much it logs.  Preferences are kept as a TOML document of two strings,
`user_directory` and `log_level`.  Either of them may be missing, other keys do not matter.  A file
that is not there holds nothing yet, which for `load` is no error.

* `text?_eq_error_iff`: `text?` fails only for a user directory that is no text.
-/

namespace EmulatorSettings

/-- What the program remembers for itself: the `userDirectory`, once one has been picked, and the
`logLevel`. -/
structure Preferences where
  userDirectory : Option DirectoryName
  logLevel : String
  deriving DecidableEq

/-- Why preferences cannot be read or written; `unwritable` is a user directory that is no text. -/
inductive PreferencesError where
  | noDirectory
  | disk (path : String) (cause : DiskError)
  | malformed
  | unwritable
  deriving DecidableEq

/-- The wording of an error, after which `disk` has a cause of its own. -/
def PreferencesError.message : PreferencesError → String
  | noDirectory     => "could not determine platform config directory"
  | disk path cause => "I/O error accessing config at " ++ path ++ ": " ++ cause.message
  | malformed       => "failed to parse config TOML"
  | unwritable      => "failed to serialize config"

namespace Preferences

/-- The preferences of a program that remembers nothing; it logs at the level `info`. -/
def initial : Preferences :=
  ⟨none, "info"⟩

instance : Inhabited Preferences := ⟨initial⟩

/-- The `userDirectory`, if one has been picked and has a name in text. -/
def directory? (p : Preferences) : Option String :=
  p.userDirectory.bind DirectoryName.text?

/-- The path of the file that holds the preferences, given the `shared` directory for the
preferences of all programs and the `home` directory. -/
def path : (shared home : Option String) → Except PreferencesError String
  | some shared, _    => .ok (inDirectory shared)
  | none, some home   => .ok (inDirectory (Path.join home ".config"))
  | none, none        => .error .noDirectory
where
  /-- The path seen from the directory for the preferences of all programs. -/
  inDirectory (directory : String) : String :=
    Path.join (Path.join directory "emucfg") "config.toml"

/-! ### Text -/

/-- The key of `userDirectory` in the document. -/
def directoryKey : String := "user_directory"

/-- The key of `logLevel` in the document. -/
def levelKey : String := "log_level"

/-- The preferences that the members `ms` of a document hold; a key that is missing has the value of
`initial`. -/
def ofMembers (ms : Toml.Members) : Except Unit Preferences := do
  let directory ← ms.string? directoryKey
  let level ← ms.string? levelKey
  return ⟨directory.map .text, level.getD initial.logLevel⟩

/-- The preferences that `text` holds, `malformed` if it is no document or a key has no string. -/
def ofText? (text : String) : Except PreferencesError Preferences :=
  ((Toml.read? text).elim (.error ()) ofMembers).mapError fun () => .malformed

/-- The line `key = value` with the string `value` as `Toml.writtenChars` writes it. -/
def line (key value : String) : List Char :=
  key.toList ++ [' ', '=', ' '] ++ Toml.writtenChars value.toList ++ ['\n']

/-- The line of the user directory, if there is one to write; `bytes` cannot be written. -/
def directoryLine : Option DirectoryName → Except PreferencesError (List Char)
  | none              => .ok []
  | some (.text path) => .ok (line directoryKey path)
  | some (.bytes _)   => .error .unwritable

/-- The text of the preferences `p`: the line of `directoryKey`, if any, and the line of `levelKey`.
-/
def text? (p : Preferences) : Except PreferencesError String :=
  (directoryLine p.userDirectory).map fun directory =>
    String.ofList (directory ++ line levelKey p.logLevel)

/-- Only a user directory of `bytes` cannot be written. -/
theorem text?_eq_error_iff {p : Preferences} {e : PreferencesError} :
    p.text? = .error e ↔ e = .unwritable ∧ ∃ b, p.userDirectory = some (.bytes b) := by
  obtain ⟨_ | _ | b, level⟩ := p <;> simp [text?, directoryLine, Except.map, eq_comm]

/-! ### On disk -/

variable {m : Type → Type} [Monad m]

/-- Reads the preferences in the file `path`; `notFound` is no error and gives `initial`. -/
def load (d : Disk m) (path : String) : m (Except PreferencesError Preferences) := do
  match ← d.readText path with
  | .ok text         => return ofText? text
  | .error .notFound => return .ok initial
  | .error cause     => return .error (.disk path cause)

/-- Writes `p` to the file `path`, and makes the directory it lies in, `Path.parent path`, first. -/
def save (d : Disk m) (path : String) (p : Preferences) : m (Except PreferencesError Unit) := do
  match ← d.createDirectories (Path.parent path) with
  | .error cause => return .error (.disk (Path.parent path) cause)
  | .ok ()       =>
    match p.text? with
    | .error e => return .error e
    | .ok text => return (← d.writeText path text).mapError (.disk path)

end Preferences

end EmulatorSettings
