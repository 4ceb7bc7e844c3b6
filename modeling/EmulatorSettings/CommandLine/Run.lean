import EmulatorSettings.CommandLine.Arguments
import EmulatorSettings.Json.Text
import EmulatorSettings.Preferences.File
import EmulatorSettings.Screen.Rows
import EmulatorSettings.Session.Run

/-!
# Command line — commands

What each command does on a disk and what it prints.  Settings are read and written by a session,
so a settings file that cannot be read counts as empty, and `set` writes the file only if the value
changes.  The user directory comes from the arguments, or else from the preferences; preferences
that cannot be read are ignored, except that they are not overwritten either.  A command that fails
says in a `Failure` what it could not do, and the causes of that, outermost first.

* `run_of_request?_eq_none`: where `request?` finds the arguments misused, `run` leaves the disk
  alone.
-/

namespace EmulatorSettings.CommandLine

/-! ### Failures -/

/-- What went wrong, `message`, and why, `causes`. -/
structure Failure where
  message : String
  causes : List String
  deriving DecidableEq

namespace Failure

/-- The `text` with `width` blanks at the start of every line but the first. -/
def indented (width : Nat) (text : String) : List Char :=
  text.toList.flatMap fun c => if c = '\n' then c :: List.replicate width ' ' else [c]

/-- The lines of a `cause` that stands alone. -/
def soleCause (cause : String) : List Char :=
  List.replicate 4 ' ' ++ indented 4 cause ++ ['\n']

/-- The lines of one `cause` of several, with its `number`. -/
def numberedCause (cause : String) (number : Nat) : List Char :=
  let digits := Nat.toDigits 10 number
  List.replicate (5 - digits.length) ' ' ++ digits ++ [':', ' '] ++ indented 7 cause ++ ['\n']

/-- The lines about the causes, headed `Caused by:`. -/
def causesText : List String → List Char
  | []      => []
  | [cause] => "\nCaused by:\n".toList ++ soleCause cause
  | causes  => "\nCaused by:\n".toList ++ (causes.mapIdx fun i c => numberedCause c i).flatten

/-- What the user reads of the failure `f`. -/
def report (f : Failure) : String :=
  String.ofList ("Error: ".toList ++ f.message.toList ++ '\n' :: causesText f.causes)

end Failure

/-- The wording of the error `e` in the preferences, and of what caused it. -/
def preferencesCauses (e : PreferencesError) : List String :=
  match e with
  | .disk _ cause => [e.message, cause.message]
  | _             => [e.message]

/-! ### Outcomes -/

/-- What a command has `printed`, and its `failure` if it fails. -/
structure Outcome where
  printed : String
  failure : Option Failure
  deriving DecidableEq

namespace Outcome

/-- The outcome of a command that prints `text` and succeeds. -/
def print (text : String) : Outcome :=
  ⟨text, none⟩

/-- The outcome of a command that prints `text` as a line and succeeds. -/
def printLine (text : String) : Outcome :=
  print (text ++ "\n")

/-- The outcome of a command that prints nothing and fails with `message`. -/
def fail (message : String) (causes : List String) : Outcome :=
  ⟨"", some ⟨message, causes⟩⟩

end Outcome

/-! ### What commands print -/

/-- What `show` prints: the text of the file, or with `--json` its `values`. -/
def shown (asJson : Bool) (sections : FileSections) : String :=
  if asJson then String.ofList (Json.pretty 0 sections.values ++ ['\n']) else Ini.write sections

/-- The outcome of `get`: the `written` text of the value, or a failure that names the file. -/
def got (sections : FileSections) (file : SettingsFile) (sectionName key : String) : Outcome :=
  match sections.get? sectionName key with
  | some x => .printLine x.value.written
  | none   => .fail (key ++ " is not set in [" ++ sectionName ++ "] of " ++ file.fileName) []

/-- The `title` as wide as the column of titles, `28` characters. -/
def inColumn (title : String) : String :=
  title ++ String.ofList (List.replicate (28 - title.length) ' ')

/-- The line of the row `r`: its title and, for an editor, the text shown. -/
def rowLine (settings : Settings) (r : Row) : String :=
  match r.display? settings with
  | some text => "  " ++ inColumn r.title ++ " " ++ text ++ "\n"
  | none      => r.title ++ "\n"

/-- What `menu` prints: the heading of the `screen` and a `rowLine` for each row. -/
def menuText (screen : Screen) (file : SettingsFile) (settings : Settings) : String :=
  screen.heading file ++ "\n" ++ String.join ((screen.rows file).map (rowLine settings))

/-- What is printed of notices: each `message`, a line of its own. -/
def noticeText : Notice → String
  | .message text _ => text ++ "\n"
  | _               => ""

/-- The outcome of `set` once the session has been stopped, which fails if the stop `failed`. -/
def stopOutcome (printed : String) (file : SettingsFile) (s : Stop) : Outcome :=
  ⟨printed ++ String.join (s.notices.map noticeText),
    if s.outcome = .failed then some ⟨"could not save " ++ file.fileName, []⟩ else none⟩

/-! ### Commands -/

variable {m : Type → Type} [Monad m]

/-- Gives a key the value that `text` denotes, by `trySet`, and saves the file if that changes
anything. -/
def setKey (r : Repository m) (s : Session) (sectionName key text : String) : m Outcome :=
  match s.edit fun settings => settings.trySet s.file sectionName key (Value.ofText text) with
  | .error e         =>
    pure (.fail ("cannot store " ++ key ++ " in [" ++ sectionName ++ "]") [e.message])
  | .ok (changed, s) =>
    stopOutcome (if changed then "" else key ++ " is already " ++ text ++ "\n") s.file <$>
      s.stop r true

/-- Carries out a command that looks at the file of the session `s`. -/
def inSession (r : Repository m) (s : Session) : Command → m Outcome
  | .show asJson               => pure (.print (shown asJson s.sections))
  | .get sectionName key       => pure (got s.sections s.file sectionName key)
  | .set sectionName key text  => setKey r s sectionName key text
  | .menu screen               => pure (.print (menuText screen s.file s.settings))
  | .path | .setUserDirectory _ => pure (.print "")

/-- Carries out the command of `i` on the settings files of the user directory of `l`; `path` does
not even load one. -/
def withLayout (d : Disk m) (l : Layout) (i : Invocation) : m Outcome :=
  let s := Session.forGame i.game
  match l.settingsPath s.file with
  | .error e => pure (.fail e.message [])
  | .ok path =>
    if i.command = .path then pure (.printLine path)
    else do
      let (_, s) ← s.load (.ini d l)
      inSession (.ini d l) s i.command

/-- Remembers `directory` by its canonical name, next to what the preferences `p` say. -/
def rememberDirectory (d : Disk m) (e : Environment) (p : Preferences) (directory : String) :
    m Outcome := do
  match ← d.canonical directory with
  | .error cause =>
    return .fail ("user directory " ++ directory ++ " is not accessible") [cause.message]
  | .ok name     =>
    let saved ← match Preferences.path e.preferences e.home with
      | .error error => pure (.error error)
      | .ok path     => Preferences.save d path { p with userDirectory := some name }
    match saved with
    | .error error => return .fail "saving the front-end config" (preferencesCauses error)
    -- only a name that is text has been saved
    | .ok ()       => return .printLine ("user directory set to " ++ name.text?.getD "")

/-- What a user is told who has named no user directory where `invoke` needs one. -/
def noDirectoryMessage : String :=
  "no user directory: pass --user-dir, set EMUCFG_USER_DIR, " ++
    "or set user_directory in config.toml"

/-- The preferences where `Preferences.path` finds them in the environment `e`. -/
def readPreferences (d : Disk m) (e : Environment) : m (Except PreferencesError Preferences) :=
  match Preferences.path e.preferences e.home with
  | .error error => pure (.error error)
  | .ok path     => Preferences.load d path

/-- Carries out the invocation `i`. -/
def invoke (d : Disk m) (e : Environment) (i : Invocation) : m Outcome := do
  let preferences ← readPreferences d e
  match i.command, preferences with
  | .setUserDirectory _, .error error      =>
    return .fail "not overwriting the front-end config" (preferencesCauses error)
  | .setUserDirectory directory, .ok p     => rememberDirectory d e p directory
  | _, _                                   =>
    match i.userDirectory <|> preferences.toOption.bind Preferences.directory? with
    | none           => return .fail noDirectoryMessage []
    | some directory => withLayout d ⟨directory⟩ i

/-! ### The program -/

/-- What the program leaves: its exit `code`, and the texts it has `printed` and `reported`. -/
structure Exit where
  code : UInt8
  printed : String
  reported : String
  deriving DecidableEq

/-- How to use the program, which is what `run` prints for `help` and reports where arguments are
misused. -/
def usage : String :=
  "Usage: emucfg [--user-dir <DIR>] [--game <ID>] <COMMAND>\n\n" ++
  "Commands: show [--json], get <SECTION> <KEY>, set <SECTION> <KEY> <VALUE>,\n" ++
  "menu <TAG>, path, set-user-dir <DIR>\n"

/-- The name and version of the program, for `--version`. -/
def versionLine : String :=
  "emucfg 0.1.0\n"

/-- How the program ends after the outcome `o`: with the code `1` exactly if there is a `failure`.
-/
def Outcome.exit (o : Outcome) : Exit :=
  match o.failure with
  | none   => ⟨0, o.printed, ""⟩
  | some f => ⟨1, o.printed, f.report⟩

/-- Runs the program on the disk `d`; arguments without a `request?` end it with the code `2`. -/
def run (d : Disk m) (e : Environment) (arguments : List String) : m Exit :=
  match request? e arguments with
  | none          => pure ⟨2, "", usage⟩
  | some .help    => pure ⟨0, "", usage⟩
  | some .version => pure ⟨0, versionLine, ""⟩
  | some (.run i) => Outcome.exit <$> invoke d e i

/-- Arguments that are misused leave the disk alone: `run` only reports the `usage`. -/
theorem run_of_request?_eq_none (d : Disk m) {e : Environment} {arguments : List String}
    (h : request? e arguments = none) : run d e arguments = pure ⟨2, "", usage⟩ := by
  simp [run, h]

end EmulatorSettings.CommandLine
