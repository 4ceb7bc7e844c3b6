import EmulatorSettings.Screen.Basic

/-!
# Command line — arguments

An invocation is some options, a command, and the command's own words.  The options stand before
the command, each at most once, and fall back to the environment.  A word that begins with a dash
and is not a dash alone is an option, unless it stands after `--`.

The word after an option is checked when the next option is met or after the command, whichever
comes first.  Help and version are given as soon as they are asked for, so help on a command may
come before the check of an option in front of it.  All of this is `request?`, which gives nothing
for arguments that are misused.
-/

namespace EmulatorSettings.CommandLine

/-- What the program is asked to do; `setUserDirectory` is the only command that needs no user
directory. -/
inductive Command where
  | show (asJson : Bool)
  | get (sectionName key : String)
  | set (sectionName key text : String)
  | menu (screen : Screen)
  | path
  | setUserDirectory (directory : String)
  deriving DecidableEq

/-- The variables of the environment that matter: values for the two options `userDirectory` and
`game`, the directory for the `preferences` of all programs, and the `home` directory. -/
structure Environment where
  userDirectory : Option String
  game : Option String
  preferences : Option String
  home : Option String
  deriving DecidableEq

/-- A `command` and the values of the options, from the arguments or else from the environment. -/
structure Invocation where
  userDirectory : Option String
  game : Option String
  command : Command
  deriving DecidableEq

/-- What the arguments ask for: to `run` an invocation, `help`, or the `version`. -/
inductive Request where
  | run (i : Invocation)
  | help
  | version
  deriving DecidableEq

/-! ### Words -/

/-- Whether `word` begins with a dash and so is an option, unless it is `-` or stands after `--`. -/
def isOption (word : String) : Bool :=
  word.startsWith "-" && word ≠ "-"

/-- Whether `word` asks for help: `--help`, or anything that begins with `-h`. -/
def asksForHelp (word : String) : Bool :=
  word = "--help" || word.startsWith "-h"

/-- Whether `word` asks for the version: `--version`, or anything that begins with `-V`. -/
def asksForVersion (word : String) : Bool :=
  word = "--version" || word.startsWith "-V"

/-! ### Commands -/

/-- The commands by name; `Command` has their words too. -/
inductive CommandName where
  | show
  | get
  | set
  | menu
  | path
  | setUserDirectory
  deriving DecidableEq

/-- The command with a name, such as `set-user-dir`. -/
def CommandName.ofString? : String → Option CommandName
  | "show"         => some .show
  | "get"          => some .get
  | "set"          => some .set
  | "menu"         => some .menu
  | "path"         => some .path
  | "set-user-dir" => some .setUserDirectory
  | _              => none

/-- The command that some `words` after its name make, and whether to show JSON. -/
def CommandName.command? (name : CommandName) (asJson : Bool) (words : List String) :
    Option Command :=
  match name, words with
  | .show, []                      => some (.show asJson)
  | .get, [sectionName, key]       => some (.get sectionName key)
  | .set, [sectionName, key, text] => some (.set sectionName key text)
  | .menu, [screen]                => (Screen.ofName? screen).map .menu
  | .path, []                      => some .path
  | .setUserDirectory, [directory] =>
    if directory = "" then none else some (.setUserDirectory directory)
  | _, _                           => none

/-- How many words follow the name of a command, `--json` not counted. -/
def CommandName.arity : CommandName → Nat
  | .show | .path            => 0
  | .menu | .setUserDirectory => 1
  | .get                     => 2
  | .set                     => 3

/-- Whether `words` may stand at the start of a command's words: there are fewer than its `arity`,
or they make a command. -/
def CommandName.accepts (name : CommandName) (words : List String) : Bool :=
  words.length < name.arity || (name.command? false words).isSome

/-- What the words of a command come to: the `command`, or the `help` that was asked for. -/
inductive CommandRequest where
  | command (c : Command)
  | help
  deriving DecidableEq

/-- Reads the words of the command `name`, on top of the `words` that have been read. -/
def readWords (name : CommandName) (words : List String) (asJson : Bool) :
    (afterDashes : Bool) → List String → Option CommandRequest
  | _, []                   => (name.command? asJson words).map .command
  | afterDashes, word :: r  =>
    if afterDashes ∨ !isOption word then
      if words.length < name.arity then readWords name (words ++ [word]) asJson afterDashes r
      else none
    else if word = "--" then readWords name words asJson true r
    else if word = "--json" ∧ name = .show ∧ !asJson then readWords name words true false r
    else if asksForHelp word then if name.accepts words then some .help else none
    else none

/-! ### Options -/

/-- The options that take a word: `--user-dir` and `--game`. -/
inductive OptionName where
  | userDirectory
  | game
  deriving DecidableEq

/-- The options that have been read, and one, `pending`, whose word is still to be checked. -/
structure Options where
  userDirectory : Option String
  game : Option String
  pending : Option (OptionName × String)
  deriving DecidableEq

namespace Options

/-- The options before any has been read; nothing is `pending`. -/
def empty : Options :=
  ⟨none, none, none⟩

/-- Gives an option its word.  An option is given once, and an empty word is no `userDirectory`. -/
def give? (o : Options) : OptionName → String → Option Options
  | .userDirectory, word =>
    if o.userDirectory = none ∧ word ≠ "" then some { o with userDirectory := some word } else none
  | .game, word          => if o.game = none then some { o with game := some word } else none

/-- Checks the word of the option that is `pending`. -/
def settle? (o : Options) : Option Options :=
  match o.pending with
  | none              => some o
  | some (name, word) => { o with pending := none }.give? name word

/-- Lets the option `name` wait with its `word`; the one that waited before is settled first. -/
def await? (o : Options) (name : OptionName) (word : String) : Option Options :=
  o.settle?.map fun o => { o with pending := some (name, word) }

/-- The invocation of the command `c`, with the environment `e` where an option is missing. -/
def invocation? (o : Options) (e : Environment) (c : Command) : Option Invocation := do
  let o ← o.settle?
  let directory := o.userDirectory <|> e.userDirectory
  if directory = some "" then none
  else return ⟨directory, o.game <|> e.game, c⟩

end Options

/-- The option that `word` names, and the word that is joined to it by `=`. -/
def joined? (word : String) : Option (OptionName × String) :=
  if "--user-dir=".toList <+: word.toList then
    some (.userDirectory, String.ofList (word.toList.drop 11))
  else if "--game=".toList <+: word.toList then some (.game, String.ofList (word.toList.drop 7))
  else none

/-- The option that a word names by itself, as in `--game demo`. -/
def OptionName.ofString? : String → Option OptionName
  | "--user-dir" => some .userDirectory
  | "--game"     => some .game
  | _            => none

/-- Whether `help` is followed by nothing, or by one name that there is help on. -/
def isHelpTopic : List String → Bool
  | []      => true
  | [topic] => topic = "help" || (CommandName.ofString? topic).isSome
  | _       => false

/-- Reads arguments up to the command and what follows it, on top of the options `o` that have been
read. -/
def readOptions (e : Environment) (o : Options) : List String → Option Request
  | []        => none
  | word :: r =>
    match CommandName.ofString? word with
    | some name =>
      match readWords name [] false false r with
      | none              => none
      | some .help        => some .help
      | some (.command c) => (o.invocation? e c).map .run
    | none      =>
      if word = "help" then if isHelpTopic r then some .help else none
      else if asksForHelp word then o.settle?.map fun _ => .help
      else if asksForVersion word then o.settle?.map fun _ => .version
      else match joined? word with
        | some (name, text) => do readOptions e (← (← o.settle?).give? name text) r
        | none              =>
          match OptionName.ofString? word, r with
          | some name, text :: r =>
            if isOption text then none else do readOptions e (← o.await? name text) r
          | _, _                 => none

/-- What `arguments` ask for; `none` if they are misused. -/
def request? (e : Environment) (arguments : List String) : Option Request :=
  readOptions e .empty arguments

end EmulatorSettings.CommandLine
