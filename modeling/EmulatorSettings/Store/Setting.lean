import EmulatorSettings.Text.Quoted
import EmulatorSettings.Value.Basic

/-!
# Settings and their files

There is one file of global settings and one file of overrides per game.  The global file comes
first, then the games in the byte order of their ids; for Unicode text that is the order by code
points, which is how the core library compares strings.  A `Setting` carries its identity with its
value: key, section and file.  Containers check that identity on the way in, so a setting taken out
of one tells where it belongs.

The file format has neither quoting nor escapes.  A name with a bracket or a line break would not
read back as the same header, a key with `=` would be cut short, blank characters at the ends of a
key or a value are lost on reading, and an entry from `[` to `]` would be taken for a header.  Text
from outside passes `checkName` and `checkEntry` before it is stored; the first fault found is
reported.  A `StoreError` says what is wrong with a setting on its way into the store: it belongs
somewhere else, or it has such a fault.

* `SettingsFile.gameId?_inj`: a file is determined by its `gameId?`, the global one by having none.
* `storableName_iff`: the names that pass `checkName`, in one sentence.
-/

namespace EmulatorSettings

/-! ### Files -/

/-- The global settings, `config`, or the overrides of one `game`. -/
inductive SettingsFile where
  | config
  | game (id : String)
  deriving DecidableEq

namespace SettingsFile

instance : Inhabited SettingsFile := ⟨config⟩

/-- The id of the game, for a file of overrides; `none` for `config`. -/
def gameId? : SettingsFile → Option String
  | config  => none
  | game id => some id

/-- The file's name without its extension `.ini`. -/
def baseName : SettingsFile → String
  | config  => "config"
  | game id => id

/-- The file's name: its `baseName` and `.ini`. -/
def fileName (f : SettingsFile) : String :=
  f.baseName ++ ".ini"

/-- Files with the same `gameId?` are the same file, so the order by `gameId?` is lawful. -/
theorem gameId?_inj {f g : SettingsFile} (h : f.gameId? = g.gameId?) : f = g := by
  cases f <;> cases g <;> simp_all [gameId?]

instance : Ord SettingsFile := ⟨compareOn gameId?⟩

instance : Std.TransOrd SettingsFile :=
  inferInstanceAs (Std.TransCmp (compareOn gameId?))

instance : Std.LawfulEqOrd SettingsFile where
  eq_of_compare {_ _} h := gameId?_inj (Std.LawfulEqOrd.eq_of_compare h)

end SettingsFile

/-! ### Settings -/

/-- A `value` with the key, section and file it belongs to. -/
structure Setting where
  key : String
  sectionName : String
  file : SettingsFile
  value : Value
  deriving DecidableEq

namespace Setting

instance : Inhabited Setting := ⟨⟨"", "", .config, default⟩⟩

/-- Stores `value`, and tells whether it differs from the one before, as `Value.equals` compares
them. -/
def set (s : Setting) (value : Value) : Bool × Setting :=
  (!s.value.equals value, { s with value := value })

end Setting

/-! ### Errors -/

/-- Why a section name cannot be stored: a `bracket` or `lineBreak` would not read back as the same
header. -/
inductive NameFault where
  | empty
  | lineBreak
  | bracket
  deriving DecidableEq

/-- Why a key cannot be stored; `header` is a fault of the key and its value together. -/
inductive KeyFault where
  | empty
  | lineBreak
  | separator
  | padded
  | header
  deriving DecidableEq

/-- Why the text of a value cannot be stored; `padded` is blank characters at an end. -/
inductive ValueFault where
  | empty
  | lineBreak
  | padded
  deriving DecidableEq

/-- Why a change of the store is refused.  A mismatch names the setting by its key, the place it
`belongs` to and the place it was `offered` to. -/
inductive StoreError where
  | sectionMismatch (key belongs offered : String)
  | fileMismatch (key belongs offered : String)
  | invalidName (name : String) (fault : NameFault)
  | invalidKey (key : String) (fault : KeyFault)
  | invalidValue (key : String) (fault : ValueFault)
  deriving DecidableEq

/-- The wording of a `NameFault`. -/
def NameFault.message : NameFault → String
  | empty     => "name is empty"
  | lineBreak => "name contains a line break"
  | bracket   => "name contains a bracket"

/-- The wording of a `KeyFault`. -/
def KeyFault.message : KeyFault → String
  | empty     => "key is empty"
  | lineBreak => "key contains a line break"
  | separator => "key contains `=`"
  | padded    => "key has leading or trailing whitespace"
  | header    => "entry would read back as a section header"

/-- The wording of a `ValueFault`. -/
def ValueFault.message : ValueFault → String
  | empty     => "value is empty"
  | lineBreak => "value contains a line break"
  | padded    => "value has leading or trailing whitespace"

/-- The wording of an error, with the names in it as `Text.quoted` shows them. -/
def StoreError.message : StoreError → String
  | sectionMismatch key belongs offered =>
    "setting `" ++ key ++ "` belongs to section `" ++ belongs ++ "`, not `" ++ offered ++ "`"
  | fileMismatch key belongs offered    =>
    "setting `" ++ key ++ "` belongs to file `" ++ belongs ++ "`, not `" ++ offered ++ "`"
  | invalidName name fault              =>
    "invalid section name " ++ Text.quoted name ++ ": " ++ fault.message
  | invalidKey key fault                =>
    "invalid key " ++ Text.quoted key ++ ": " ++ fault.message
  | invalidValue key fault              =>
    "invalid value for " ++ Text.quoted key ++ ": " ++ fault.message

/-! ### Checks -/

/-- Whether `cs` has a line feed or a carriage return. -/
def hasLineBreak (cs : List Char) : Bool :=
  cs.any fun c => c == '\n' || c == '\r'

/-- Whether `cs` has blank characters at an end, which `Text.trim` would take away. -/
def isPadded (cs : List Char) : Bool :=
  Text.trim cs != cs

/-- The first fault of the section name `name`. -/
def nameFault? (name : List Char) : Option NameFault :=
  if name = [] then some .empty
  else if hasLineBreak name then some .lineBreak
  else if name.any fun c => c == '[' || c == ']' then some .bracket
  else none

/-- The first fault of `key` by itself. -/
def keyFault? (key : List Char) : Option KeyFault :=
  if key = [] then some .empty
  else if hasLineBreak key then some .lineBreak
  else if key.contains '=' then some .separator
  else if isPadded key then some .padded
  else none

/-- The first fault of a value's `text`. -/
def valueFault? (text : List Char) : Option ValueFault :=
  if text = [] then some .empty
  else if hasLineBreak text then some .lineBreak
  else if isPadded text then some .padded
  else none

/-- Passes a section name without a `nameFault?`, which reads back as the same header. -/
def checkName (name : String) : Except StoreError Unit :=
  match nameFault? name.toList with
  | some fault => .error (.invalidName name fault)
  | none       => .ok ()

/-- Passes `key` and `value` if they read back as the same entry: neither has a fault by itself, and
the line is no header. -/
def checkEntry (key : String) (value : Value) : Except StoreError Unit :=
  match keyFault? key.toList, valueFault? value.written.toList with
  | some fault, _          => .error (.invalidKey key fault)
  | none,       some fault => .error (.invalidValue key fault)
  | none,       none       =>
    if key.toList.head? = some '[' ∧ value.written.toList.getLast? = some ']' then
      .error (.invalidKey key .header)
    else .ok ()

/-- A name passes `checkName` exactly if it is not empty and has no line break and no bracket. -/
theorem storableName_iff {name : String} :
    checkName name = .ok () ↔
      name ≠ "" ∧ ∀ c ∈ name.toList, c ≠ '\n' ∧ c ≠ '\r' ∧ c ≠ '[' ∧ c ≠ ']' := by
  have hempty : name.toList = [] ↔ name = "" := String.toList_eq_nil_iff
  unfold checkName nameFault? hasLineBreak
  by_cases h₀ : name.toList = []
  · simp [hempty.1 h₀]
  · have h₀' : name ≠ "" := fun h => h₀ (hempty.2 h)
    by_cases h₁ : (name.toList.any fun c => c == '\n' || c == '\r') = true
    · simp only [h₀, h₁]
      simp only [List.any_eq_true, Bool.or_eq_true, beq_iff_eq] at h₁
      grind
    · by_cases h₂ : (name.toList.any fun c => c == '[' || c == ']') = true
      · simp only [h₀, h₁, h₂]
        simp only [List.any_eq_true, Bool.or_eq_true, beq_iff_eq] at h₁ h₂
        grind
      · simp only [h₀, h₁, h₂]
        simp only [List.any_eq_true, Bool.or_eq_true, beq_iff_eq] at h₁ h₂
        grind

end EmulatorSettings
