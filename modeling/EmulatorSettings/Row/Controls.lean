import EmulatorSettings.DateTime.Basic
import EmulatorSettings.Store.Settings

/-!
# Rows — controls

A row of a settings screen owns no value.  It has the `Address` of a setting, shows what `value?`
finds there, or a default, and writes there by `set`.  There are five controls.

* A `CheckBox` stores the whole number 1 or 0.  On reading, any whole number but 0 is on; whatever
  is not a whole number counts as missing and shows the default.
* An `InputBinding` is text that only the emulator reads.  It is stored as text even where it looks
  like a number, after the check that it can be stored as one line.
* A `SingleChoice` is one of a list of labelled whole numbers.  Selecting an entry stores its
  number; the entry shown is the first one with the stored number.
* A `Slider` has whole positions between two bounds.  The position itself is stored, or a hundredth
  of it as a binary number.  A setting that holds a binary number goes on holding one.
* A `TimeField` is stored as text.  Text that is entered is trimmed and read, and what is stored is
  the written form of what was read.
-/

namespace EmulatorSettings

/-! ### Addresses -/

/-- The file, section and key of a setting. -/
structure Address where
  file : SettingsFile
  sectionName : String
  key : String
  deriving DecidableEq

namespace Address

/-- The setting at the address `a`. -/
def get? (a : Address) (s : Settings) : Option Setting :=
  s.get? a.file a.sectionName a.key

/-- The value at the address `a`. -/
def value? (a : Address) (s : Settings) : Option Value :=
  (a.get? s).map (·.value)

/-- The `written` text of the value at the address `a`. -/
def text? (a : Address) (s : Settings) : Option String :=
  (a.value? s).map Value.written

/-- The whole number at the address `a`, if the value there is one. -/
def int? (a : Address) (s : Settings) : Option Int32 :=
  (a.value? s).bind Value.int?

/-- Writes `value` at the address `a`, and tells whether that changed anything. -/
def set (a : Address) (s : Settings) (value : Value) : Bool × Settings :=
  s.set a.file a.sectionName a.key value

end Address

/-- Why an edit of a row is refused: `store` is a fault that the checks of the store find. -/
inductive EditError where
  | store (e : StoreError)
  | invalidDateTime (text : String)
  | choiceOutOfRange (index count : Nat)
  | emptyRange
  | wrongControl
  deriving DecidableEq

/-- The wording of an error.  The last two, `emptyRange` and `wrongControl`, are mistakes in how a
screen is built, and no user sees them. -/
def EditError.message : EditError → String
  | store e                        => e.message
  | invalidDateTime text           =>
    "invalid date-time `" ++ text ++ "`: expected YYYY-MM-DD HH:MM:SS"
  | choiceOutOfRange index count   =>
    "choice index " ++ toString index ++ " out of range (0.." ++ toString count ++ ")"
  | emptyRange                     => "the slider has no position"
  | wrongControl                   => "the row has no such control"

/-! ### Check boxes -/

/-- An option that is on or off, `default` where nothing is stored. -/
structure CheckBox where
  address : Address
  default : Bool
  deriving DecidableEq

namespace CheckBox

/-- Whether the box shows a check: any whole number but `0` is one. -/
def isChecked (b : CheckBox) (s : Settings) : Bool :=
  match b.address.int? s with
  | some n => n != 0
  | none   => b.default

/-- Stores `1` or `0`, as the box is `checked` or not. -/
def check (b : CheckBox) (s : Settings) (checked : Bool) : Bool × Settings :=
  b.address.set s (.int (if checked then 1 else 0))

end CheckBox

/-! ### Input bindings -/

/-- An option that holds a controller binding at its `address`. -/
structure InputBinding where
  address : Address
  deriving DecidableEq

namespace InputBinding

/-- The stored binding as it is written, `""` if there is none. -/
def text (b : InputBinding) (s : Settings) : String :=
  (b.address.text? s).getD ""

/-- Stores `binding` as text, by `trySet` and so with its checks. -/
def bind (b : InputBinding) (s : Settings) (binding : String) :
    Except EditError (Bool × Settings) :=
  (s.trySet b.address.file b.address.sectionName b.address.key (.text binding)).mapError .store

end InputBinding

/-! ### Single choices -/

/-- A number `value` with a `label`. -/
structure Choice where
  label : String
  value : Int32
  deriving DecidableEq

/-- An option that takes one of several numbers, `default` where no whole number is stored. -/
structure SingleChoice where
  address : Address
  choices : List Choice
  default : Int32
  deriving DecidableEq

namespace SingleChoice

/-- The stored whole number, or the `default`. -/
def selectedValue (c : SingleChoice) (s : Settings) : Int32 :=
  (c.address.int? s).getD c.default

/-- The place of the first of the `choices` with the `selectedValue`. -/
def selectedIndex? (c : SingleChoice) (s : Settings) : Option Nat :=
  c.choices.findIdx? fun entry => entry.value == c.selectedValue s

/-- The label of the first of the `choices` with the `selectedValue`. -/
def selectedLabel? (c : SingleChoice) (s : Settings) : Option String :=
  (c.choices.find? fun entry => entry.value == c.selectedValue s).map (·.label)

/-- Stores the number of the entry at the place `index`, `choiceOutOfRange` if there is none. -/
def select (c : SingleChoice) (s : Settings) (index : Nat) : Except EditError (Bool × Settings) :=
  match c.choices[index]? with
  | some entry => .ok (c.address.set s (.int entry.value))
  | none       => .error (.choiceOutOfRange index c.choices.length)

/-- The `selectedLabel?`, or the number if no entry has it. -/
def display (c : SingleChoice) (s : Settings) : String :=
  (c.selectedLabel? s).getD (toString (c.selectedValue s).toInt)

end SingleChoice

/-! ### Sliders -/

/-- How a slider's position is stored: as an `integer`, or as a `fraction` in hundredths. -/
inductive SliderStorage where
  | integer
  | fraction
  deriving DecidableEq

/-- An option with a range of whole positions from `least` to `greatest`. -/
structure Slider where
  address : Address
  least : Int32
  greatest : Int32
  default : Int32
  units : String
  storage : SliderStorage
  deriving DecidableEq

namespace Slider

/-- The positions that one unit of the stored number stands for, by the slider's `storage`. -/
def scale (l : Slider) : Nat :=
  match l.storage with
  | .integer  => 1
  | .fraction => 100

/-- The position shown: the stored number times the `scale`, to the nearest whole number, wherever
the bounds are; the `default` if no number is stored. -/
def position (l : Slider) (s : Settings) : Int32 :=
  match l.address.value? s with
  | some (.int n)   => ((Binary32.ofInt n.toInt).scale l.scale 1).toInt32
  | some (.float x) => (x.scale l.scale 1).toInt32
  | _               => l.default

/-- The position between the bounds that is nearest to `p`; there is none if they are crossed. -/
def clamp (l : Slider) (p : Int32) : Option Int32 :=
  if l.greatest < l.least then none
  else if p < l.least then some l.least
  else if l.greatest < p then some l.greatest
  else some p

/-- What is stored for a position `p` over a `present` value. -/
def stored (l : Slider) (present : Option Value) (p : Int32) : Value :=
  match l.storage, present with
  | .fraction, _               => .float ((Binary32.ofInt p.toInt).scale 1 100)
  | .integer,  some (.float _) => .float (Binary32.ofInt p.toInt)
  | .integer,  _               => .int p

/-- Moves the slider as near to the position `p` as its bounds allow, which is `clamp`. -/
def move (l : Slider) (s : Settings) (p : Int32) : Except EditError (Bool × Settings) :=
  match l.clamp p with
  | some q => .ok (l.address.set s (l.stored (l.address.value? s) q))
  | none   => .error .emptyRange

/-- The `position` with its `units`. -/
def display (l : Slider) (s : Settings) : String :=
  String.ofList (Text.intDigits (l.position s).toInt) ++ l.units

end Slider

/-! ### Date-times -/

/-- An option that holds a date-time as text, `default` where nothing is stored. -/
structure TimeField where
  address : Address
  default : String
  deriving DecidableEq

namespace TimeField

/-- The stored text, or the `default`. -/
def text (f : TimeField) (s : Settings) : String :=
  (f.address.text? s).getD f.default

/-- The date-time that the `text` shown denotes. -/
def dateTime? (f : TimeField) (s : Settings) : Option DateTime :=
  DateTime.ofChars? (f.text s).toList

/-- Stores the date-time `t` as `render` writes it. -/
def setDateTime (f : TimeField) (s : Settings) (t : DateTime) : Bool × Settings :=
  f.address.set s (.text (String.ofList t.render))

/-- Stores the date-time that the trimmed `text` denotes, `invalidDateTime` if it denotes none. -/
def enter (f : TimeField) (s : Settings) (text : String) : Except EditError (Bool × Settings) :=
  match DateTime.ofChars? (Text.trim text.toList) with
  | some t => .ok (f.setDateTime s t)
  | none   => .error (.invalidDateTime text)

end TimeField

end EmulatorSettings
