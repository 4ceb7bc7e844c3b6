import EmulatorSettings.Row.Controls
import EmulatorSettings.Screen.Basic

/-!
# Rows

A screen is a list of rows: group titles, rows that lead to another screen, and rows with a
`Control` that edits one setting.
-/

namespace EmulatorSettings

/-- What a row edits its setting with: one of five controls, each with its own address. -/
inductive Control where
  | checkBox (b : CheckBox)
  | slider (l : Slider)
  | singleChoice (c : SingleChoice)
  | timeField (f : TimeField)
  | inputBinding (b : InputBinding)
  deriving DecidableEq

/-- What a user does to a control; `enter` and `setDateTime` are both for a `TimeField`. -/
inductive Edit where
  | check (checked : Bool)
  | move (position : Int32)
  | select (index : Nat)
  | enter (text : String)
  | setDateTime (t : DateTime)
  | bind (binding : String)
  deriving DecidableEq

namespace Control

/-- The `Address` of the setting that the control edits. -/
def address : Control → Address
  | checkBox b     => b.address
  | slider l       => l.address
  | singleChoice c => c.address
  | timeField f    => f.address
  | inputBinding b => b.address

/-- The name of the kind of control, such as `checkbox`. -/
def kindName : Control → String
  | checkBox _     => "checkbox"
  | slider _       => "slider"
  | singleChoice _ => "single-choice"
  | timeField _    => "date-time"
  | inputBinding _ => "input-binding"

/-- The text shown for the setting, by the `display` or `text` of the control. -/
def display (s : Settings) : Control → String
  | checkBox b     => if b.isChecked s then "on" else "off"
  | slider l       => l.display s
  | singleChoice c => c.display s
  | timeField f    => f.text s
  | inputBinding b => b.text s

/-- Carries out an edit, and tells whether it changed anything; `wrongControl` if the edit is not
for this control. -/
def edit (s : Settings) : Control → Edit → Except EditError (Bool × Settings)
  | checkBox b,     .check checked => .ok (b.check s checked)
  | slider l,       .move p        => l.move s p
  | singleChoice c, .select index  => c.select s index
  | timeField f,    .enter text    => f.enter s text
  | timeField f,    .setDateTime t => .ok (f.setDateTime s t)
  | inputBinding b, .bind binding  => b.bind s binding
  | _,              _              => .error .wrongControl

end Control

/-- One row of a settings screen: a `header`, a row that leads to another screen, or an `editor` of
one setting. -/
inductive Row where
  | header (title : String)
  | submenu (title : String) (opens : Screen)
  | editor (title : String) (description : Option String) (control : Control)
  deriving DecidableEq

namespace Row

/-- The title shown, whatever the row. -/
def title : Row → String
  | header t     => t
  | submenu t _  => t
  | editor t _ _ => t

/-- The description, for an `editor` that has one. -/
def description? : Row → Option String
  | editor _ d _ => d
  | _            => none

/-- The control of an `editor`. -/
def control? : Row → Option Control
  | editor _ _ c => some c
  | _            => none

/-- The address of the setting that an `editor` edits. -/
def address? (r : Row) : Option Address :=
  r.control?.map Control.address

/-- The name of the kind of row; that of an `editor` is the kind of its control. -/
def kindName : Row → String
  | header _     => "header"
  | submenu _ _  => "submenu"
  | editor _ _ c => c.kindName

/-- The text shown for the setting of an `editor`. -/
def display? (r : Row) (s : Settings) : Option String :=
  r.control?.map (Control.display s)

end Row

end EmulatorSettings
