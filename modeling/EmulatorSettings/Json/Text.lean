import EmulatorSettings.Json.Documents

/-!
# JSON documents — text

Numbers are written with their shortest digits, the even one of two equally near: around a point
from `0.000001` up to thirteen places before the point, else with one digit before the point and
a power of ten.  There is no JSON number for an infinity or NaN; they are written as `null`.

In strings the quote, the backslash and the control characters have escapes; all else stands for
itself.  A document is written on one line without blanks, or with one member a line, two spaces
deeper in each object.
-/

namespace EmulatorSettings

/-- The JSON text of a binary number: `shortest .even` digits, or `null` for what is not finite. -/
def Binary32.jsonText : Binary32 → List Char
  | finite s n =>
    let d := shortest .even n
    signText s ++
      if n.val = 0 then ['0', '.', '0']
      else if -6 < d.point ∧ d.point ≤ 13 then d.positional
      else d.scientific
  | _          => ['n', 'u', 'l', 'l']

namespace Json

/-- The two lower-case hexadecimal digits of the code `n` of a control character. -/
def hexByte (n : Nat) : List Char :=
  [Nat.digitChar (n / 16), Nat.digitChar (n % 16)]

/-- The written form of `c` in a string. -/
def escape (c : Char) : List Char :=
  if c = '"' then ['\\', '"']
  else if c = '\\' then ['\\', '\\']
  else if c = '\x08' then ['\\', 'b']
  else if c = '\t' then ['\\', 't']
  else if c = '\n' then ['\\', 'n']
  else if c = '\x0c' then ['\\', 'f']
  else if c = '\r' then ['\\', 'r']
  else if c.toNat < 0x20 then ['\\', 'u', '0', '0'] ++ hexByte c.toNat
  else [c]

/-- The string `s` between quotes, each character as `escape` writes it. -/
def stringText (s : String) : List Char :=
  '"' :: s.toList.flatMap escape ++ ['"']

/-- The text of a scalar: `intDigits`, `jsonText` or `stringText`. -/
def scalarText : Value → List Char
  | .int n   => Text.intDigits n.toInt
  | .float x => x.jsonText
  | .text s  => stringText s

mutual

/-- A document on one line without blanks; the members of an object are `compactMembers`. -/
def compact : Json → List Char
  | scalar v       => scalarText v
  | object members => '\x7b' :: compactMembers members ++ ['\x7d']

/-- Members `name:document` with commas between them. -/
def compactMembers : List (String × Json) → List Char
  | []                   => []
  | [(name, d)]          => stringText name ++ ':' :: compact d
  | (name, d) :: m :: r => stringText name ++ ':' :: compact d ++ ',' :: compactMembers (m :: r)

end

/-- A line break and the indentation of a `depth`, two spaces each. -/
def newLine (depth : Nat) : List Char :=
  '\n' :: List.replicate (2 * depth) ' '

mutual

/-- A document with one member a line, at a `depth`; the members stand one `depth` further in. -/
def pretty (depth : Nat) : Json → List Char
  | scalar v       => scalarText v
  | object []      => ['\x7b', '\x7d']
  | object (m :: r) =>
    '\x7b' :: prettyMembers (depth + 1) (m :: r) ++ newLine depth ++ ['\x7d']

/-- Members on lines of their own at a `depth`, with commas between them. -/
def prettyMembers (depth : Nat) : List (String × Json) → List Char
  | []                   => []
  | [(name, d)]          => newLine depth ++ stringText name ++ [':', ' '] ++ pretty depth d
  | (name, d) :: m :: r =>
    newLine depth ++ stringText name ++ [':', ' '] ++ pretty depth d ++
      ',' :: prettyMembers depth (m :: r)

end

end Json

end EmulatorSettings
