import EmulatorSettings.Text.Basic

/-!
# Date-times

A `DateTime` is a day of the proleptic Gregorian calendar and a time of that day to the nanosecond;
`ValidParts` is part of it.  Years run from -262143 to 262142.  A leap second is the last second of
some minute with a nanosecond count of `10 ^ 9` or more.

A date-time is written `YYYY-MM-DD HH:MM:SS` by `render`, a leap second as second 60, the fraction
of a second not at all.  A year outside 0 to 9999 has a sign before its digits.  Reading, by
`ofChars?`, is more lenient.  Blank characters may stand before any number; the blanks between day
and hour may be missing.  The year has up to four digits, or a sign and any number of digits; the
other numbers have one or two digits.  Nothing may follow.
-/

namespace EmulatorSettings

/-- Whether `year` has a 29th of February. -/
def isLeapYear (year : Int) : Bool :=
  year % 4 == 0 && (year % 100 != 0 || year % 400 == 0)

/-- The number of days of a `month` counted from one, `0` for what is no month. -/
def daysInMonth (year : Int) (month : Nat) : Nat :=
  match month with
  | 2               => if isLeapYear year then 29 else 28
  | 4 | 6 | 9 | 11  => 30
  | 1 | 3 | 5 | 7 | 8 | 10 | 12 => 31
  | _               => 0

/-- Whether the parts name a day and a time of that day; a leap second has `second = 59` and a
`nanosecond` of `10 ^ 9` or more. -/
def ValidParts (year : Int) (month day hour minute second nanosecond : Nat) : Prop :=
  (-262143 ≤ year ∧ year ≤ 262142) ∧ (1 ≤ day ∧ day ≤ daysInMonth year month) ∧
    hour < 24 ∧ minute < 60 ∧ second < 60 ∧
    (nanosecond < 1000000000 ∨ (second = 59 ∧ nanosecond < 2000000000))

instance (year : Int) (month day hour minute second nanosecond : Nat) :
    Decidable (ValidParts year month day hour minute second nanosecond) :=
  inferInstanceAs (Decidable (_ ∧ _))

/-- A day and a time of that day, with the proof that its parts are `ValidParts`. -/
structure DateTime where
  year : Int
  month : Nat
  day : Nat
  hour : Nat
  minute : Nat
  second : Nat
  nanosecond : Nat
  valid : ValidParts year month day hour minute second nanosecond
  deriving DecidableEq

namespace DateTime

/-- The date-time with these parts, if they are `ValidParts`. -/
def ofParts? (year : Int) (month day hour minute second nanosecond : Nat) : Option DateTime :=
  if h : ValidParts year month day hour minute second nanosecond then
    some ⟨year, month, day, hour, minute, second, nanosecond, h⟩
  else none

/-- The digits of `year`, at least four, after a sign if it is outside `0` to `9999`. -/
def yearText (year : Int) : List Char :=
  if 0 ≤ year ∧ year ≤ 9999 then Text.paddedDigits 4 year.natAbs
  else (if year < 0 then '-' else '+') :: Text.paddedDigits 4 year.natAbs

/-- The written form `YYYY-MM-DD HH:MM:SS`. -/
def render (t : DateTime) : List Char :=
  yearText t.year ++ '-' :: Text.paddedDigits 2 t.month ++ '-' :: Text.paddedDigits 2 t.day ++
    ' ' :: Text.paddedDigits 2 t.hour ++ ':' :: Text.paddedDigits 2 t.minute ++
    ':' :: Text.paddedDigits 2 (t.second + t.nanosecond / 1000000000)

/-- The number of one or two digits in front, after blank characters, and the rest. -/
def takeNumber (cs : List Char) : Option (Nat × List Char) :=
  let digits := ((Text.trimStart cs).take 2).takeWhile Char.isDigit
  if digits = [] then none
  else some (Text.ofDigits digits, (Text.trimStart cs).drop digits.length)

/-- The unsigned number in front with all its digits, and the rest. -/
def takeDigits (cs : List Char) : Option (Nat × List Char) :=
  let digits := cs.takeWhile Char.isDigit
  if digits = [] then none else some (Text.ofDigits digits, cs.dropWhile Char.isDigit)

/-- The year in front, after blank characters, and the rest: up to four digits, or a sign and any
number of them. -/
def takeYear (cs : List Char) : Option (Int × List Char) :=
  match Text.trimStart cs with
  | '-' :: r => (takeDigits r).map fun (n, rest) => (-(n : Int), rest)
  | '+' :: r => (takeDigits r).map fun (n, rest) => ((n : Int), rest)
  | r        =>
    let digits := (r.take 4).takeWhile Char.isDigit
    if digits = [] then none else some ((Text.ofDigits digits : Int), r.drop digits.length)

/-- What follows `c`, if the text begins with it. -/
def takeChar (c : Char) : List Char → Option (List Char)
  | d :: r => if d = c then some r else none
  | []     => none

/-- Reads the whole text `cs` as a date-time; `second = 60` is a leap second. -/
def ofChars? (cs : List Char) : Option DateTime := do
  let (year, cs) ← takeYear cs
  let cs ← takeChar '-' cs
  let (month, cs) ← takeNumber cs
  let cs ← takeChar '-' cs
  let (day, cs) ← takeNumber cs
  let (hour, cs) ← takeNumber cs
  let cs ← takeChar ':' cs
  let (minute, cs) ← takeNumber cs
  let cs ← takeChar ':' cs
  let (second, cs) ← takeNumber cs
  if cs ≠ [] then none
  else if second = 60 then ofParts? year month day hour minute 59 1000000000
  else ofParts? year month day hour minute second 0

end DateTime

end EmulatorSettings
