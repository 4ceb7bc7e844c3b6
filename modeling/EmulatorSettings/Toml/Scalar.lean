import EmulatorSettings.Binary32.Decimal
import EmulatorSettings.DateTime.Basic
import EmulatorSettings.Toml.Strings

/-!
# TOML — numbers, booleans and dates

Values without quotes and brackets.  They are checked and not computed: whole numbers of 64 bits
in four bases, floating point numbers, `true` and `false`, and days and times of day.
-/

namespace EmulatorSettings.Toml

/-! ### Numbers -/

/-- What follows further digits of a number.  One `_` may stand between two digits. -/
def moreDigits (isDigit : Char → Bool) : List Char → List Char
  | []            => []
  | '_' :: c :: r => if isDigit c then moreDigits isDigit r else '_' :: c :: r
  | c :: r        => if isDigit c then moreDigits isDigit r else c :: r

/-- What follows the digits of a number, of which there is at least one with `isDigit`. -/
def digits? (isDigit : Char → Bool) : List Char → Option (List Char)
  | []     => none
  | c :: r => if isDigit c then some (moreDigits isDigit r) else none

/-- What follows a sign, `-` or `+`, if there is one. -/
def dropSign (cs : List Char) : List Char :=
  (Binary32.Literal.takeSign cs).2

/-- What follows a whole number in decimal digits.  It does not begin with `0`, unless it is zero.
-/
def decimal? (cs : List Char) : Option (List Char) :=
  match dropSign cs with
  | '0' :: r => some r
  | r        => digits? Char.isDigit r

/-- The number `cs` without its underscores, as `fitsInBase` and the others compute it. -/
def dropUnderscores (cs : List Char) : List Char :=
  cs.filter (· ≠ '_')

/-- Whether the digits `cs`, `base` to the place, are those of a number below `2 ^ 63`. -/
def fitsInBase (base : Nat) (cs : List Char) : Bool :=
  (dropUnderscores cs).foldl (fun n c => base * n + (hexValue? c).getD 0) 0 <
    0x8000000000000000

/-- Whether the decimal number `cs` is one of 64 bits, `-2 ^ 63` included. -/
def fitsDecimal (cs : List Char) : Bool :=
  let (negative, digits) := Binary32.Literal.takeSign (dropUnderscores cs)
  Text.ofDigits digits < 0x8000000000000000 ||
    (negative && Text.ofDigits digits = 0x8000000000000000)

/-- Whether a text is a whole number of 64 bits, in one of the bases `0x`, `0o`, `0b` or in decimal
digits. -/
def isInteger : List Char → Bool
  | '0' :: 'x' :: r => digits? (fun c => (hexValue? c).isSome) r = some [] && fitsInBase 16 r
  | '0' :: 'o' :: r => digits? (fun c => '0' ≤ c && c ≤ '7') r = some [] && fitsInBase 8 r
  | '0' :: 'b' :: r => digits? (fun c => c = '0' || c = '1') r = some [] && fitsInBase 2 r
  | cs              => decimal? cs = some [] && fitsDecimal cs

/-- What follows the digits after a `.`, if there is one. -/
def fraction? : List Char → Option (List Char)
  | '.' :: r => digits? Char.isDigit r
  | cs       => some cs

/-- What follows a power of ten, `e` and its digits, if there is one. -/
def exponent? : List Char → Option (List Char)
  | e :: r => if e = 'e' ∨ e = 'E' then digits? Char.isDigit (dropSign r) else some (e :: r)
  | []     => some []

/-- The least number that is nearer to infinity than to a finite number of 64 bits,
`(2 ^ 54 - 1) * 2 ^ 970`. -/
def overflowBound : Nat :=
  (1 <<< 54 - 1) <<< 970

/-- Whether the positive number `cs` reaches the `overflowBound`, so that its nearest neighbour of
64 bits is infinite. -/
def overflows (cs : List Char) : Bool :=
  (Binary32.Literal.ofChars? (dropUnderscores cs)).any fun l =>
    let significant := l.digits.dropWhile (· = '0')
    let top := (significant.length : Int) + l.exponent
    !l.negative && significant ≠ [] && 308 < top &&
      (309 < top ||
        overflowBound * Text.tenTo (-l.exponent).toNat ≤
          Text.ofDigits significant * Text.tenTo l.exponent.toNat)

/-- Whether `cs` is a floating point number: with a `fraction?`, an `exponent?` or both, or a word
for what is not finite. -/
def isFloat (cs : List Char) : Bool :=
  dropSign cs = ['i', 'n', 'f'] || dropSign cs = ['n', 'a', 'n'] ||
    (decimal? cs ≠ some [] && ((decimal? cs).bind fraction?).bind exponent? = some [] &&
      !overflows cs)

/-! ### Dates -/

/-- A number of two digits from `least` to `greatest`, and what follows it. -/
def twoDigits? (least greatest : Nat) : List Char → Option (Nat × List Char)
  | a :: b :: r =>
    let n := Text.ofDigits [a, b]
    if a.isDigit ∧ b.isDigit ∧ least ≤ n ∧ n ≤ greatest then some (n, r) else none
  | _           => none

/-- What follows the character `c`, which has to be there. -/
def expect? (c : Char) : List Char → Option (List Char)
  | d :: r => if d = c then some r else none
  | []     => none

/-- What follows a day `YYYY-MM-DD`: a year of four digits, a month, and a day of that month. -/
def day? (cs : List Char) : Option (List Char) := do
  let year := cs.take 4
  if year.length ≠ 4 ∨ !year.all Char.isDigit then none
  let r ← expect? '-' (cs.drop 4)
  let (month, r) ← twoDigits? 1 12 r
  let r ← expect? '-' r
  let (day, r) ← twoDigits? 1 31 r
  if day ≤ daysInMonth (Text.ofDigits year) month then some r else none

/-- What follows the digits after the `.` of a second, if there are any. -/
def secondFraction : List Char → List Char
  | '.' :: c :: r => if c.isDigit then r.dropWhile Char.isDigit else '.' :: c :: r
  | cs            => cs

/-- What follows a time of day `HH:MM:SS`, perhaps with a `secondFraction`. -/
def time? (cs : List Char) : Option (List Char) := do
  let (_, r) ← twoDigits? 0 23 cs
  let r ← expect? ':' r
  let (_, r) ← twoDigits? 0 59 r
  let r ← expect? ':' r
  let (_, r) ← twoDigits? 0 60 r
  return secondFraction r

/-- What follows the distance from universal time, `Z` or `+HH:MM`, if there is one. -/
def offset? : List Char → Option (List Char)
  | []     => some []
  | c :: r =>
    if c = 'Z' ∨ c = 'z' then some r
    else if c = '+' ∨ c = '-' then do
      let (_, r) ← twoDigits? 0 23 r
      let r ← expect? ':' r
      let (_, r) ← twoDigits? 0 59 r
      return r
    else some (c :: r)

/-- What follows the time that a day may go with, after `T` or a blank. -/
def timeOfDay? : List Char → Option (List Char)
  | []     => some []
  | c :: r => if c = 'T' ∨ c = 't' ∨ c = ' ' then (time? r).bind offset? else some (c :: r)

/-- Whether `cs` is a `day?`, a `time?`, or both. -/
def isDateTime (cs : List Char) : Bool :=
  (day? cs).bind timeOfDay? = some [] || time? cs = some []

/-! ### Words -/

/-- Whether `c` may stand in a value without quotes. -/
def isWordChar (c : Char) : Bool :=
  c.isAlphanum || c = '+' || c = '-' || c = '_' || c = '.' || c = ':'

/-- Whether `cs` is a value without quotes: a boolean, `isInteger`, `isFloat` or `isDateTime`. -/
def isScalar (cs : List Char) : Bool :=
  cs = ['t', 'r', 'u', 'e'] || cs = ['f', 'a', 'l', 's', 'e'] || isInteger cs || isFloat cs ||
    isDateTime cs

/-- The length of the word that `cs` begins with.  A `day?` and a digit after one blank belong
together. -/
def wordLength (cs : List Char) : Nat :=
  let word := cs.takeWhile isWordChar
  match cs.drop word.length with
  | ' ' :: c :: r =>
    if day? word = some [] ∧ c.isDigit then word.length + 2 + (r.takeWhile isWordChar).length
    else word.length
  | _             => word.length

/-- What follows a value without quotes and brackets, if the word in front `isScalar`. -/
def scalar? (cs : List Char) : Option (List Char) :=
  if isScalar (cs.take (wordLength cs)) then some (cs.drop (wordLength cs)) else none

end EmulatorSettings.Toml
