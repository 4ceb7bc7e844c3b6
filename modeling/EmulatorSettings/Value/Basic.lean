import EmulatorSettings.Binary32.Decimal

/-!
# Values

A setting holds a 32-bit whole number, a 32-bit binary number or a text.  Two comparisons are
used: `=`, which tells the zeros apart and takes NaN for itself, and `equals`, which compares
numbers as numbers and never takes one kind for another.

Settings files carry no types, so `ofText` guesses the kind of a value from its text: a whole number
of 32 bits if it is the numeral of one, else the nearest binary number if it is a decimal literal
that does not overflow, else the text itself.  Nothing is trimmed here.

What a file holds for a value is `written`.  A whole binary number is written exactly, however
large, with `.0` after it; any other finite one with its shortest digits around a point, the upper
of two equally near; a text is written as it is.

* `equals_iff`: `v.equals w` says `v = w` where no NaN and no zero is involved.
* `ofText_ne_nan`, `ofText_ne_infinity`: `ofText` gives only finite numbers.
* `eq_of_ofText_eq_text`: a text that stays a text is kept as it is.
-/

namespace EmulatorSettings

/-- What a setting holds: a whole number `int n`, a binary number `float x` or a text `text s`. -/
inductive Value where
  | int (n : Int32)
  | float (x : Binary32)
  | text (s : String)
  deriving DecidableEq

namespace Value

instance : Inhabited Value := ⟨.int 0⟩

/-- Equality of values of one kind, with numbers compared as numbers: `float x` and `float y` by
`Binary32.equals`. -/
def equals : Value → Value → Bool
  | int m,   int n   => m == n
  | float x, float y => x.equals y
  | text s,  text t  => s == t
  | _,       _       => false

/-- Whether two values are built by the same one of `int`, `float` and `text`. -/
def sameKind : Value → Value → Bool
  | int _,   int _   => true
  | float _, float _ => true
  | text _,  text _  => true
  | _,       _       => false

/-- The number `n` of an `int n`. -/
def int? : Value → Option Int32
  | int n => some n
  | _     => none

/-- Where `v` is neither NaN nor a zero, `v.equals w` is equality. -/
theorem equals_iff {v w : Value} (hnan : v ≠ float .nan)
    (hzero : ∀ s, v ≠ float (.signedZero s)) : v.equals w = true ↔ v = w := by
  cases v with
  | int m => cases w <;> simp [equals]
  | text s => cases w <;> simp [equals]
  | float x =>
    cases w with
    | int n => simp [equals]
    | text s => simp [equals]
    | float y =>
      cases x with
      | nan => exact absurd rfl hnan
      | infinity s => cases y <;> simp [equals, Binary32.equals]
      | finite s m =>
        have hm : m ≠ 0 := fun h => hzero s (by rw [h]; rfl)
        cases y <;> simp [equals, Binary32.equals, hm, and_comm]

/-! ### Reading a text -/

/-- The 32-bit number that equals `i`, if there is one. -/
def int32? (i : Int) : Option Int32 :=
  if -0x80000000 ≤ i ∧ i < 0x80000000 then some (Int32.ofInt i) else none

/-- The whole number that a numeral denotes: an optional sign and at least one digit. -/
def numeral? (cs : List Char) : Option Int :=
  let (negative, digits) := Binary32.Literal.takeSign cs
  if digits ≠ [] ∧ digits.all Char.isDigit then
    some (if negative then -(Text.ofDigits digits : Int) else Text.ofDigits digits)
  else none

/-- The number that `Binary32.Literal.ofChars?` reads in `cs`, if its value is finite. -/
def finiteLiteral? (cs : List Char) : Option Binary32 :=
  (Binary32.Literal.ofChars? cs).bind fun l =>
    if l.value.isFinite then some l.value else none

/-- The value that a text denotes: `int` for a numeral of 32 bits, `float` for a literal with a
finite value, else the `text` itself. -/
def ofText (s : String) : Value :=
  match (numeral? s.toList).bind int32? with
  | some n => int n
  | none   =>
    match finiteLiteral? s.toList with
    | some x => float x
    | none   => text s

/-- A literal that overflows is not read by `finiteLiteral?`. -/
theorem isFinite_of_finiteLiteral? {cs : List Char} {x : Binary32}
    (h : finiteLiteral? cs = some x) : x.isFinite = true := by
  simp only [finiteLiteral?, Option.bind_eq_some_iff] at h
  obtain ⟨l, -, hl⟩ := h
  split at hl
  · next hf => exact Option.some.inj hl ▸ hf
  · exact absurd hl (by simp)

/-- The numbers that `ofText` reads are finite. -/
theorem isFinite_of_ofText_eq_float {s : String} {x : Binary32} (h : ofText s = float x) :
    x.isFinite = true := by
  unfold ofText at h
  split at h
  · exact absurd h (by simp)
  · split at h
    · next y hy => exact (float.inj h) ▸ isFinite_of_finiteLiteral? hy
    · exact absurd h (by simp)

/-- No text is read as `nan`, not even the word. -/
theorem ofText_ne_nan (s : String) : ofText s ≠ float .nan := fun h =>
  absurd (isFinite_of_ofText_eq_float h) (by simp [Binary32.isFinite])

/-- No text is read as an `infinity` of either sign. -/
theorem ofText_ne_infinity (s : String) (negative : Bool) :
    ofText s ≠ float (.infinity negative) := fun h =>
  absurd (isFinite_of_ofText_eq_float h) (by simp [Binary32.isFinite])

/-- If `ofText s` is a text at all, it is `s`. -/
theorem eq_of_ofText_eq_text {s t : String} (h : ofText s = text t) : t = s := by
  unfold ofText at h
  split at h
  · exact absurd h (by simp)
  · split at h
    · exact absurd h (by simp)
    · exact (text.inj h).symm

end Value

/-! ### The written text -/

/-- The text of a binary number in a settings file: `.0` follows a whole number, and the digits of
any other finite one are those of `shortest .up`. -/
def Binary32.fileText : Binary32 → List Char
  | nan            => ['N', 'a', 'N']
  | infinity s     => signText s ++ ['i', 'n', 'f']
  | finite s n     =>
    signText s ++
      if unitsAt n % unitsInOne = 0 then Text.natDigits (unitsAt n / unitsInOne) ++ ['.', '0']
      else (shortest .up n).positional

/-- The text of a value in a settings file: `intDigits`, `fileText`, or the text itself. -/
def Value.written : Value → String
  | int n   => String.ofList (Text.intDigits n.toInt)
  | float x => String.ofList x.fileText
  | text s  => s

end EmulatorSettings
