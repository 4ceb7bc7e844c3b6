import EmulatorSettings.Binary32.Basic
import EmulatorSettings.Text.Basic

/-!
# Binary32 — decimals

A literal is an optional sign, digits with at most one point among or around them and at least
one digit in all, and optionally a power of ten: `1`, `+1.`, `-.5`, `1.5e-3`.  There are no words
for infinity and NaN here, no blanks and no separators between digits.  `Literal.ofChars?` reads a
literal, and `Literal.value` is the number nearest to it.

A magnitude is shown by the fewest decimal digits that read back as the same number; among the
decimals of that length the nearest one is taken, and `Tie` says which of two equally near ones.
Every magnitude is a whole multiple of `10 ^ (-149)`, so it lies on the finest decimal grid used
here, and on each coarser grid only its two neighbours need to be tried: the first grid, from the
coarsest down, that has a neighbour reading back gives the digits.  They are laid out around a
point, `Decimal.positional`, or with one digit before the point and a power of ten,
`Decimal.scientific`.

* `readsBack_shortestFrom`: what `shortestFrom tie` finds reads back, whatever `tie` is.
-/

namespace EmulatorSettings.Binary32

/-! ### Literals -/

/-- A decimal literal: its `digits` without the point, and the power of ten, `exponent`, that the
last digit counts. -/
structure Literal where
  negative : Bool
  digits : List Char
  exponent : Int
  deriving DecidableEq

namespace Literal

/-- Takes the sign off the front: whether it is a `-`, and what follows. -/
def takeSign : List Char → Bool × List Char
  | '-' :: r => (true, r)
  | '+' :: r => (false, r)
  | cs       => (false, cs)

/-- The power of ten after the digits: `0` where nothing follows, or `e` and a signed run of digits.
-/
def readExponent : List Char → Option Int
  | []     => some 0
  | e :: r =>
    let (negative, digits) := takeSign r
    if (e = 'e' ∨ e = 'E') ∧ digits ≠ [] ∧ digits.all Char.isDigit then
      some (if negative then -(Text.ofDigits digits : Int) else Text.ofDigits digits)
    else none

/-- The digits after a `.` and the rest; without a point there are none. -/
def takeFraction : List Char → List Char × List Char
  | '.' :: r => (r.takeWhile Char.isDigit, r.dropWhile Char.isDigit)
  | cs       => ([], cs)

/-- Reads the whole text `cs` as a literal. -/
def ofChars? (cs : List Char) : Option Literal :=
  let (negative, body) := takeSign cs
  let whole := body.takeWhile Char.isDigit
  let (fraction, rest) := takeFraction (body.dropWhile Char.isDigit)
  if whole ++ fraction = [] then none
  else (readExponent rest).map fun e => ⟨negative, whole ++ fraction, e - fraction.length⟩

/-- The number nearest to the literal `l`.  With `top` digits before the point once the leading
zeros are gone, a literal is at least `10 ^ (top - 1)` and less than `10 ^ top`; so it overflows
from `top = 40` on, rounds to zero up to `top = -46`, and is computed exactly in between. -/
def value (l : Literal) : Binary32 :=
  let significant := l.digits.dropWhile (· = '0')
  let top := significant.length + l.exponent
  if significant = [] ∨ top ≤ -46 then signedZero l.negative
  else if 40 ≤ top then infinity l.negative
  else if 0 ≤ l.exponent then
    ofRatio l.negative (Text.ofDigits significant * Text.tenTo l.exponent.toNat) 1
  else ofRatio l.negative (Text.ofDigits significant) (Text.tenTo (-l.exponent).toNat)

end Literal

/-! ### The shortest digits -/

/-- Which of two equally near decimals of the same length is taken: the one further `up`, or the one
whose last digit is `even`. -/
inductive Tie where
  | up
  | even
  deriving DecidableEq

/-- The number of units of `10 ^ (-149)` in one of `2 ^ (-149)`. -/
def decimalUnitsInUnit : Nat := Nat.pow 5 149

/-- The magnitude with this `ordinal`, in units of `10 ^ (-149)`. -/
def decimalUnitsAt (ordinal : Nat) : Nat :=
  decimalUnitsInUnit * unitsAt ordinal

/-- Whether `c` steps of the grid with spacing `10 ^ grid` units round to this `ordinal`. -/
def readsBack (ordinal grid c : Nat) : Bool :=
  nearestOrdinal (Text.tenTo grid * c) (Text.tenTo 149) == ordinal

/-- The nearer of the neighbours `c` and `c + 1` of a value that lies `rest` steps of
`1 / step` above `c`. -/
def nearer (tie : Tie) (step rest c : Nat) : Nat :=
  if 2 * rest < step then c
  else if step < 2 * rest then c + 1
  else match tie with
    | .up   => c + 1
    | .even => c + c % 2

/-- The neighbour `c` or `c + 1` that reads back, the nearer one if both do. -/
def pick (tie : Tie) (ordinal grid rest c : Nat) : Option Nat :=
  if readsBack ordinal grid c then
    some (if readsBack ordinal grid (c + 1) then nearer tie (Text.tenTo grid) rest c else c)
  else if readsBack ordinal grid (c + 1) then some (c + 1)
  else none

/-- The decimal on the grid with spacing `10 ^ grid` that `readsBack`, if there is one. -/
def onGrid (tie : Tie) (ordinal grid : Nat) : Option Nat :=
  pick tie ordinal grid (decimalUnitsAt ordinal % Text.tenTo grid)
    (decimalUnitsAt ordinal / Text.tenTo grid)

/-- The first hit of `onGrid` from this grid down, with the grid it lies on. -/
def shortestFrom (tie : Tie) (ordinal : Nat) : Nat → Nat × Nat
  | 0        => (decimalUnitsAt ordinal, 0)
  | grid + 1 =>
    (onGrid tie ordinal (grid + 1)).elim (shortestFrom tie ordinal grid) fun c => (c, grid + 1)

/-- A positive decimal `0.d₁d₂… · 10 ^ point`, with no zero at its end. -/
structure Decimal where
  digits : List Char
  point : Int
  deriving DecidableEq

/-- The shortest decimal of a positive magnitude, from `shortestFrom` the coarsest grid that the
magnitude reaches. -/
def shortest (tie : Tie) (ordinal : Nat) : Decimal :=
  let top := (Text.natDigits (decimalUnitsAt ordinal)).length - 1
  let (c, grid) := shortestFrom tie ordinal top
  let digits := Text.natDigits c
  { digits := (digits.reverse.dropWhile (· = '0')).reverse
    point := digits.length + grid - 149 }

/-- Whatever `tie` is, `nearer` gives one of the two neighbours. -/
theorem nearer_eq (tie : Tie) (step rest c : Nat) :
    nearer tie step rest c = c ∨ nearer tie step rest c = c + 1 := by
  unfold nearer
  split
  · exact .inl rfl
  · split
    · exact .inr rfl
    · cases tie with
      | up   => exact .inr rfl
      | even => rcases Nat.mod_two_eq_zero_or_one c with h | h <;> simp [h]

/-- What `pick` gives reads back. -/
theorem readsBack_of_pick {tie : Tie} {ordinal grid rest b c : Nat}
    (h : pick tie ordinal grid rest b = some c) : readsBack ordinal grid c = true := by
  unfold pick at h
  split at h
  · next h₀ =>
    obtain rfl := Option.some.inj h
    split
    · next h₁ =>
      rcases nearer_eq tie (Text.tenTo grid) rest b with hn | hn
      · rw [hn]; exact h₀
      · rw [hn]; exact h₁
    · exact h₀
  · split at h
    · next h₁ => exact Option.some.inj h ▸ h₁
    · exact absurd h (by simp)

/-- A decimal found on some grid reads back; on the finest grid, `0`, it is the exact value. -/
theorem readsBack_shortestFrom (tie : Tie) (ordinal top : Nat)
    (hexact : readsBack ordinal 0 (decimalUnitsAt ordinal) = true) :
    readsBack ordinal (shortestFrom tie ordinal top).2 (shortestFrom tie ordinal top).1 = true := by
  induction top with
  | zero => rw [shortestFrom]; exact hexact
  | succ grid ih =>
    rw [shortestFrom]
    cases hc : onGrid tie ordinal (grid + 1) with
    | none   => exact ih
    | some c => exact readsBack_of_pick hc

/-! ### Layouts of a decimal -/

/-- The `-` of a negative number. -/
def signText (negative : Bool) : List Char :=
  if negative then ['-'] else []

namespace Decimal

/-- The decimal without a power of ten: zeros fill the places up to the point, and `.0` follows a
whole number. -/
def positional (d : Decimal) : List Char :=
  if d.point ≤ 0 then '0' :: '.' :: (List.replicate (-d.point).toNat '0' ++ d.digits)
  else if d.point < d.digits.length then
    d.digits.take d.point.toNat ++ '.' :: d.digits.drop d.point.toNat
  else d.digits ++ List.replicate (d.point.toNat - d.digits.length) '0' ++ ['.', '0']

/-- One digit before the point, and the power of ten with its sign after `e`. -/
def scientific (d : Decimal) : List Char :=
  let exponent := d.point - 1
  d.digits.take 1 ++ (if d.digits.length ≤ 1 then [] else '.' :: d.digits.drop 1) ++
    ['e', if exponent < 0 then '-' else '+'] ++ Text.natDigits exponent.natAbs

end Decimal

end EmulatorSettings.Binary32
