/-!
# Binary32 numbers

The numbers of the 32-bit binary interchange format.  A finite number is a sign and an ordinal:
ordinals count the magnitudes from zero up, so the next larger magnitude has the next ordinal.
Every finite magnitude is a whole multiple of `2 ^ (-149)`, and `unitsAt` says which.

A ratio `num / den` of natural numbers is rounded to the nearest magnitude; of two equally near
magnitudes the one with the even ordinal is taken.  The ratio is cut to a grid whose spacing is that
of the magnitudes around it, `2 ^ gridAt num den` units, so the rounded multiple of the grid is the
offset of the ordinal.  The operations that settings need are `ofInt`, the number nearest to a whole
number, `scale`, the product with a positive ratio, rounded once, and `toInt32`, the nearest 32-bit
whole number.

* `unitsAt_lt_succ`: larger ordinals are larger magnitudes.
* `ofBits_toBits`: a number is determined by its 32 bits, all NaNs being one.
* `roundEven_mul`: `roundEven (k * den) den = k`.
* `ofRatio_isFinite_iff`: `ofRatio` overflows exactly when `nearestOrdinal` is no finite ordinal.
-/

namespace EmulatorSettings

/-- A number of the 32-bit binary format; the payload of a `nan` is not kept. -/
inductive Binary32 where
  | nan
  | infinity (negative : Bool)
  | finite (negative : Bool) (ordinal : Fin 0x7F800000)
  deriving DecidableEq

namespace Binary32

/-- The number of units of `2 ^ (-149)` in one. -/
def unitsInOne : Nat := 1 <<< 149

/-- The number of magnitudes between one power of two and the next, `2 ^ 23`. -/
def binade : Nat := 0x800000

/-- The magnitude with this `ordinal`, in units of `2 ^ (-149)`.  Past the last finite ordinal it
goes on in the same way, which gives the point from which rounding overflows. -/
def unitsAt (ordinal : Nat) : Nat :=
  if ordinal < binade then ordinal
  else (binade + ordinal % binade) <<< (ordinal / binade - 1)

/-- The zero of a sign: `finite negative 0`. -/
def signedZero (negative : Bool) : Binary32 := finite negative 0

/-- Positive zero, `signedZero false`. -/
def zero : Binary32 := signedZero false

instance : Inhabited Binary32 := ⟨zero⟩

/-- Whether the number is neither an `infinity` nor `nan`. -/
def isFinite : Binary32 → Bool
  | finite .. => true
  | _         => false

/-- Equality of numbers: the two zeros are equal, and `nan` equals nothing. -/
def equals : Binary32 → Binary32 → Bool
  | nan,        _          => false
  | _,          nan        => false
  | infinity s, infinity t => s == t
  | finite s m, finite t n => m == n && (s == t || m == 0)
  | _,          _          => false

/-- The number with these 32 `bits`: a sign bit above the ordinal. -/
def ofBits (bits : Nat) : Binary32 :=
  let negative := bits / 0x80000000 % 2 == 1
  let rest := bits % 0x80000000
  if h : rest < 0x7F800000 then finite negative ⟨rest, h⟩
  else if rest = 0x7F800000 then infinity negative
  else nan

/-- The bits of a number; for `nan` the quiet one without payload, `0x7FC00000`. -/
def toBits : Binary32 → Nat
  | nan        => 0x7FC00000
  | infinity s => s.toNat * 0x80000000 + 0x7F800000
  | finite s n => s.toNat * 0x80000000 + n

/-- A number is determined by its bits: `ofBits` undoes `toBits`. -/
theorem ofBits_toBits (x : Binary32) : ofBits x.toBits = x := by
  cases x with
  | nan => rfl
  | infinity s => cases s <;> rfl
  | finite s n =>
    have hn := n.isLt
    cases s <;> simp only [toBits, ofBits, Bool.toNat_false, Bool.toNat_true]
    · have h₁ : (0 * 0x80000000 + n.val) / 0x80000000 % 2 = 0 := by omega
      have h₂ : (0 * 0x80000000 + n.val) % 0x80000000 = n.val := by omega
      simp only [h₁, h₂, hn, dite_true]
      rfl
    · have h₁ : (1 * 0x80000000 + n.val) / 0x80000000 % 2 = 1 := by omega
      have h₂ : (1 * 0x80000000 + n.val) % 0x80000000 = n.val := by omega
      simp only [h₁, h₂, hn, dite_true]
      rfl

/-- The ordinal `n + 1` has a larger magnitude than `n`, across the border of a binade too. -/
theorem unitsAt_lt_succ (n : Nat) : unitsAt n < unitsAt (n + 1) := by
  unfold unitsAt binade
  by_cases h : n + 1 < 0x800000
  · rw [if_pos (by omega), if_pos h]
    omega
  · rw [if_neg h]
    by_cases h' : n < 0x800000
    · obtain rfl : n = 0x7FFFFF := by omega
      decide
    · rw [if_neg h', Nat.shiftLeft_eq, Nat.shiftLeft_eq]
      by_cases hm : (n + 1) % 0x800000 = 0
      · have hd : (n + 1) / 0x800000 - 1 = (n / 0x800000 - 1) + 1 := by omega
        have hr : n % 0x800000 = 0x7FFFFF := by omega
        have hpos := Nat.two_pow_pos (n / 0x800000 - 1)
        rw [hm, hd, hr, Nat.pow_succ]
        generalize 2 ^ (n / 0x800000 - 1) = p at hpos ⊢
        omega
      · have hd : (n + 1) / 0x800000 = n / 0x800000 := by omega
        have hr : (n + 1) % 0x800000 = n % 0x800000 + 1 := by omega
        rw [hd, hr]
        exact Nat.mul_lt_mul_of_pos_right (by omega) (Nat.two_pow_pos _)

/-! ### Rounding to nearest -/

/-- The ratio `num / den` rounded to a whole number, a half to the even neighbour. -/
def roundEven (num den : Nat) : Nat :=
  let quotient := num / den
  let rest := 2 * (num % den)
  if rest < den then quotient
  else if den < rest then quotient + 1
  else quotient + quotient % 2

/-- The spacing of magnitudes around `num / den` is `2 ^ gridAt num den` units. -/
def gridAt (num den : Nat) : Nat :=
  Nat.log2 (unitsInOne * num / den) - 23

/-- The ordinal of the magnitude nearest to `num / den`, past the finite ones if need be. -/
def nearestOrdinal (num den : Nat) : Nat :=
  let grid := gridAt num den
  grid * binade + roundEven (unitsInOne * num) (den <<< grid)

/-- The number nearest to `num / den` with the given sign, which is an `infinity` where
`nearestOrdinal` is past the finite ones. -/
def ofRatio (negative : Bool) (num den : Nat) : Binary32 :=
  if h : nearestOrdinal num den < 0x7F800000 then finite negative ⟨nearestOrdinal num den, h⟩
  else infinity negative

/-- A whole quotient is its own rounding. -/
theorem roundEven_mul (k : Nat) {den : Nat} (h : 0 < den) : roundEven (k * den) den = k := by
  simp [roundEven, Nat.mul_div_cancel k h, h]

/-- Rounding overflows exactly when `nearestOrdinal num den` is not finite. -/
theorem ofRatio_isFinite_iff {negative : Bool} {num den : Nat} :
    (ofRatio negative num den).isFinite = true ↔ nearestOrdinal num den < 0x7F800000 := by
  unfold ofRatio
  split <;> simp_all [isFinite]

/-! ### Arithmetic -/

/-- The number nearest to `i`; the zero is positive. -/
def ofInt (i : Int) : Binary32 :=
  ofRatio (i < 0) i.natAbs 1

/-- The product of `x` with `num / den`, both positive, rounded once.  The sign is kept, that of a
zero too. -/
def scale (x : Binary32) (num den : Nat) : Binary32 :=
  match x with
  | finite s n => ofRatio s (unitsAt n * num) (unitsInOne * den)
  | x          => x

/-- The whole number nearest to a magnitude of so many `units`, a half away from zero. -/
def roundUnits (units : Nat) : Nat :=
  (2 * units + unitsInOne) / (2 * unitsInOne)

/-- The nearest whole number by `roundUnits`, brought into the range of 32 bits; `nan` gives `0`. -/
def toInt32 : Binary32 → Int32
  | nan            => 0
  | infinity true  => Int32.minValue
  | infinity false => Int32.maxValue
  | finite true n  => Int32.ofInt (-min (roundUnits (unitsAt n)) (0x80000000 : Nat))
  | finite false n => Int32.ofInt (min (roundUnits (unitsAt n)) (0x7FFFFFFF : Nat))

end Binary32

end EmulatorSettings
