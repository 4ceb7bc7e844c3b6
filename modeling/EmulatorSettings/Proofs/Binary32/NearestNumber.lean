import EmulatorSettings.Proofs.Binary32.NearestMagnitude
import Mathlib.Algebra.Order.Field.Basic
import Mathlib.Data.Rat.Cast.Order
import Mathlib.Tactic.FieldSimp
import Mathlib.Tactic.Linarith
import Mathlib.Tactic.Positivity

/-!
# Binary32 — the nearest number

Finite numbers are rational numbers, and a literal denotes a rational number too.  Reading a literal
gives the finite number nearest to it, unless it is too large for that.

* `isNearestTo_ofRatio`: the number that a ratio is rounded to is the nearest one.
* `Literal.isNearestTo_value`, `Literal.isFinite_value_iff`: so it is for literals, and the finite
  ones are those below `2 ^ 128 - 2 ^ 103`.
-/

namespace EmulatorSettings.Binary32

/-- The number `1` or `-1`, with the sign of a number. -/
def signRat (negative : Bool) : ℚ :=
  if negative then -1 else 1

/-- The rational number that a finite number is; `0` stands for the others. -/
def toRat : Binary32 → ℚ
  | finite negative n => signRat negative * (unitsAt n / unitsInOne)
  | _                 => 0

/-- The number `x` is finite, no other finite one is nearer to `q`, and the last bit of `x` is zero
if another is as near. -/
structure IsNearestTo (q : ℚ) (x : Binary32) : Prop where
  finite : x.isFinite = true
  le : ∀ y : Binary32, y.isFinite = true → |x.toRat - q| ≤ |y.toRat - q|
  even : ∀ y : Binary32, y.isFinite = true → y.toRat ≠ x.toRat → |y.toRat - q| = |x.toRat - q| →
    x.toBits % 2 = 0

theorem abs_signRat_mul (negative : Bool) (q : ℚ) : |signRat negative * q| = |q| := by
  cases negative <;> simp [signRat]

/-! ### Ratios -/

theorem unitsAt_zero : unitsAt 0 = 0 := rfl

theorem unitsInOne_rat_pos : (0 : ℚ) < unitsInOne := by
  exact_mod_cast unitsInOne_pos

variable {num den : Nat}

/-- The `distance` of a magnitude from `num / den`, as a rational number. -/
theorem abs_sub_ratio (hden : 0 < den) (n : Nat) :
    |(unitsAt n / unitsInOne : ℚ) - num / den| = distance num den n / (unitsInOne * den) := by
  have hd : (0 : ℚ) < den := by exact_mod_cast hden
  have hu := unitsInOne_rat_pos
  rw [div_sub_div _ _ hu.ne' hd.ne', abs_div, abs_of_pos (mul_pos hu hd), distance,
    Nat.cast_natAbs]
  push_cast
  rfl

/-- A magnitude `a` of a sign is as far from a ratio `q` of that sign as without. -/
theorem abs_signRat_sub (negative : Bool) (a q : ℚ) :
    |signRat negative * a - signRat negative * q| = |a - q| := by
  rw [← mul_sub, abs_signRat_mul]

/-- A magnitude `a` of the other sign is as far from a ratio `q` as both are large. -/
theorem abs_signRat_not_sub (negative : Bool) {a q : ℚ} (ha : 0 ≤ a) (hq : 0 ≤ q) :
    |signRat (!negative) * a - signRat negative * q| = a + q := by
  have hnot : signRat (!negative) = -signRat negative := by cases negative <;> simp [signRat]
  rw [hnot, neg_mul, ← neg_add', abs_neg, ← mul_add, abs_signRat_mul,
    abs_of_nonneg (add_nonneg ha hq)]

/-- **The number that a ratio is rounded to**, `ofRatio negative num den`, is the nearest one,
wherever that is finite. -/
theorem isNearestTo_ofRatio (negative : Bool) (hden : 0 < den)
    (hlt : num < (2 ^ 128 - 2 ^ 103) * den) :
    IsNearestTo (signRat negative * (num / den)) (ofRatio negative num den) := by
  have hnearest := isNearest_nearestOrdinal num hden
  have hfin := (nearestOrdinal_finite_iff hden).2 hlt
  have hq : (0 : ℚ) ≤ num / den := div_nonneg (Nat.cast_nonneg _) (Nat.cast_nonneg _)
  have hd : (0 : ℚ) < den := by exact_mod_cast hden
  have hscale : (0 : ℚ) < unitsInOne * den := mul_pos unitsInOne_rat_pos hd
  have hmagnitude : ∀ m, (0 : ℚ) ≤ unitsAt m / unitsInOne := fun m =>
    div_nonneg (Nat.cast_nonneg _) (Nat.cast_nonneg _)
  have hself : |(ofRatio negative num den).toRat - signRat negative * (num / den)| =
      |(unitsAt (nearestOrdinal num den) / unitsInOne : ℚ) - num / den| := by
    rw [ofRatio, dif_pos hfin, toRat, abs_signRat_sub]
  have hle : ∀ m, |(unitsAt (nearestOrdinal num den) / unitsInOne : ℚ) - num / den| ≤
      |(unitsAt m / unitsInOne : ℚ) - num / den| := fun m => by
    rw [abs_sub_ratio hden, abs_sub_ratio hden, div_le_div_iff_of_pos_right hscale]
    exact_mod_cast hnearest.le m
  -- another number is as far as its magnitude at least
  have hother : ∀ s m, |(unitsAt m / unitsInOne : ℚ) - num / den| ≤
      |signRat s * (unitsAt m / unitsInOne) - signRat negative * (num / den)| := by
    intro s m
    obtain rfl | rfl := Bool.eq_or_eq_not s negative
    · rw [abs_signRat_sub]
    · rw [abs_signRat_not_sub _ (hmagnitude m) hq]
      have := hmagnitude m
      exact abs_sub_le_iff.2 ⟨by linarith, by linarith⟩
  refine ⟨ofRatio_isFinite_iff.2 hfin, fun y hy => ?_, fun y hy hne hsame => ?_⟩
  · cases y with
    | nan => cases hy
    | infinity => cases hy
    | finite s m =>
        rw [hself]
        exact (hle m).trans (hother s m)
  · cases y with
    | nan => cases hy
    | infinity => cases hy
    | finite s m =>
        have heven : nearestOrdinal num den % 2 = 0 := by
          rw [hself, toRat] at hsame
          by_cases hm : m.val = nearestOrdinal num den
          · rw [ofRatio, dif_pos hfin, toRat, toRat, hm] at hne
            rw [hm] at hsame
            obtain rfl | rfl := Bool.eq_or_eq_not s negative
            · exact absurd rfl hne
            · -- of two signs with one magnitude the other is farther, unless both are zero
              rw [abs_signRat_not_sub _ (hmagnitude _) hq] at hsame
              have hzero := hle 0
              rw [← hsame, unitsAt_zero, Nat.cast_zero, zero_div, zero_sub, abs_neg,
                abs_of_nonneg hq, add_le_iff_nonpos_left] at hzero
              rw [hzero.antisymm (hmagnitude _), mul_zero, mul_zero] at hne
              exact absurd rfl hne
          · have hle' := hother s m
            rw [hsame, abs_sub_ratio hden, abs_sub_ratio hden,
              div_le_div_iff_of_pos_right hscale] at hle'
            exact hnearest.even m hm (Nat.le_antisymm (by exact_mod_cast hle') (hnearest.le m))
        rw [ofRatio, dif_pos hfin, toBits]
        dsimp only
        omega

/-! ### Literals -/

namespace Literal

open Text (AllDigits ofDigits tenTo tenTo_eq tenTo_pos)

/-- The rational number that the literal `l` denotes. -/
def toRat (l : Literal) : ℚ :=
  signRat l.negative * (ofDigits l.digits * 10 ^ l.exponent)

/-- The number `l.toRat` as a ratio of natural numbers, the one that `value_eq_ofRatio` rounds. -/
theorem toRat_eq_ratio (l : Literal) :
    l.toRat = signRat l.negative *
      ((ofDigits l.digits * tenTo l.exponent.toNat : Nat) / (tenTo (-l.exponent).toNat : Nat)) := by
  have hpow : (10 : ℚ) ^ l.exponent =
      (tenTo l.exponent.toNat : Nat) / (tenTo (-l.exponent).toNat : Nat) := by
    rw [tenTo_eq, tenTo_eq]
    rcases Int.le_total 0 l.exponent with hpos | hneg
    · obtain ⟨k, hk⟩ := Int.eq_ofNat_of_zero_le hpos
      rw [hk]
      simp
    · obtain ⟨k, hk⟩ := Int.eq_ofNat_of_zero_le (Int.neg_nonneg_of_nonpos hneg)
      have hk' : l.exponent = -(k : Int) := by omega
      rw [hk']
      simp
  rw [toRat, hpow, Nat.cast_mul, mul_div_assoc]

variable {l : Literal}

/-- **The finite literals** are those nearer to zero than `2 ^ 128 - 2 ^ 103`, the middle between
the last finite number and `2 ^ 128`. -/
theorem isFinite_value_iff (h : AllDigits l.digits) :
    l.value.isFinite = true ↔ |l.toRat| < 2 ^ 128 - 2 ^ 103 := by
  have hden : (0 : ℚ) < (tenTo (-l.exponent).toNat : Nat) := by exact_mod_cast tenTo_pos _
  rw [value_eq_ofRatio h, ofRatio_isFinite_iff, nearestOrdinal_finite_iff (tenTo_pos _),
    toRat_eq_ratio, abs_signRat_mul,
    abs_of_nonneg (div_nonneg (Nat.cast_nonneg _) (Nat.cast_nonneg _)), div_lt_iff₀ hden]
  have hbound : (2 ^ 128 - 2 ^ 103 : ℚ) = (2 ^ 128 - 2 ^ 103 : Nat) := by norm_num
  rw [hbound]
  exact_mod_cast Iff.rfl

/-- **Reading a literal** `l` gives the finite number that is nearest to `l.toRat`. -/
theorem isNearestTo_value (h : AllDigits l.digits) (hfin : l.value.isFinite = true) :
    IsNearestTo l.toRat l.value := by
  rw [value_eq_ofRatio h] at hfin ⊢
  rw [toRat_eq_ratio]
  exact isNearestTo_ofRatio l.negative (tenTo_pos _)
    ((nearestOrdinal_finite_iff (tenTo_pos _)).1 (ofRatio_isFinite_iff.1 hfin))

end Literal

end EmulatorSettings.Binary32
