import EmulatorSettings.Binary32.Basic
import Mathlib.Tactic.Ring

/-!
# Binary32 — the nearest ordinal

What `nearestOrdinal` depends on and where it leaves the finite magnitudes.

* `nearestOrdinal_eq_of_cross`: the nearest ordinal is a matter of the ratio alone, whichever
  numerator and denominator it is given by.
* `nearestOrdinal_unitsAt`: every magnitude is nearest to itself.
* `nearestOrdinal_eq_zero`, `le_nearestOrdinal`: a ratio below `10 ^ (-46)` rounds to zero, and
  one from `10 ^ 39` on rounds past the finite magnitudes.
-/

namespace EmulatorSettings.Binary32

/-! ### The ratio alone -/

/-- A common factor `k` does not change what `num / den` is rounded to. -/
theorem roundEven_scale {k : Nat} (hk : 0 < k) (num den : Nat) :
    roundEven (k * num) (k * den) = roundEven num den := by
  unfold roundEven
  rw [Nat.mul_div_mul_left _ _ hk, Nat.mul_mod_mul_left, Nat.mul_left_comm 2 k]
  simp only [Nat.mul_lt_mul_left hk]

theorem gridAt_scale {k : Nat} (hk : 0 < k) (num den : Nat) :
    gridAt (k * num) (k * den) = gridAt num den := by
  unfold gridAt
  rw [Nat.mul_left_comm, Nat.mul_div_mul_left _ _ hk]

theorem nearestOrdinal_scale {k : Nat} (hk : 0 < k) (num den : Nat) :
    nearestOrdinal (k * num) (k * den) = nearestOrdinal num den := by
  unfold nearestOrdinal
  rw [gridAt_scale hk]
  simp only [Nat.shiftLeft_eq, Nat.mul_assoc k den, Nat.mul_left_comm unitsInOne k]
  rw [roundEven_scale hk]

/-- **The ratio alone.** Two ways `a / b` and `c / d` to write the same ratio have the same nearest
ordinal. -/
theorem nearestOrdinal_eq_of_cross {a b c d : Nat} (hb : 0 < b) (hd : 0 < d)
    (h : a * d = c * b) : nearestOrdinal a b = nearestOrdinal c d := by
  rw [← nearestOrdinal_scale hd a b, ← nearestOrdinal_scale hb c d, Nat.mul_comm d a, h,
    Nat.mul_comm c b, Nat.mul_comm d b]

/-- …and so the same nearest number, of either sign, by `ofRatio`. -/
theorem ofRatio_eq_of_cross (negative : Bool) {a b c d : Nat} (hb : 0 < b) (hd : 0 < d)
    (h : a * d = c * b) : ofRatio negative a b = ofRatio negative c d := by
  simp only [ofRatio, nearestOrdinal_eq_of_cross hb hd h]

/-! ### Magnitudes are nearest to themselves -/

theorem unitsInOne_eq : unitsInOne = 2 ^ 149 := by
  rw [unitsInOne, Nat.shiftLeft_eq, Nat.one_mul]

theorem unitsInOne_pos : 0 < unitsInOne := by
  rw [unitsInOne_eq]; exact Nat.two_pow_pos _

/-- Below the first `binade` the grid is the finest one. -/
theorem gridAt_small {n : Nat} (h : n < binade) : gridAt n unitsInOne = 0 := by
  unfold gridAt
  rw [Nat.mul_div_cancel_left _ unitsInOne_pos]
  by_cases h₀ : n = 0
  · subst h₀; rfl
  · have hlog : n.log2 < 23 := (Nat.log2_lt h₀).2 h
    omega

/-- A significand `m` of 24 bits lies on the grid it is shifted to. -/
theorem gridAt_shifted {m : Nat} (e : Nat) (hlo : binade ≤ m) (hhi : m < 2 * binade) :
    gridAt (m <<< e) unitsInOne = e := by
  unfold gridAt
  rw [Nat.mul_div_cancel_left _ unitsInOne_pos, Nat.shiftLeft_eq]
  have hpos : 0 < 2 ^ e := Nat.two_pow_pos e
  have hm : m * 2 ^ e ≠ 0 := Nat.mul_ne_zero (by unfold binade at hlo; omega) hpos.ne'
  have hlog : (m * 2 ^ e).log2 = 23 + e := by
    refine (Nat.log2_eq_iff hm).2 ⟨?_, ?_⟩
    · rw [Nat.pow_add]; exact Nat.mul_le_mul_right _ hlo
    · rw [show 23 + e + 1 = 24 + e by omega, Nat.pow_add]
      exact Nat.mul_lt_mul_of_pos_right hhi hpos
  rw [hlog]; omega

/-- **Every magnitude is nearest to itself**: `nearestOrdinal` undoes `unitsAt`. -/
theorem nearestOrdinal_unitsAt (n : Nat) : nearestOrdinal (unitsAt n) unitsInOne = n := by
  unfold nearestOrdinal unitsAt
  by_cases h : n < binade
  · -- a subnormal number counts the steps of the finest grid
    rw [if_pos h]
    simp only [gridAt_small h, Nat.shiftLeft_zero]
    rw [Nat.mul_comm unitsInOne, roundEven_mul n unitsInOne_pos]
    omega
  · -- any other has a significand of 24 bits, and an ordinal that counts the binades below it
    rw [if_neg h]
    have hb : 0 < binade := by decide
    have hmod : n % binade < binade := Nat.mod_lt _ hb
    have hdiv : 1 ≤ n / binade := (Nat.one_le_div_iff hb).2 (Nat.le_of_not_lt h)
    have hpos : 0 < unitsInOne * 2 ^ (n / binade - 1) :=
      Nat.mul_pos unitsInOne_pos (Nat.two_pow_pos _)
    have hgrid : gridAt ((binade + n % binade) <<< (n / binade - 1)) unitsInOne = n / binade - 1 :=
      gridAt_shifted _ (Nat.le_add_right _ _) (by omega)
    simp only [hgrid]
    rw [Nat.shiftLeft_eq, Nat.shiftLeft_eq, Nat.mul_left_comm, roundEven_mul _ hpos]
    have hsplit := Nat.div_add_mod n binade
    have hexp : binade * (n / binade) = (n / binade - 1) * binade + binade := by
      obtain ⟨q, hq⟩ := Nat.exists_eq_add_of_le hdiv
      rw [hq, Nat.add_sub_cancel_left]; ring
    omega

/-! ### The two ends of the range -/

theorem ten_pow_46 : 2 ^ 149 * 4 ≤ 10 ^ 46 := by decide

theorem ten_pow_39 : 2 ^ 129 ≤ 10 ^ 39 := by decide

/-- A ratio below `10 ^ (-46)` rounds to zero. -/
theorem nearestOrdinal_eq_zero {num den : Nat} (h : num * 10 ^ 46 < den) :
    nearestOrdinal num den = 0 := by
  have hsmall : 2 * (unitsInOne * num) < den := by
    have h₁ : unitsInOne * 4 * num ≤ 10 ^ 46 * num :=
      Nat.mul_le_mul_right num (by rw [unitsInOne_eq]; exact ten_pow_46)
    generalize unitsInOne = u at h₁ ⊢
    have h₂ : u * 4 * num = 4 * (u * num) := by ring
    generalize u * num = x at h₂ ⊢
    omega
  have hquot : unitsInOne * num / den = 0 := Nat.div_eq_of_lt (by omega)
  have hrest : unitsInOne * num % den = unitsInOne * num := Nat.mod_eq_of_lt (by omega)
  unfold nearestOrdinal gridAt
  simp only [hquot, Nat.log2_zero, Nat.zero_sub, Nat.shiftLeft_zero, Nat.zero_mul, Nat.zero_add]
  unfold roundEven
  simp only [hquot, hrest, if_pos hsmall]

/-- A ratio from `10 ^ 39` on rounds past the finite ordinals, which end before `0x7F800000`. -/
theorem le_nearestOrdinal {num den : Nat} (hden : 0 < den) (h : den * 10 ^ 39 ≤ num) :
    0x7F800000 ≤ nearestOrdinal num den := by
  have hquot : 2 ^ (149 + 129) ≤ unitsInOne * num / den := by
    refine (Nat.le_div_iff_mul_le hden).2 ?_
    calc 2 ^ (149 + 129) * den = 2 ^ 149 * (den * 2 ^ 129) := by
          rw [Nat.pow_add, Nat.mul_assoc, Nat.mul_comm den]
      _ ≤ 2 ^ 149 * (den * 10 ^ 39) :=
          Nat.mul_le_mul_left _ (Nat.mul_le_mul_left _ ten_pow_39)
      _ ≤ unitsInOne * num := by rw [unitsInOne_eq]; exact Nat.mul_le_mul_left _ h
  have hgrid : 255 ≤ gridAt num den := by
    have hne : unitsInOne * num / den ≠ 0 :=
      Nat.ne_of_gt (Nat.lt_of_lt_of_le (Nat.two_pow_pos _) hquot)
    have hlog := (Nat.le_log2 hne).2 hquot
    unfold gridAt
    omega
  unfold nearestOrdinal
  calc 0x7F800000 = 255 * binade := by decide
    _ ≤ gridAt num den * binade := Nat.mul_le_mul_right _ hgrid
    _ ≤ _ := Nat.le_add_right _ _

theorem ofRatio_zero (negative : Bool) (den : Nat) (hden : 0 < den) :
    ofRatio negative 0 den = signedZero negative := by
  have h : nearestOrdinal 0 den = 0 := nearestOrdinal_eq_zero (by rw [Nat.zero_mul]; exact hden)
  simp only [ofRatio, h]
  rfl

end EmulatorSettings.Binary32
