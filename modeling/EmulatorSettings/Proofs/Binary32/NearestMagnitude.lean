import EmulatorSettings.Proofs.Binary32.RoundingError
import Mathlib.Order.Monotone.Basic

/-!
# Binary32 — the nearest magnitude

That rounding gives the nearest magnitude is said without the grid it is computed on: no magnitude
is nearer to the ratio, and of two that are equally near it is the even one.

* `unitsAt_succ`: the distance from one magnitude to the next.
* `isNearest_nearestOrdinal`: rounding gives the nearest magnitude, the even one of two.
* `nearestOrdinal_finite_iff`: it is a finite one exactly below `2 ^ 128 - 2 ^ 103`.
-/

namespace EmulatorSettings.Binary32

variable {num den n m : Nat}

/-! ### Magnitudes in their order -/

/-- **The next magnitude** `unitsAt (n + 1)` is one step of its binade away; the first two binades
have the same step. -/
theorem unitsAt_succ (n : Nat) : unitsAt (n + 1) = unitsAt n + 2 ^ (n / binade - 1) := by
  have hsplit := Nat.div_add_mod n binade
  have hrest := Nat.mod_lt n (show 0 < binade by decide)
  rcases Nat.lt_or_ge n binade with hsmall | hlarge
  · -- up to the first binade a magnitude is its ordinal
    rw [Nat.div_eq_of_lt hsmall]
    unfold unitsAt
    rw [if_pos hsmall]
    split
    · rfl
    · next hlast =>
      have hn : n + 1 = binade := by omega
      rw [hn, Nat.mod_self, Nat.div_self (by decide)]
      exact hn.symm
  · obtain ⟨grid, hgrid⟩ : ∃ grid, n / binade = grid + 1 :=
      Nat.exists_eq_add_of_le' ((Nat.one_le_div_iff (by decide)).2 hlarge)
    rw [hgrid] at hsplit ⊢
    have hn : n = grid * binade + (binade + n % binade) := by
      rw [← Nat.add_assoc, ← Nat.succ_mul, Nat.mul_comm]
      exact hsplit.symm
    have hnext : n + 1 = grid * binade + (binade + n % binade + 1) := by omega
    rw [hnext, unitsAt_of_steps grid (by omega) (by omega), Nat.add_sub_cancel, Nat.add_mul,
      Nat.one_mul]
    conv_rhs => rw [hn, unitsAt_of_steps grid (by omega) (by omega)]

/-- Larger ordinals are larger magnitudes: `unitsAt` is strictly monotone. -/
theorem strictMono_unitsAt : StrictMono unitsAt :=
  strictMono_nat_of_lt_succ unitsAt_lt_succ

/-! ### What is nearest -/

/-- How far the magnitude `n` is from `num / den`, counted in units over the denominator `den`. -/
def distance (num den n : Nat) : Nat :=
  ((unitsAt n * den : Nat) - (unitsInOne * num : Nat) : Int).natAbs

/-- The magnitude `n` is such that no other is nearer to `num / den`, and `n` is even if another is
as near. -/
structure IsNearest (num den n : Nat) : Prop where
  le : ∀ m, distance num den n ≤ distance num den m
  even : ∀ m, m ≠ n → distance num den m = distance num den n → n % 2 = 0

/-- A quotient that lies half way between two whole numbers is rounded by `roundEven` to the even
one. -/
theorem roundEven_even (hden : 0 < den)
    (h : 2 * (roundEven num den * den) = 2 * num + den ∨
      2 * num = 2 * (roundEven num den * den) + den) : roundEven num den % 2 = 0 := by
  have hsplit := Nat.div_add_mod num den
  have hrest := Nat.mod_lt num hden
  rw [Nat.mul_comm den] at hsplit
  unfold roundEven at h ⊢
  dsimp only at h ⊢
  by_cases hlo : 2 * (num % den) < den
  · rw [if_pos hlo] at h
    omega
  · rw [if_neg hlo] at h ⊢
    by_cases hhi : den < 2 * (num % den)
    · rw [if_pos hhi, Nat.add_mul] at h
      omega
    · rw [if_neg hhi]
      omega

/-! ### Rounding -/

/-- The steps of the grid at `num / den`, from zero on where the ratio is below the first `binade`.
-/
theorem steps_cases (hden : 0 < den) :
    gridAt num den = 0 ∧ roundEven (unitsInOne * num) (den * 2 ^ gridAt num den) ≤ binade ∨
      binade * (den * 2 ^ gridAt num den) ≤ unitsInOne * num ∧
        binade ≤ roundEven (unitsInOne * num) (den * 2 ^ gridAt num den) ∧
        roundEven (unitsInOne * num) (den * 2 ^ gridAt num den) ≤ 2 * binade := by
  rcases Nat.lt_or_ge (unitsInOne * num / den) binade with hsmall | hlarge
  · have hgrid : gridAt num den = 0 := by
      unfold gridAt
      by_cases h₀ : unitsInOne * num / den = 0
      · rw [h₀]
        rfl
      · have hlog : (unitsInOne * num / den).log2 < 23 := (Nat.log2_lt h₀).2 hsmall
        omega
    refine .inl ⟨hgrid, ?_⟩
    rw [hgrid, Nat.pow_zero, Nat.mul_one]
    rcases roundEven_eq (unitsInOne * num) den with hr | hr
    · omega
    · omega
  · exact .inr ⟨step_le hden hlarge, steps_bounds hlarge⟩

/-- **The rounded magnitude**, of `nearestOrdinal num den`, is a whole number of steps; the next one
is a step away at least, and so is the one before, unless the ratio is not below this one. -/
theorem nearestOrdinal_steps (hden : 0 < den) :
    unitsAt (nearestOrdinal num den) =
        roundEven (unitsInOne * num) (den * 2 ^ gridAt num den) * 2 ^ gridAt num den ∧
      (∀ m, nearestOrdinal num den < m →
        unitsAt (nearestOrdinal num den) + 2 ^ gridAt num den ≤ unitsAt m) ∧
      (unitsInOne * num < unitsAt (nearestOrdinal num den) * den → ∀ m,
        m < nearestOrdinal num den →
          unitsAt m + 2 ^ gridAt num den ≤ unitsAt (nearestOrdinal num den)) := by
  have hcases := @steps_cases num den hden
  rw [nearestOrdinal_eq]
  generalize gridAt num den = grid at hcases ⊢
  generalize roundEven (unitsInOne * num) (den * 2 ^ grid) = steps at hcases ⊢
  have hunits : unitsAt (grid * binade + steps) = steps * 2 ^ grid := by
    rcases hcases with ⟨rfl, hhi⟩ | ⟨-, hlo, hhi⟩
    · rw [Nat.zero_mul, Nat.zero_add, Nat.pow_zero, Nat.mul_one]
      rcases Nat.lt_or_eq_of_le hhi with hlt | rfl
      · exact if_pos hlt
      · decide
    · exact unitsAt_of_steps grid hlo hhi
  -- one magnitude further is a step of the grid or more, from the start of the binade on
  have hstep : ∀ k, grid = 0 ∨ (grid + 1) * binade ≤ k →
      unitsAt k + 2 ^ grid ≤ unitsAt (k + 1) := by
    intro k hk
    rw [unitsAt_succ]
    refine Nat.add_le_add_left (Nat.pow_le_pow_right (by decide) ?_) _
    rcases hk with rfl | hk
    · exact Nat.zero_le _
    · exact Nat.le_sub_one_of_lt ((Nat.le_div_iff_mul_le (by decide)).2 hk)
  refine ⟨hunits, fun m hm => ?_, fun hbelow m hm => ?_⟩
  · refine (hstep _ ?_).trans (strictMono_unitsAt.monotone hm)
    rcases hcases with ⟨rfl, -⟩ | ⟨-, hlo, -⟩
    · exact .inl rfl
    · rw [Nat.succ_mul]
      exact .inr (Nat.add_le_add_left hlo _)
  · obtain ⟨k, hk⟩ : ∃ k, grid * binade + steps = k + 1 :=
      Nat.exists_eq_add_of_le' (Nat.one_le_of_lt hm)
    rw [hk] at hm ⊢
    refine (Nat.add_le_add_right (strictMono_unitsAt.monotone (Nat.le_of_lt_succ hm)) _).trans
      (hstep k ?_)
    rcases hcases with ⟨rfl, -⟩ | ⟨hexact, hlo, -⟩
    · exact .inl rfl
    · -- a ratio that was rounded up is not at the start of its binade
      have hne : steps ≠ binade := by
        rintro rfl
        rw [hunits, Nat.mul_assoc, Nat.mul_comm _ den] at hbelow
        exact absurd hexact (Nat.not_le.2 hbelow)
      rw [Nat.succ_mul]
      exact .inr (by omega)

/-- **Rounding gives the nearest magnitude**: `nearestOrdinal num den`, and the even one of two. -/
theorem isNearest_nearestOrdinal (num : Nat) (hden : 0 < den) :
    IsNearest num den (nearestOrdinal num den) := by
  obtain ⟨hunits, habove, hbelow⟩ := @nearestOrdinal_steps num den hden
  have hpos : 0 < den * 2 ^ gridAt num den := Nat.mul_pos hden (Nat.two_pow_pos _)
  obtain ⟨hhi, hlo⟩ := roundEven_error (unitsInOne * num) hpos
  have heven := @roundEven_even (unitsInOne * num) (den * 2 ^ gridAt num den) hpos
  have hvalue : unitsAt (nearestOrdinal num den) * den =
      roundEven (unitsInOne * num) (den * 2 ^ gridAt num den) * (den * 2 ^ gridAt num den) := by
    rw [hunits]
    ring
  have hparity : roundEven (unitsInOne * num) (den * 2 ^ gridAt num den) % 2 = 0 →
      nearestOrdinal num den % 2 = 0 := by
    rw [nearestOrdinal_eq]
    unfold binade
    omega
  -- seen over the denominator, every other magnitude is a step away, or on the far side
  have hother : ∀ m, m ≠ nearestOrdinal num den →
      unitsAt (nearestOrdinal num den) * den + den * 2 ^ gridAt num den ≤ unitsAt m * den ∨
        unitsAt m * den < unitsAt (nearestOrdinal num den) * den ∧
          (unitsInOne * num < unitsAt (nearestOrdinal num den) * den →
            unitsAt m * den + den * 2 ^ gridAt num den ≤
              unitsAt (nearestOrdinal num den) * den) := by
    intro m hm
    rcases Nat.lt_or_gt_of_ne hm with hlt | hgt
    · refine .inr ⟨Nat.mul_lt_mul_of_pos_right (strictMono_unitsAt hlt) hden, fun hexact => ?_⟩
      have h := Nat.mul_le_mul_right den (hbelow hexact m hlt)
      rwa [Nat.add_mul, Nat.mul_comm (2 ^ _) den] at h
    · have h := Nat.mul_le_mul_right den (habove m hgt)
      rw [Nat.add_mul, Nat.mul_comm (2 ^ _) den] at h
      exact .inl h
  rw [← hvalue] at hhi hlo heven
  refine ⟨fun m => ?_, fun m hm hsame => hparity (heven ?_)⟩
  · unfold distance
    by_cases hm : m = nearestOrdinal num den
    · rw [hm]
    · have h := hother m hm
      omega
  · unfold distance at hsame
    have h := hother m hm
    omega

/-! ### Overflow -/

/-- **Rounding overflows** from `2 ^ 128 - 2 ^ 103` on, the middle between the last finite magnitude
and `2 ^ 128`. -/
theorem nearestOrdinal_finite_iff (hden : 0 < den) :
    nearestOrdinal num den < 0x7F800000 ↔ num < (2 ^ 128 - 2 ^ 103) * den := by
  have hnearest := @isNearest_nearestOrdinal den num hden
  generalize nearestOrdinal num den = n at hnearest ⊢
  have hlast : unitsAt 0x7F7FFFFF = 2 ^ 277 - 2 ^ 253 := by decide +kernel
  have hpast : unitsAt 0x7F800000 = 2 ^ 277 := by decide +kernel
  have hlastLe := hnearest.le 0x7F7FFFFF
  have hpastLe := hnearest.le 0x7F800000
  have heven := hnearest.even 0x7F800000
  unfold distance at hlastLe hpastLe heven
  rw [hlast] at hlastLe
  rw [hpast] at hpastLe heven
  rw [unitsInOne_eq] at hlastLe hpastLe heven
  constructor
  · intro hn
    have hle : unitsAt n ≤ 2 ^ 277 - 2 ^ 253 :=
      hlast ▸ strictMono_unitsAt.monotone (Nat.le_of_lt_succ hn)
    have hmul := Nat.mul_le_mul_right den hle
    by_contra hout
    -- the number past the last one is as near, so this is the last one, which is odd
    have hsame : unitsAt n * den = (2 ^ 277 - 2 ^ 253) * den := by omega
    have hn' : n = 0x7F7FFFFF := by
      refine strictMono_unitsAt.injective ?_
      rw [hlast]
      exact Nat.eq_of_mul_eq_mul_right hden hsame
    have h := heven (by omega) (by omega)
    omega
  · intro hlt
    by_contra hn
    have hle : 2 ^ 277 ≤ unitsAt n :=
      hpast ▸ strictMono_unitsAt.monotone (Nat.le_of_not_lt hn)
    have hmul := Nat.mul_le_mul_right den hle
    omega

end EmulatorSettings.Binary32
