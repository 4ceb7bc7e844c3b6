import EmulatorSettings.Proofs.Binary32.WholeNumbers

/-!
# Binary32 — the error of one rounding

A ratio that is not below the first binade is rounded to 24 binary digits, so the nearest magnitude
differs from it by one part in `2 ^ 24` at most.

* `unitsAt_nearestOrdinal_eq`: the nearest magnitude is a whole number of steps of the grid.
* `nearestOrdinal_error`: how far it is from the ratio.
* `nearestOrdinal_lt_of_lt`: where it is finite.
-/

namespace EmulatorSettings.Binary32

/-! ### A quotient rounded to a whole number -/

/-- A quotient rounded by `roundEven` is off by half at most. -/
theorem roundEven_error (num : Nat) {den : Nat} (h : 0 < den) :
    2 * (roundEven num den * den) ≤ 2 * num + den ∧
      2 * num ≤ 2 * (roundEven num den * den) + den := by
  have hsplit := Nat.div_add_mod num den
  have hrest := Nat.mod_lt num h
  unfold roundEven
  dsimp only
  rw [Nat.mul_comm den] at hsplit
  split
  · omega
  · split
    · rw [Nat.add_mul]
      omega
    · -- exactly between two whole numbers
      have heven : num / den % 2 * den = 0 ∨ num / den % 2 * den = den := by
        rcases Nat.mod_two_eq_zero_or_one (num / den) with hm | hm <;> simp [hm]
      rw [Nat.add_mul]
      omega

/-! ### Steps of the grid -/

variable {num den : Nat}

theorem gridAt_eq (num den : Nat) : gridAt num den = excessBits (unitsInOne * num / den) := rfl

/-- The number of steps to `num / den`, where that is not below the first `binade`, has 24 binary
digits. -/
theorem steps_bounds (h : binade ≤ unitsInOne * num / den) :
    binade ≤ roundEven (unitsInOne * num) (den * 2 ^ gridAt num den) ∧
      roundEven (unitsInOne * num) (den * 2 ^ gridAt num den) ≤ 2 * binade := by
  obtain ⟨hlo, hhi⟩ := div_excess_bounds h
  rw [← gridAt_eq, Nat.div_div_eq_div_mul] at hlo hhi
  rcases roundEven_eq (unitsInOne * num) (den * 2 ^ gridAt num den) with hr | hr
  · omega
  · omega

theorem nearestOrdinal_eq (num den : Nat) :
    nearestOrdinal num den =
      gridAt num den * binade + roundEven (unitsInOne * num) (den * 2 ^ gridAt num den) := by
  rw [nearestOrdinal, Nat.shiftLeft_eq]

/-- **The nearest magnitude** to `num / den` is a whole number of steps of the grid. -/
theorem unitsAt_nearestOrdinal_eq (h : binade ≤ unitsInOne * num / den) :
    unitsAt (nearestOrdinal num den) =
      roundEven (unitsInOne * num) (den * 2 ^ gridAt num den) * 2 ^ gridAt num den := by
  obtain ⟨hlo, hhi⟩ := steps_bounds h
  rw [nearestOrdinal_eq, unitsAt_of_steps _ hlo hhi]

/-- A step of the grid is one part in `2 ^ 23` of `num / den` at most. -/
theorem step_le (hden : 0 < den) (h : binade ≤ unitsInOne * num / den) :
    binade * (den * 2 ^ gridAt num den) ≤ unitsInOne * num := by
  obtain ⟨hlo, -⟩ := div_excess_bounds h
  rw [← gridAt_eq, Nat.div_div_eq_div_mul] at hlo
  exact (Nat.le_div_iff_mul_le (Nat.mul_pos hden (Nat.two_pow_pos _))).1 hlo

/-- **The error of one rounding** of `num / den` is one part in `2 ^ 24` of the ratio at most. -/
theorem nearestOrdinal_error (hden : 0 < den) (h : binade ≤ unitsInOne * num / den) :
    (2 ^ 24 - 1) * (unitsInOne * num) ≤ 2 ^ 24 * (unitsAt (nearestOrdinal num den) * den) ∧
      2 ^ 24 * (unitsAt (nearestOrdinal num den) * den) ≤
        (2 ^ 24 + 1) * (unitsInOne * num) := by
  have hstep := step_le hden h
  obtain ⟨hhi, hlo⟩ := roundEven_error (unitsInOne * num)
    (Nat.mul_pos hden (Nat.two_pow_pos (gridAt num den)))
  have hunits : unitsAt (nearestOrdinal num den) * den =
      roundEven (unitsInOne * num) (den * 2 ^ gridAt num den) * (den * 2 ^ gridAt num den) := by
    rw [unitsAt_nearestOrdinal_eq h]
    ring
  rw [hunits]
  unfold binade at hstep
  generalize roundEven (unitsInOne * num) (den * 2 ^ gridAt num den) *
    (den * 2 ^ gridAt num den) = rounded at hhi hlo ⊢
  generalize den * 2 ^ gridAt num den = step at hhi hlo hstep
  generalize unitsInOne * num = exact at hhi hlo hstep ⊢
  omega

/-- …and so it is where the ratio is given in `units`. -/
theorem nearestOrdinal_units_error {units : Nat} (h : binade ≤ units) :
    (2 ^ 24 - 1) * units ≤ 2 ^ 24 * unitsAt (nearestOrdinal units unitsInOne) ∧
      2 ^ 24 * unitsAt (nearestOrdinal units unitsInOne) ≤ (2 ^ 24 + 1) * units := by
  have hnormal : binade ≤ unitsInOne * units / unitsInOne := by
    rwa [Nat.mul_div_cancel_left _ unitsInOne_pos]
  obtain ⟨hlo, hhi⟩ := nearestOrdinal_error unitsInOne_pos hnormal
  generalize unitsAt (nearestOrdinal units unitsInOne) = nearest at hlo hhi ⊢
  rw [Nat.mul_comm nearest, Nat.mul_left_comm _ unitsInOne, Nat.mul_left_comm _ unitsInOne]
    at hlo hhi
  exact ⟨Nat.le_of_mul_le_mul_left hlo unitsInOne_pos,
    Nat.le_of_mul_le_mul_left hhi unitsInOne_pos⟩

/-- A ratio below `2 ^ 100` has a finite nearest magnitude. -/
theorem nearestOrdinal_lt_of_lt (hden : 0 < den) (h : binade ≤ unitsInOne * num / den)
    (hlt : num < 2 ^ 100 * den) : nearestOrdinal num den < 0x7F800000 := by
  obtain ⟨-, hhi⟩ := steps_bounds h
  have hquot : unitsInOne * num / den < 2 ^ 249 := by
    rw [Nat.div_lt_iff_lt_mul hden, unitsInOne_eq]
    calc 2 ^ 149 * num < 2 ^ 149 * (2 ^ 100 * den) :=
          Nat.mul_lt_mul_of_pos_left hlt (Nat.two_pow_pos 149)
      _ = 2 ^ 249 * den := by rw [← Nat.mul_assoc, ← Nat.pow_add]
  have hgrid : gridAt num den ≤ 225 := by
    have hlog := (Nat.log2_lt (ne_zero_of_binade_le h)).2 hquot
    unfold gridAt
    omega
  have hbinades : gridAt num den * binade ≤ 225 * binade := Nat.mul_le_mul_right _ hgrid
  rw [nearestOrdinal_eq]
  unfold binade at *
  omega

end EmulatorSettings.Binary32
