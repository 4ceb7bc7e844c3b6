import EmulatorSettings.Proofs.Binary32.FileText

/-!
# Binary32 — large whole numbers

From `2 ^ 23` on every magnitude is a whole number, and a whole number is rounded to 24 binary
digits.

* `unitsAt_nearestOrdinal`: the nearest magnitude is the number rounded to 24 binary digits.
* `roundWhole_eq_iff`: rounding keeps a number exactly if its last binary digits are zeros.
* `nearestOrdinal_lt_iff`: rounding overflows from `2 ^ 128 - 2 ^ 103` on.
* `fileText_ofInt`: the number nearest to a large whole number is written as a whole number.
-/

namespace EmulatorSettings.Binary32

/-- The number of binary digits of `n` after the first 24. -/
def excessBits (n : Nat) : Nat :=
  n.log2 - 23

/-- The whole number `n` rounded to 24 binary digits, a half to the even neighbour. -/
def roundWhole (n : Nat) : Nat :=
  roundEven n (2 ^ excessBits n) * 2 ^ excessBits n

/-! ### Rounding to a power of two -/

theorem roundEven_eq (num den : Nat) :
    roundEven num den = num / den ∨ roundEven num den = num / den + 1 := by
  unfold roundEven
  dsimp only
  split
  · exact .inl rfl
  · split
    · exact .inr rfl
    · rcases Nat.mod_two_eq_zero_or_one (num / den) with h | h
      · exact .inl (by rw [h, Nat.add_zero])
      · exact .inr (by rw [h])

/-- A number is kept by `roundEven` exactly if it lies on the grid. -/
theorem roundEven_mul_eq_iff {num den : Nat} (hden : 0 < den) :
    roundEven num den * den = num ↔ den ∣ num := by
  constructor
  · intro h
    exact ⟨roundEven num den, by rw [Nat.mul_comm, h]⟩
  · rintro ⟨k, rfl⟩
    rw [Nat.mul_comm den, roundEven_mul k hden]

/-- A number is kept by `roundWhole` exactly if its digits after the first 24 are zeros. -/
theorem roundWhole_eq_iff {n : Nat} : roundWhole n = n ↔ 2 ^ excessBits n ∣ n :=
  roundEven_mul_eq_iff (Nat.two_pow_pos _)

variable {n : Nat}

theorem ne_zero_of_binade_le (h : binade ≤ n) : n ≠ 0 := by
  unfold binade at h
  omega

theorem log2_of_binade_le (h : binade ≤ n) : n.log2 = 23 + excessBits n := by
  have hlog : 23 ≤ n.log2 := (Nat.le_log2 (ne_zero_of_binade_le h)).2 h
  unfold excessBits
  omega

/-- The first 24 binary digits of `n`, as a number. -/
theorem div_excess_bounds (h : binade ≤ n) :
    binade ≤ n / 2 ^ excessBits n ∧ n / 2 ^ excessBits n < 2 * binade := by
  have hpos := Nat.two_pow_pos (excessBits n)
  have hlo := Nat.log2_self_le (ne_zero_of_binade_le h)
  have hhi := @Nat.lt_log2_self n
  rw [log2_of_binade_le h] at hlo hhi
  constructor
  · rw [Nat.le_div_iff_mul_le hpos]
    rwa [Nat.pow_add] at hlo
  · rw [Nat.div_lt_iff_lt_mul hpos]
    rwa [Nat.add_right_comm, Nat.pow_add] at hhi

theorem roundEven_excess_bounds (h : binade ≤ n) :
    binade ≤ roundEven n (2 ^ excessBits n) ∧ roundEven n (2 ^ excessBits n) ≤ 2 * binade := by
  obtain ⟨hlo, hhi⟩ := div_excess_bounds h
  rcases roundEven_eq n (2 ^ excessBits n) with hr | hr
  · omega
  · omega

/-! ### The nearest magnitude -/

/-- The grid around a whole number `n` has the spacing of the digits that `excessBits n` counts. -/
theorem gridAt_whole (h : binade ≤ n) : gridAt n 1 = 149 + excessBits n := by
  have hne : unitsInOne * n ≠ 0 := Nat.mul_ne_zero unitsInOne_pos.ne' (ne_zero_of_binade_le h)
  have hlog : (unitsInOne * n).log2 = 149 + n.log2 := by
    rw [Nat.log2_eq_iff hne, unitsInOne_eq, Nat.add_assoc, Nat.pow_add, Nat.pow_add]
    exact ⟨Nat.mul_le_mul_left _ (Nat.log2_self_le (ne_zero_of_binade_le h)),
      Nat.mul_lt_mul_of_pos_left Nat.lt_log2_self (Nat.two_pow_pos 149)⟩
  rw [gridAt, Nat.div_one, hlog, log2_of_binade_le h]
  omega

theorem nearestOrdinal_whole (h : binade ≤ n) :
    nearestOrdinal n 1 =
      (149 + excessBits n) * binade + roundEven n (2 ^ excessBits n) := by
  have hden : 1 <<< (149 + excessBits n) = unitsInOne * 2 ^ excessBits n := by
    rw [Nat.shiftLeft_eq, Nat.one_mul, Nat.pow_add, unitsInOne_eq]
  unfold nearestOrdinal
  dsimp only
  rw [gridAt_whole h, hden, roundEven_scale unitsInOne_pos]

/-- An ordinal counts the binades before it, `grid`, and the `steps` in its own; the last step of a
binade is the first magnitude of the next. -/
theorem unitsAt_of_steps (grid : Nat) {steps : Nat} (hlo : binade ≤ steps)
    (hhi : steps ≤ 2 * binade) : unitsAt (grid * binade + steps) = steps * 2 ^ grid := by
  have hb : 0 < binade := by decide
  have hnot : ¬ grid * binade + steps < binade := by
    have := Nat.zero_le (grid * binade)
    omega
  rw [unitsAt, if_neg hnot, Nat.shiftLeft_eq]
  rcases Nat.lt_or_eq_of_le hhi with hlt | rfl
  · obtain ⟨r, rfl⟩ := Nat.exists_eq_add_of_le hlo
    have hsum : grid * binade + (binade + r) = r + binade * (grid + 1) := by ring
    have hr : r < binade := by omega
    rw [hsum, Nat.add_mul_mod_self_left, Nat.add_mul_div_left _ _ hb, Nat.mod_eq_of_lt hr,
      Nat.div_eq_of_lt hr, Nat.zero_add, Nat.add_sub_cancel]
  · have hsum : grid * binade + 2 * binade = binade * (grid + 2) := by ring
    rw [hsum, Nat.mul_mod_right, Nat.mul_div_cancel_left _ hb, Nat.add_zero]
    change binade * 2 ^ (grid + 1) = 2 * binade * 2 ^ grid
    rw [Nat.pow_succ]
    ring

/-- **The nearest magnitude** to a large whole number `n` is `roundWhole n`. -/
theorem unitsAt_nearestOrdinal (h : binade ≤ n) :
    unitsAt (nearestOrdinal n 1) = roundWhole n * unitsInOne := by
  obtain ⟨hlo, hhi⟩ := roundEven_excess_bounds h
  rw [nearestOrdinal_whole h, unitsAt_of_steps _ hlo hhi, roundWhole, unitsInOne_eq,
    Nat.pow_add, Nat.mul_assoc, Nat.mul_comm (2 ^ 149)]

/-- **Overflow.** A number in the upper half of the last step before `2 ^ 128` rounds past the
finite ordinals. -/
theorem nearestOrdinal_lt_iff (h : binade ≤ n) :
    nearestOrdinal n 1 < 0x7F800000 ↔ n < 2 ^ 128 - 2 ^ 103 := by
  obtain ⟨hlo, hhi⟩ := roundEven_excess_bounds h
  have hloLog := Nat.log2_self_le (ne_zero_of_binade_le h)
  have hhiLog := @Nat.lt_log2_self n
  rw [log2_of_binade_le h] at hloLog hhiLog
  rw [nearestOrdinal_whole h]
  rcases Nat.lt_trichotomy (excessBits n) 104 with hlt | heq | hgt
  · have hpow : 2 ^ (23 + excessBits n + 1) ≤ 2 ^ 127 :=
      Nat.pow_le_pow_right (by decide) (by omega)
    refine iff_of_true ?_ ?_
    · have hmul : (149 + excessBits n) * binade ≤ 252 * binade :=
        Nat.mul_le_mul_right _ (by omega)
      unfold binade at *
      omega
    · omega
  · -- the last binade: the number of steps is 2 ^ 24 exactly from the middle of the last one on
    rw [heq] at hlo hhi hloLog hhiLog ⊢
    unfold roundEven binade at *
    dsimp only at *
    split at hhi
    · next hrest =>
      rw [if_pos hrest]
      omega
    · next hrest =>
      rw [if_neg hrest]
      split at hhi
      · next hrest' =>
        rw [if_pos hrest']
        omega
      · next hrest' =>
        rw [if_neg hrest']
        omega
  · have hpow : 2 ^ 128 ≤ 2 ^ (23 + excessBits n) := Nat.pow_le_pow_right (by decide) (by omega)
    refine iff_of_false ?_ ?_
    · have hmul : 254 * binade ≤ (149 + excessBits n) * binade :=
        Nat.mul_le_mul_right _ (by omega)
      unfold binade at *
      omega
    · omega

/-! ### The written text -/

/-- A large whole number `i` has a nearest finite number exactly below the overflow. -/
theorem isFinite_ofInt_iff {i : Int} (h : binade ≤ i.natAbs) :
    (ofInt i).isFinite = true ↔ i.natAbs < 2 ^ 128 - 2 ^ 103 := by
  rw [ofInt, ofRatio_isFinite_iff, nearestOrdinal_lt_iff h]

/-- **The number nearest to a large whole number** `i` is written as `roundWhole` of it, after its
sign and with `.0` after it. -/
theorem fileText_ofInt {i : Int} (h : binade ≤ i.natAbs) (hfin : i.natAbs < 2 ^ 128 - 2 ^ 103) :
    (ofInt i).fileText =
      signText (i < 0) ++ (Text.natDigits (roundWhole i.natAbs) ++ ['.', '0']) := by
  have hord := (nearestOrdinal_lt_iff h).2 hfin
  rw [ofInt, ofRatio, dif_pos hord, fileText]
  dsimp only
  rw [unitsAt_nearestOrdinal h, Nat.mul_mod_left, if_pos rfl,
    Nat.mul_div_cancel _ unitsInOne_pos]

end EmulatorSettings.Binary32
