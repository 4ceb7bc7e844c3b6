import EmulatorSettings.Proofs.Binary32.RoundingError

/-!
# Binary32 — whole numbers, scaled and back

A whole number becomes a binary number, perhaps a hundredth of it, and later the nearest whole
number of that, or of a hundred times it.

* `exists_ofInt`: a whole number keeps its first 24 binary digits.
* `toInt_toInt32_ofInt`: which whole number comes back, unscaled.
* `toInt32_ofInt_eq_iff`: the ones that come back as they were.
* `exists_toInt32_hundredth`: every one up to `2 ^ 21` comes back from its hundredth.
-/

namespace EmulatorSettings.Binary32

/-! ### Whole numbers -/

theorem excessBits_of_lt {n : Nat} (h : n < 2 ^ 24) : excessBits n = 0 := by
  have hlog : n.log2 < 24 := by
    by_cases hn : n = 0
    · subst hn
      decide
    · exact (Nat.log2_lt hn).2 h
  unfold excessBits
  omega

/-- Up to 24 binary digits nothing is rounded by `roundWhole`. -/
theorem roundWhole_of_lt {n : Nat} (h : n < 2 ^ 24) : roundWhole n = n :=
  roundWhole_eq_iff.2 (by rw [excessBits_of_lt h]; exact Nat.one_dvd n)

/-- No whole number but zero is below the first `binade`. -/
theorem binade_le_whole {n : Nat} (h : n ≠ 0) : binade ≤ unitsInOne * n / 1 := by
  have hone : unitsInOne * 1 ≤ unitsInOne * n := Nat.mul_le_mul_left _ (Nat.one_le_iff_ne_zero.2 h)
  rw [Nat.div_one]
  rw [unitsInOne_eq] at hone ⊢
  unfold binade
  omega

/-- **The nearest magnitude** to any whole number `n` is `roundWhole n`, the number rounded to 24
binary digits. -/
theorem unitsAt_nearestOrdinal_whole (n : Nat) :
    unitsAt (nearestOrdinal n 1) = roundWhole n * unitsInOne := by
  by_cases hlarge : binade ≤ n
  · exact unitsAt_nearestOrdinal hlarge
  · have hsmall : n < 2 ^ 23 := Nat.lt_of_not_le hlarge
    rw [roundWhole_of_lt (by omega)]
    by_cases hn : n = 0
    · subst hn
      decide +kernel
    · -- the grid is finer than the whole numbers
      have hgrid : gridAt n 1 ≤ 149 := by
        have hlt : unitsInOne * n / 1 < 2 ^ 172 := by
          rw [Nat.div_one, unitsInOne_eq]
          exact Nat.mul_lt_mul_of_pos_left hsmall (Nat.two_pow_pos 149)
        have hlog := (Nat.log2_lt (ne_zero_of_binade_le (binade_le_whole hn))).2 hlt
        unfold gridAt
        omega
      have hdvd : 2 ^ gridAt n 1 ∣ unitsInOne * n := by
        rw [unitsInOne_eq]
        exact Dvd.dvd.mul_right (Nat.pow_dvd_pow 2 hgrid) n
      rw [unitsAt_nearestOrdinal_eq (binade_le_whole hn), Nat.one_mul,
        (roundEven_mul_eq_iff (Nat.two_pow_pos _)).2 hdvd, Nat.mul_comm]

/-- **A whole number** `i` as a binary number keeps its sign, and its first 24 binary digits. -/
theorem exists_ofInt {i : Int} (h : i.natAbs < 2 ^ 100) :
    ∃ n, ofInt i = finite (i < 0) n ∧ unitsAt n = roundWhole i.natAbs * unitsInOne := by
  have hfin : nearestOrdinal i.natAbs 1 < 0x7F800000 := by
    by_cases hi : i.natAbs = 0
    · rw [hi]
      decide +kernel
    · exact nearestOrdinal_lt_of_lt Nat.one_pos (binade_le_whole hi) (by omega)
  exact ⟨⟨_, hfin⟩, dif_pos hfin, unitsAt_nearestOrdinal_whole i.natAbs⟩

/-! ### The nearest whole number -/

/-- The whole number `k` is what `units` are rounded to if they lie between its two halves, the
lower one included. -/
theorem roundUnits_eq {units k : Nat} (hlo : 2 * (k * unitsInOne) ≤ 2 * units + unitsInOne)
    (hhi : 2 * units < 2 * (k * unitsInOne) + unitsInOne) : roundUnits units = k := by
  unfold roundUnits
  refine Nat.div_eq_of_lt_le ?_ ?_
  · rw [Nat.mul_left_comm]
    exact hlo
  · rw [Nat.mul_left_comm, Nat.add_mul]
    omega

theorem roundUnits_whole (k : Nat) : roundUnits (k * unitsInOne) = k :=
  roundUnits_eq (by omega) (by have := unitsInOne_pos; omega)

/-- A number times one is the number itself: `scale 1 1` rounds nothing. -/
theorem scale_one (s : Bool) (n : Fin 0x7F800000) : (finite s n).scale 1 1 = finite s n := by
  have hn : nearestOrdinal (unitsAt n) unitsInOne < 0x7F800000 := by
    rw [nearestOrdinal_unitsAt]
    exact n.isLt
  rw [scale, Nat.mul_one, Nat.mul_one, ofRatio, dif_pos hn]
  exact congrArg (finite s) (Fin.ext (nearestOrdinal_unitsAt n))

/-- The nearest whole number `k` to a magnitude, with its sign and as far as 32 bits go. -/
theorem toInt_toInt32 {s : Bool} {n : Fin 0x7F800000} {k : Nat}
    (h : roundUnits (unitsAt n) = k) :
    (finite s n).toInt32.toInt =
      if s then -min (k : Int) 0x80000000 else min (k : Int) 0x7FFFFFFF := by
  cases s with
  | true =>
      rw [toInt32, h, if_pos rfl]
      have hlo : (-2 ^ 31 : Int) ≤ -((min k 0x80000000 : Nat) : Int) := by omega
      rw [Int32.toInt_ofInt_of_le hlo (by omega)]
      omega
  | false =>
      rw [toInt32, h, if_neg Bool.false_ne_true]
      have hlo : (-2 ^ 31 : Int) ≤ min (k : Int) (0x7FFFFFFF : Nat) := by omega
      rw [Int32.toInt_ofInt_of_le hlo (by omega)]
      omega

/-- **Which whole number comes back** from `ofInt i`, unscaled: `roundWhole`, as far as 32 bits go.
-/
theorem toInt_toInt32_ofInt {i : Int} (h : i.natAbs < 2 ^ 100) :
    ((ofInt i).scale 1 1).toInt32.toInt =
      if i < 0 then -min (roundWhole i.natAbs : Int) 0x80000000
      else min (roundWhole i.natAbs : Int) 0x7FFFFFFF := by
  obtain ⟨n, hn, hunits⟩ := exists_ofInt h
  have hround : roundUnits (unitsAt n) = roundWhole i.natAbs := by rw [hunits, roundUnits_whole]
  rw [hn, scale_one, toInt_toInt32 hround]
  simp only [decide_eq_true_eq]

/-- **The whole numbers that come back** from `ofInt` as they were: those with at most 24 binary
digits before the zeros at the end, and `Int32.maxValue`, which is rounded up and cut off at itself.
-/
theorem toInt32_ofInt_eq_iff {i : Int32} :
    ((ofInt i.toInt).scale 1 1).toInt32 = i ↔
      2 ^ (i.toInt.natAbs.log2 - 23) ∣ i.toInt.natAbs ∨ i = Int32.maxValue := by
  have hlo := Int32.le_toInt i
  have hhi := Int32.toInt_lt i
  have hround := @roundWhole_eq_iff i.toInt.natAbs
  unfold excessBits at hround
  rw [← hround, ← Int32.toInt_inj, ← Int32.toInt_inj, toInt_toInt32_ofInt (by omega),
    Int32.toInt_maxValue]
  generalize i.toInt = i at hlo hhi ⊢
  have hleast : roundWhole (2 ^ 31) = 2 ^ 31 := by decide +kernel
  have hgreatest : roundWhole (2 ^ 31 - 1) = 2 ^ 31 := by decide +kernel
  by_cases hneg : i < 0
  · rw [if_pos hneg]
    by_cases hend : i.natAbs = 2 ^ 31
    · rw [hend, hleast]
      omega
    · omega
  · rw [if_neg hneg]
    by_cases hend : i.natAbs = 2 ^ 31 - 1
    · rw [hend, hgreatest]
      omega
    · omega

/-! ### Hundredths -/

/-- **A hundredth of a whole number** `a` up to `2 ^ 21`, times a hundred: both are rounded, and the
nearest whole number is `a` again. -/
theorem exists_hundredth {a : Nat} (hne : a ≠ 0) (hle : a ≤ 2 ^ 21) (negative : Bool) :
    ∃ n n' : Fin 0x7F800000, ofRatio negative a 100 = finite negative n ∧
      ofRatio negative (unitsAt n * 100) unitsInOne = finite negative n' ∧
      roundUnits (unitsAt n') = a := by
  have hunits : 2 ^ 149 * a ≤ 2 ^ 149 * 2 ^ 21 := Nat.mul_le_mul_left _ hle
  have hone : 2 ^ 149 * 1 ≤ 2 ^ 149 * a := Nat.mul_le_mul_left _ (Nat.one_le_iff_ne_zero.2 hne)
  have hnormal : binade ≤ unitsInOne * a / 100 := by
    rw [unitsInOne_eq]
    unfold binade
    omega
  -- the hundredth
  have hfin := nearestOrdinal_lt_of_lt (by decide) hnormal (by omega)
  obtain ⟨hlo, hhi⟩ := nearestOrdinal_error (by decide) hnormal
  refine ⟨⟨_, hfin⟩, ?_⟩
  rw [ofRatio, dif_pos hfin]
  dsimp only
  generalize unitsAt (nearestOrdinal a 100) = y at hlo hhi ⊢
  -- a hundred times it, in units
  have hlarge : binade ≤ y * 100 ∧ y * 100 < 2 ^ 100 * unitsInOne := by
    rw [unitsInOne_eq] at hlo hhi ⊢
    unfold binade
    omega
  have hfin' : nearestOrdinal (y * 100) unitsInOne < 0x7F800000 := by
    refine nearestOrdinal_lt_of_lt unitsInOne_pos ?_ hlarge.2
    rw [Nat.mul_div_cancel_left _ unitsInOne_pos]
    exact hlarge.1
  obtain ⟨hlo', hhi'⟩ := nearestOrdinal_units_error hlarge.1
  refine ⟨⟨_, hfin'⟩, rfl, dif_pos hfin', ?_⟩
  dsimp only
  generalize unitsAt (nearestOrdinal (y * 100) unitsInOne) = z at hlo' hhi' ⊢
  -- both errors together are less than half a unit in the last place of the whole number
  rw [unitsInOne_eq] at hlo hhi
  refine roundUnits_eq ?_ ?_
  · rw [unitsInOne_eq]
    omega
  · rw [unitsInOne_eq]
    omega

/-- **A whole number comes back from its hundredth**, a finite number, if it is `2 ^ 21` at most. -/
theorem exists_toInt32_hundredth {i : Int32} (h : i.toInt.natAbs ≤ 2 ^ 21) :
    ∃ n, (ofInt i.toInt).scale 1 100 = finite (i.toInt < 0) n ∧
      ((finite (i.toInt < 0) n).scale 100 1).toInt32 = i := by
  by_cases hzero : i = 0
  · subst hzero
    exact ⟨0, by decide +kernel, by decide +kernel⟩
  · have hne : i.toInt.natAbs ≠ 0 := fun h0 =>
      hzero (Int32.toInt_inj.1 (Int.natAbs_eq_zero.1 h0))
    obtain ⟨n₀, hn₀, hunits⟩ := exists_ofInt (i := i.toInt) (by omega)
    obtain ⟨n, n', hhundredth, hback, hround⟩ := exists_hundredth hne h (i.toInt < 0)
    refine ⟨n, ?_, ?_⟩
    · rw [hn₀, scale, hunits, roundWhole_of_lt (by omega), ← hhundredth]
      refine ofRatio_eq_of_cross _ (Nat.mul_pos unitsInOne_pos (by decide)) (by decide) ?_
      ring
    · rw [scale, Nat.mul_one, hback, ← Int32.toInt_inj, toInt_toInt32 hround]
      simp only [decide_eq_true_eq]
      split
      · omega
      · omega

end EmulatorSettings.Binary32
