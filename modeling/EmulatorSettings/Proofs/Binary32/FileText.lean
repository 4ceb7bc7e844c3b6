import EmulatorSettings.Proofs.Binary32.Literal
import EmulatorSettings.Value.Basic

/-!
# Binary32 — the written text denotes the number

A finite number is written as digits around a point, after its sign.  These digits denote a
decimal whose nearest number is the one that was written: exactly for a whole number, by the
choice of the shortest digits for any other.

* `Decimal.exists_positional`: the positional layout denotes the decimal.
* `exists_fileText`: the written digits are nearest to the number they are written for.
-/

namespace EmulatorSettings.Binary32

open Text

/-! ### The layout -/

/-- **The positional layout** `d.positional` is digits around a point, and these have the value of
the decimal `d`; both sides are counted in units of `10 ^ (-scale)`. -/
theorem Decimal.exists_positional {d : Decimal} (hd : AllDigits d.digits) {scale e : Nat}
    (he : (e : Int) = scale + d.point - d.digits.length) :
    ∃ whole fraction, d.positional = whole ++ '.' :: fraction ∧ AllDigits whole ∧ whole ≠ [] ∧
      AllDigits fraction ∧
      ofDigits (whole ++ fraction) * tenTo scale =
        ofDigits d.digits * tenTo e * tenTo fraction.length := by
  unfold positional
  by_cases hlow : d.point ≤ 0
  · -- zeros between the point and the digits
    refine ⟨['0'], List.replicate (-d.point).toNat '0' ++ d.digits, if_pos hlow,
      allDigits_replicate_zero 1, List.cons_ne_nil _ _, (allDigits_replicate_zero _).append hd, ?_⟩
    have hscale : scale = e + ((-d.point).toNat + d.digits.length) := by omega
    rw [zero_eq_replicate, ofDigits_zeros_append,
      ofDigits_zeros_append, List.length_append, List.length_replicate, Nat.mul_assoc, ← tenTo_add,
      ← hscale]
  · rw [if_neg hlow]
    by_cases hmid : d.point < d.digits.length
    · -- the point among the digits
      rw [if_pos hmid]
      refine ⟨d.digits.take d.point.toNat, d.digits.drop d.point.toNat, rfl,
        hd.of_subset (List.take_subset _ _), ?_, hd.of_subset (List.drop_subset _ _), ?_⟩
      · intro hnil
        have hlen := congrArg List.length hnil
        rw [List.length_take, List.length_nil] at hlen
        omega
      · have hscale : scale = e + (d.digits.length - d.point.toNat) := by omega
        rw [List.take_append_drop, List.length_drop, Nat.mul_assoc, ← tenTo_add, ← hscale]
    · -- zeros between the digits and the point
      rw [if_neg hmid]
      refine ⟨d.digits ++ List.replicate (d.point.toNat - d.digits.length) '0', ['0'], rfl,
        hd.append (allDigits_replicate_zero _), ?_, allDigits_replicate_zero 1, ?_⟩
      · intro hnil
        have hlen := congrArg List.length hnil
        rw [List.length_append, List.length_replicate, List.length_nil] at hlen
        omega
      · have hscale : e = (d.point.toNat - d.digits.length) + scale := by omega
        rw [zero_eq_replicate, ofDigits_append_zeros,
          ofDigits_append_zeros, List.length_replicate, hscale, tenTo_add, Nat.mul_assoc,
          Nat.mul_assoc, Nat.mul_comm (tenTo 1), Nat.mul_assoc, Nat.mul_assoc]

/-! ### The shortest digits -/

/-- On the finest grid `decimalUnitsAt n` is the exact value, so it reads back as `n`. -/
theorem decimalUnitsAt_readsBack (n : Nat) : readsBack n 0 (decimalUnitsAt n) = true := by
  rw [readsBack, beq_iff_eq]
  have hunit : tenTo 149 = decimalUnitsInUnit * unitsInOne := by
    rw [unitsInOne_eq]
    exact Nat.mul_pow 5 2 149
  calc nearestOrdinal (tenTo 0 * decimalUnitsAt n) (tenTo 149)
      = nearestOrdinal (decimalUnitsInUnit * unitsAt n) (decimalUnitsInUnit * unitsInOne) := by
        rw [hunit, decimalUnitsAt, show tenTo 0 = 1 from rfl, Nat.one_mul]
    _ = nearestOrdinal (unitsAt n) unitsInOne :=
        nearestOrdinal_scale (Nat.pow_pos (by decide)) _ _
    _ = n := nearestOrdinal_unitsAt n

theorem allDigits_shortest (tie : Tie) (n : Nat) : AllDigits (shortest tie n).digits := by
  intro c hc
  have hmem := (List.dropWhile_sublist _).subset (List.mem_reverse.1 hc)
  exact isDigit_of_mem_natDigits (List.mem_reverse.1 hmem)

/-- **The shortest digits** are those of a number `c` of steps that `readsBack`, of some `grid`,
without the zeros at their end. -/
theorem exists_steps (tie : Tie) (n : Nat) :
    ∃ c grid zeros : Nat, readsBack n grid c = true ∧
      natDigits c = (shortest tie n).digits ++ List.replicate zeros '0' ∧
      (shortest tie n).point = (natDigits c).length + grid - 149 := by
  have hback := readsBack_shortestFrom tie n
    ((natDigits (decimalUnitsAt n)).length - 1) (decimalUnitsAt_readsBack n)
  unfold shortest
  dsimp only
  generalize shortestFrom tie n ((natDigits (decimalUnitsAt n)).length - 1) = found at hback ⊢
  obtain ⟨c, grid⟩ := found
  obtain ⟨zeros, hzeros⟩ := exists_append_zeros (natDigits c)
  exact ⟨c, grid, zeros, hback, hzeros, rfl⟩

/-- The value of the digits of `shortest tie n` reads back as `n`. -/
theorem exists_shortest (tie : Tie) (n : Nat) :
    ∃ c grid e : Nat, readsBack n grid c = true ∧
      (e : Int) = (149 : Nat) + (shortest tie n).point - (shortest tie n).digits.length ∧
      ofDigits (shortest tie n).digits * tenTo e = tenTo grid * c := by
  obtain ⟨c, grid, zeros, hback, hzeros, hpoint⟩ := exists_steps tie n
  refine ⟨c, grid, grid + zeros, hback, ?_, ?_⟩
  · have hlen := congrArg List.length hzeros
    rw [List.length_append, List.length_replicate] at hlen
    omega
  · have hval := congrArg ofDigits hzeros
    rw [ofDigits_natDigits, ofDigits_append_zeros] at hval
    rw [hval, Nat.add_comm, tenTo_add, ← Nat.mul_assoc, Nat.mul_comm]

/-- **The shortest digits around a point**, `whole` and `fraction`, are nearest to the magnitude
`n`. -/
theorem exists_positional_shortest (tie : Tie) (n : Nat) :
    ∃ whole fraction, (shortest tie n).positional = whole ++ '.' :: fraction ∧
      AllDigits whole ∧ whole ≠ [] ∧ AllDigits fraction ∧
      nearestOrdinal (ofDigits (whole ++ fraction)) (tenTo fraction.length) = n := by
  obtain ⟨c, grid, e, hback, he, hval⟩ := exists_shortest tie n
  obtain ⟨whole, fraction, htext, hw, hne, hf, hpos⟩ :=
    Decimal.exists_positional (allDigits_shortest tie n) he
  refine ⟨whole, fraction, htext, hw, hne, hf, ?_⟩
  rw [readsBack, beq_iff_eq] at hback
  refine Eq.trans ?_ hback
  apply nearestOrdinal_eq_of_cross (tenTo_pos _) (tenTo_pos _)
  rw [hpos, hval]

/-! ### The written text -/

/-- **The written text** `fileText` of a finite number is digits around a point, after its sign, and
the number is the one nearest to them. -/
theorem exists_fileText (s : Bool) (n : Fin 0x7F800000) :
    ∃ whole fraction, (finite s n).fileText = signText s ++ (whole ++ '.' :: fraction) ∧
      AllDigits whole ∧ whole ≠ [] ∧ AllDigits fraction ∧
      nearestOrdinal (ofDigits (whole ++ fraction)) (tenTo fraction.length) = n := by
  by_cases hwhole : unitsAt n % unitsInOne = 0
  · refine ⟨natDigits (unitsAt n / unitsInOne), ['0'], ?_, allDigits_natDigits _,
      natDigits_ne_nil _, allDigits_replicate_zero 1, ?_⟩
    · rw [fileText, if_pos hwhole]
    · rw [zero_eq_replicate, ofDigits_append_zeros,
        ofDigits_natDigits, List.length_replicate]
      refine Eq.trans ?_ (nearestOrdinal_unitsAt n)
      apply nearestOrdinal_eq_of_cross (tenTo_pos 1) unitsInOne_pos
      have hdiv : unitsAt n = unitsAt n / unitsInOne * unitsInOne :=
        (Nat.div_mul_cancel (Nat.dvd_of_mod_eq_zero hwhole)).symm
      conv_rhs => rw [hdiv]
      rw [Nat.mul_assoc, Nat.mul_assoc, Nat.mul_comm (tenTo 1)]
  · obtain ⟨whole, fraction, htext, hparts⟩ := exists_positional_shortest .up n
    refine ⟨whole, fraction, ?_, hparts⟩
    rw [fileText, if_neg hwhole, htext]

/-- **Reading digits around a point** by `Literal.ofChars?` gives the number that they are nearest
to. -/
theorem ofChars?_of_nearest (s : Bool) {n : Fin 0x7F800000} {whole fraction : List Char}
    (hw : AllDigits whole) (hne : whole ≠ []) (hf : AllDigits fraction)
    (hnear : nearestOrdinal (ofDigits (whole ++ fraction)) (tenTo fraction.length) = n) :
    ∃ l, Literal.ofChars? (signText s ++ (whole ++ '.' :: fraction)) = some l ∧
      l.value = finite s n := by
  refine ⟨_, Literal.ofChars?_point s hw hne hf, ?_⟩
  rw [Literal.value_point s hw hf, ofRatio, dif_pos (by rw [hnear]; exact n.isLt)]
  exact congrArg (finite s) (Fin.ext hnear)

/-- **Reading a written number** gives the same number: `finite s n`, with its sign and its ordinal.
-/
theorem ofChars?_fileText (s : Bool) (n : Fin 0x7F800000) :
    ∃ l, Literal.ofChars? (finite s n).fileText = some l ∧ l.value = finite s n := by
  obtain ⟨whole, fraction, htext, hw, hne, hf, hnear⟩ := exists_fileText s n
  rw [htext]
  exact ofChars?_of_nearest s hw hne hf hnear

/-- The characters of `(finite s n).fileText` are the sign `-`, digits and a point. -/
theorem mem_fileText {s : Bool} {n : Fin 0x7F800000} {c : Char} (h : c ∈ (finite s n).fileText) :
    c.isDigit = true ∨ c = '-' ∨ c = '.' := by
  obtain ⟨whole, fraction, htext, hw, -, hf, -⟩ := exists_fileText s n
  rw [htext] at h
  rcases List.mem_append.1 h with h | h
  · cases s with
    | false => cases h
    | true => exact .inr (.inl (List.mem_singleton.1 h))
  · rcases List.mem_append.1 h with h | h
    · exact .inl (hw c h)
    · rcases List.mem_cons.1 h with rfl | h
      · exact .inr (.inr rfl)
      · exact .inl (hf c h)

end EmulatorSettings.Binary32
