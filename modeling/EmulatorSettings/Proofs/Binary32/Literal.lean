import EmulatorSettings.Binary32.Decimal
import EmulatorSettings.Proofs.Binary32.Nearest
import EmulatorSettings.Proofs.Text.Digits

/-!
# Binary32 — what a decimal literal denotes

* `value_eq_ofRatio`: a literal denotes the number nearest to its digits times its power of ten.
  The bounds at which `Literal.value` stops computing change nothing.
* `ofChars?_parts`: digits, a point after the first of them and a power of ten read as one literal.
-/

namespace EmulatorSettings.Binary32.Literal

open Text

/-! ### The bounds change nothing -/

/-- At most `10 ^ (-46)`: such a literal is a zero of its sign, as `Literal.value` says without
rounding. -/
theorem ofRatio_of_top_le {negative : Bool} {cs : List Char} {e : Int} (h : AllDigits cs)
    (htop : cs.length + e ≤ -46) :
    ofRatio negative (ofDigits cs * tenTo e.toNat) (tenTo (-e).toNat) = signedZero negative := by
  have hzero : nearestOrdinal (ofDigits cs * tenTo e.toNat) (tenTo (-e).toNat) = 0 := by
    apply nearestOrdinal_eq_zero
    have he : e.toNat = 0 := by omega
    calc ofDigits cs * tenTo e.toNat * 10 ^ 46 = ofDigits cs * 10 ^ 46 := by
          rw [he]; exact congrArg (· * 10 ^ 46) (Nat.mul_one _)
      _ < tenTo cs.length * 10 ^ 46 := Nat.mul_lt_mul_of_pos_right (ofDigits_lt h) (by decide)
      _ = tenTo (cs.length + 46) := (tenTo_add _ _).symm
      _ ≤ tenTo (-e).toNat := Nat.pow_le_pow_right (by decide) (by omega)
  simp only [ofRatio, hzero]
  rfl

/-- At least `10 ^ 39`: such a literal overflows, as `Literal.value` says without rounding. -/
theorem ofRatio_of_le_top {negative : Bool} {c : Char} {cs : List Char} {e : Int}
    (hc : c.isDigit = true) (hne : c ≠ '0') (htop : 40 ≤ (c :: cs).length + e) :
    ofRatio negative (ofDigits (c :: cs) * tenTo e.toNat) (tenTo (-e).toNat) =
      infinity negative := by
  have hlarge : 0x7F800000 ≤
      nearestOrdinal (ofDigits (c :: cs) * tenTo e.toNat) (tenTo (-e).toNat) := by
    apply le_nearestOrdinal (tenTo_pos _)
    rw [List.length_cons] at htop
    calc tenTo (-e).toNat * 10 ^ 39 = tenTo ((-e).toNat + 39) := (tenTo_add _ _).symm
      _ ≤ tenTo (cs.length + e.toNat) := Nat.pow_le_pow_right (by decide) (by omega)
      _ = tenTo cs.length * tenTo e.toNat := tenTo_add _ _
      _ ≤ ofDigits (c :: cs) * tenTo e.toNat := Nat.mul_le_mul_right _ (le_ofDigits hc hne)
  rw [ofRatio, dif_neg (Nat.not_lt.2 hlarge)]

/-- **What a literal denotes.** The value of `l` is `ofRatio` of its digits times its power of ten,
without the two exceptions that spare the computation. -/
theorem value_eq_ofRatio {l : Literal} (h : AllDigits l.digits) :
    l.value = ofRatio l.negative (ofDigits l.digits * tenTo l.exponent.toNat)
      (tenTo (-l.exponent).toNat) := by
  rw [← ofDigits_dropZeros l.digits]
  have hs : AllDigits (l.digits.dropWhile (· = '0')) :=
    h.of_subset (List.dropWhile_sublist _).subset
  have hhead := List.head?_dropWhile_not (fun c : Char => decide (c = '0')) l.digits
  unfold value
  dsimp only
  generalize l.digits.dropWhile (· = '0') = significant at hs hhead ⊢
  split
  · next hsmall =>
    rcases hsmall with rfl | hsmall
    · rw [ofDigits_nil, Nat.zero_mul, ofRatio_zero _ _ (tenTo_pos _)]
    · exact (ofRatio_of_top_le hs hsmall).symm
  · next hbig =>
    split
    · next hlarge =>
      cases significant with
      | nil => exact absurd (Or.inl rfl) hbig
      | cons c r =>
        -- no zero leads, so the number of digits says how large the literal is
        have hne : c ≠ '0' := by simpa using hhead
        exact (ofRatio_of_le_top (hs c List.mem_cons_self) hne hlarge).symm
    · split
      · next hpos =>
        have he : (-l.exponent).toNat = 0 := by omega
        rw [he]; rfl
      · next hneg =>
        have he : l.exponent.toNat = 0 := by omega
        rw [he]
        exact congrArg (ofRatio _ · _) (Nat.mul_one _).symm

/-! ### Digits around a point -/

theorem takeSign_signText (negative : Bool) {c : Char} {cs : List Char} (h : c.isDigit = true) :
    takeSign (signText negative ++ c :: cs) = (negative, c :: cs) := by
  have hminus : c ≠ '-' := fun e => by subst e; cases h
  have hplus : c ≠ '+' := fun e => by subst e; cases h
  cases negative with
  | true => rfl
  | false =>
    rw [signText, if_neg (by decide), List.nil_append]
    unfold takeSign
    split
    · next heq => exact absurd (List.cons.inj heq).1 hminus
    · next heq => exact absurd (List.cons.inj heq).1 hplus
    · rfl

/-- **The parts of a literal**: digits `whole`, those after a point, and a power of ten `e`. -/
theorem ofChars?_parts (negative : Bool) {whole tail fraction rest : List Char} {e : Int}
    (hw : AllDigits whole) (hne : whole ≠ []) (htail : ∀ c ∈ tail.head?, c.isDigit = false)
    (hfraction : takeFraction tail = (fraction, rest)) (hrest : readExponent rest = some e) :
    ofChars? (signText negative ++ (whole ++ tail)) =
      some ⟨negative, whole ++ fraction, e - fraction.length⟩ := by
  have htake := takeWhile_append_of_head hw htail
  have hdrop := dropWhile_append_of_head hw htail
  obtain ⟨c, r, rfl⟩ := List.exists_cons_of_ne_nil hne
  have hsign : takeSign (signText negative ++ (c :: r ++ tail)) = (negative, c :: r ++ tail) :=
    takeSign_signText negative (hw c List.mem_cons_self)
  unfold ofChars?
  simp only [hsign, htake, hdrop, hfraction]
  rw [if_neg (List.append_ne_nil_of_left_ne_nil hne _), hrest, Option.map_some]

/-- **Digits around a point** are one literal: all the digits, and a power of ten that counts those
of `fraction`. -/
theorem ofChars?_point (negative : Bool) {whole fraction : List Char} (hw : AllDigits whole)
    (hne : whole ≠ []) (hf : AllDigits fraction) :
    ofChars? (signText negative ++ (whole ++ '.' :: fraction)) =
      some ⟨negative, whole ++ fraction, -fraction.length⟩ := by
  have hfraction : takeFraction ('.' :: fraction) = (fraction, []) := by
    rw [takeFraction, List.takeWhile_eq_self_iff.2 hf, List.dropWhile_eq_nil_iff.2 hf]
  rw [ofChars?_parts negative hw hne (by simp) hfraction rfl, Int.zero_sub]

/-- The number that digits around a point denote: `whole ++ fraction` over a power of ten. -/
theorem value_point (negative : Bool) {whole fraction : List Char} (hw : AllDigits whole)
    (hf : AllDigits fraction) :
    (Literal.mk negative (whole ++ fraction) (-fraction.length)).value =
      ofRatio negative (ofDigits (whole ++ fraction)) (tenTo fraction.length) := by
  rw [value_eq_ofRatio (hw.append hf)]
  have h₁ : (-(fraction.length : Int)).toNat = 0 := by omega
  have h₂ : (-(-(fraction.length : Int))).toNat = fraction.length := by omega
  simp only [h₁, h₂]
  exact congrArg (ofRatio _ · _) (Nat.mul_one _)

end EmulatorSettings.Binary32.Literal
