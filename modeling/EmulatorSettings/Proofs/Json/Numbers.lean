import EmulatorSettings.Proofs.Json.Grammar
import EmulatorSettings.Proofs.Value.RoundTrip

/-!
# JSON documents — the numbers that are written

A document has numbers in another spelling than a settings file: the even one of two equally near
decimals, and a power of ten where the point is far away.

* `isNumber_intDigits`, `writes_jsonText`: what is written for a number is the token of one.
* `Value.ofText_jsonText`: read as a value, it is the number that it was written for.
-/

namespace EmulatorSettings

open Text (AllDigits natDigits ofDigits tenTo)

/-! ### Tokens -/

namespace Json

theorem whole_natDigits (n : Nat) : Whole (natDigits n) where
  all := Text.allDigits_natDigits n
  ne_nil := Text.natDigits_ne_nil n
  no_zero := Text.natDigits_of_head?

theorem whole_cons {c : Char} {cs : List Char} (h : AllDigits (c :: cs)) (hc : c ≠ '0') :
    Whole (c :: cs) where
  all := h
  ne_nil := List.cons_ne_nil c cs
  no_zero := fun hzero => absurd (Option.some.inj hzero) hc

theorem whole_singleton {c : Char} (h : c.isDigit = true) : Whole [c] where
  all := List.forall_mem_singleton.2 h
  ne_nil := List.cons_ne_nil c []
  no_zero := fun hzero => congrArg ([·]) (Option.some.inj hzero)

theorem isNumber_signText (negative : Bool) {whole fraction exponent : List Char}
    (hw : Whole whole) (hf : Fraction fraction) (he : Exponent exponent) :
    IsNumber (Binary32.signText negative ++ (whole ++ (fraction ++ exponent))) := by
  refine ⟨_, whole, fraction, exponent, rfl, ?_, hw, hf, he⟩
  cases negative <;> decide

/-- **A whole number `i`**, as `Text.intDigits` writes it, is the token of a number. -/
theorem isNumber_intDigits (i : Int) : IsNumber (Text.intDigits i) := by
  have hdigits : ∀ (negative : Bool) (n : Nat),
      IsNumber (Binary32.signText negative ++ natDigits n) := fun negative n => by
    have h := isNumber_signText negative (whole_natDigits n) (.inl rfl) (.inl rfl)
    rwa [List.append_nil, List.append_nil] at h
  cases i with
  | ofNat n => exact hdigits false n
  | negSucc n => exact hdigits true (n + 1)

end Json

/-! ### The layouts of a decimal -/

namespace Binary32

open Json (IsNumber isNumber_signText whole_cons whole_singleton)

/-- The digits that `shortest` finds for a number other than zero begin with no zero. -/
theorem exists_cons_shortest (tie : Tie) {n : Nat} (hn : n ≠ 0) :
    ∃ c r, (shortest tie n).digits = c :: r ∧ c ≠ '0' := by
  obtain ⟨steps, grid, zeros, hback, hdigits, -⟩ := exists_steps tie n
  have hsteps : steps ≠ 0 := by
    rintro rfl
    have hzero : nearestOrdinal (tenTo grid * 0) (tenTo 149) = 0 :=
      nearestOrdinal_eq_zero (by rw [Nat.mul_zero, Nat.zero_mul]; exact Text.tenTo_pos 149)
    rw [readsBack, hzero, beq_iff_eq] at hback
    exact hn hback.symm
  have hvalue := Text.ofDigits_natDigits steps
  cases hd : (shortest tie n).digits with
  | nil =>
      rw [hdigits, hd, List.nil_append, Text.ofDigits_zeros] at hvalue
      exact absurd hvalue.symm hsteps
  | cons c r =>
      refine ⟨c, r, rfl, ?_⟩
      rintro rfl
      have hhead : (natDigits steps).head? = some '0' := by rw [hdigits, hd]; rfl
      rw [Text.natDigits_of_head? hhead] at hvalue
      exact hsteps hvalue.symm

namespace Decimal

variable {d : Decimal} {c : Char} {r : List Char}

/-- The digits of `d` around a point, as `positional` sets them, are the token of a number, unless a
zero leads them. -/
theorem isNumber_positional (negative : Bool) (hd : AllDigits d.digits) (hcons : d.digits = c :: r)
    (hc : c ≠ '0') : IsNumber (signText negative ++ d.positional) := by
  have hpoint : ∀ {whole fraction : List Char}, Json.Whole whole → AllDigits fraction →
      fraction ≠ [] → IsNumber (signText negative ++ (whole ++ '.' :: fraction)) :=
    fun hw hf hne => by
      have h := isNumber_signText negative hw (.inr ⟨_, rfl, hf, hne⟩) (.inl rfl)
      rwa [List.append_nil] at h
  have hne : d.digits ≠ [] := hcons ▸ List.cons_ne_nil c r
  unfold positional
  split
  · exact hpoint (whole_singleton (by decide)) ((Text.allDigits_replicate_zero _).append hd)
      (List.append_ne_nil_of_right_ne_nil _ hne)
  · next hlow =>
    split
    · next hmid =>
      refine hpoint ?_ (hd.of_subset (List.drop_subset _ _)) ?_
      · have htake : d.digits.take d.point.toNat = c :: r.take (d.point.toNat - 1) := by
          rw [hcons, List.take_cons (by omega)]
        exact htake ▸ whole_cons (htake ▸ hd.of_subset (List.take_subset _ _)) hc
      · rw [Ne, List.drop_eq_nil_iff]
        omega
    · rw [List.append_assoc, ← List.append_assoc d.digits, hcons]
      exact hpoint (whole_cons ((hcons ▸ hd).append (Text.allDigits_replicate_zero _)) hc)
        (Text.allDigits_replicate_zero 1) (List.cons_ne_nil _ _)

/-- The digits `r` after the first one, and their point. -/
def fractionText (r : List Char) : List Char :=
  if r = [] then [] else '.' :: r

/-- The sign and the digits of the `exponent`. -/
def exponentText (exponent : Int) : List Char :=
  [if exponent < 0 then '-' else '+'] ++ natDigits exponent.natAbs

theorem scientific_eq (hcons : d.digits = c :: r) :
    d.scientific = [c] ++ (fractionText r ++ 'e' :: exponentText (d.point - 1)) := by
  unfold scientific fractionText exponentText
  rw [hcons]
  cases r with
  | nil => rfl
  | cons c' r => simp

/-- What `d.scientific` writes, with one digit before the point, is the token of a number. -/
theorem isNumber_scientific (negative : Bool) (hd : AllDigits d.digits)
    (hcons : d.digits = c :: r) : IsNumber (signText negative ++ d.scientific) := by
  rw [scientific_eq hcons]
  rw [hcons] at hd
  refine isNumber_signText negative (whole_singleton (hd c List.mem_cons_self)) ?_
    (.inr ⟨'e', _, natDigits (d.point - 1).natAbs, rfl, List.mem_cons_self, ?_,
      Text.allDigits_natDigits _, Text.natDigits_ne_nil _⟩)
  · unfold fractionText
    split
    · exact .inl rfl
    · next hr => exact .inr ⟨r, rfl, hd.of_subset (List.subset_cons_self c r), hr⟩
  · split <;> decide

/-! ### What a layout reads as -/

open Literal (takeFraction readExponent)

theorem takeFraction_fractionText (hr : AllDigits r) (cs : List Char) :
    takeFraction (fractionText r ++ 'e' :: cs) = (r, 'e' :: cs) := by
  unfold fractionText
  split
  · next hnil =>
    subst hnil
    rfl
  · have hend := Text.head?_cons_of (p := Char.isDigit) (c := 'e') (by decide) cs
    rw [List.cons_append, takeFraction, Text.takeWhile_append_of_head hr hend,
      Text.dropWhile_append_of_head hr hend]

theorem readExponent_exponentText (exponent : Int) :
    readExponent ('e' :: exponentText exponent) = some exponent := by
  have hread : ∀ {mark : Char} {negative : Bool} {ds : List Char}, AllDigits ds → ds ≠ [] →
      Literal.takeSign (mark :: ds) = (negative, ds) →
      readExponent ('e' :: mark :: ds) =
        some (if negative then -(ofDigits ds : Int) else ofDigits ds) := by
    intro mark negative ds hds hne hsign
    rw [readExponent, hsign]
    exact if_pos ⟨.inl rfl, hne, List.all_eq_true.2 hds⟩
  have hds := Text.allDigits_natDigits exponent.natAbs
  have hne := Text.natDigits_ne_nil exponent.natAbs
  unfold exponentText
  by_cases hneg : exponent < 0
  · rw [if_pos hneg, List.singleton_append, hread hds hne rfl, Text.ofDigits_natDigits, if_pos rfl]
    congr 1
    omega
  · rw [if_neg hneg, List.singleton_append, hread hds hne rfl, Text.ofDigits_natDigits,
      if_neg (by decide)]
    congr 1
    omega

/-- **The text `d.scientific`** reads as the digits of `d` with their power of ten. -/
theorem ofChars?_scientific (negative : Bool) (hd : AllDigits d.digits)
    (hcons : d.digits = c :: r) :
    Literal.ofChars? (signText negative ++ d.scientific) =
      some ⟨negative, d.digits, d.point - d.digits.length⟩ := by
  rw [scientific_eq hcons]
  rw [hcons] at hd ⊢
  have hr : AllDigits r := hd.of_subset (List.subset_cons_self c r)
  have hhead : ∀ x ∈ (fractionText r ++ 'e' :: exponentText (d.point - 1)).head?,
      x.isDigit = false := by
    unfold fractionText
    split <;> simp
  rw [Literal.ofChars?_parts negative (whole_singleton (hd c List.mem_cons_self)).all
    (List.cons_ne_nil c []) hhead (takeFraction_fractionText hr _)
    (readExponent_exponentText _), List.length_cons, List.singleton_append]
  congr 2
  omega

end Decimal

/-! ### The written number -/

/-- The `shortest` digits of the number of ordinal `n`, as a literal, have this number as their
`value`. -/
theorem value_shortest (s : Bool) (tie : Tie) (n : Fin 0x7F800000) :
    (Literal.mk s (shortest tie n).digits
      ((shortest tie n).point - (shortest tie n).digits.length)).value = finite s n := by
  obtain ⟨c, grid, e, hback, he, hval⟩ := exists_shortest tie n
  rw [readsBack, beq_iff_eq] at hback
  rw [Literal.value_eq_ofRatio (allDigits_shortest tie n)]
  dsimp only
  generalize hexp : (shortest tie n).point - ((shortest tie n).digits.length : Int) = exponent
  -- in units of the finest grid the exponent is no longer negative
  have hcross : ofDigits (shortest tie n).digits * tenTo exponent.toNat * tenTo 149 =
      tenTo grid * c * tenTo (-exponent).toNat := by
    rw [← hval, Nat.mul_assoc, Nat.mul_assoc, ← Text.tenTo_add, ← Text.tenTo_add]
    congr 2
    omega
  have hnear :=
    (nearestOrdinal_eq_of_cross (Text.tenTo_pos _) (Text.tenTo_pos _) hcross).trans hback
  rw [ofRatio, dif_pos (by rw [hnear]; exact n.isLt)]
  exact congrArg (finite s) (Fin.ext hnear)

/-- The text `cs` writes `finite s n`: it is the token of a number and a literal of this one, and it
is not a numeral of a whole number. -/
structure Writes (cs : List Char) (s : Bool) (n : Fin 0x7F800000) : Prop where
  isNumber : IsNumber cs
  literal : ∃ l, Literal.ofChars? cs = some l ∧ l.value = finite s n
  not_numeral : Value.numeral? cs = none

theorem writes_zero (s : Bool) : Writes (signText s ++ ['0', '.', '0']) s 0 where
  isNumber := isNumber_signText s (whole_singleton (c := '0') (by decide))
    (.inr ⟨['0'], rfl, Text.allDigits_replicate_zero 1, List.cons_ne_nil _ _⟩) (.inl rfl)
  literal := ofChars?_of_nearest s (Text.allDigits_replicate_zero 1) (List.cons_ne_nil _ _)
    (Text.allDigits_replicate_zero 1) (nearestOrdinal_eq_zero (by decide))
  not_numeral := Value.numeral?_eq_none_of_mem s (x := '.') (by decide) List.mem_cons_self
    (by decide)

/-- The `shortest` digits around a point write their number. -/
theorem writes_positional (s : Bool) {n : Fin 0x7F800000} (hn : n.val ≠ 0) :
    Writes (signText s ++ (shortest .even n).positional) s n := by
  obtain ⟨c, r, hcons, hc⟩ := exists_cons_shortest .even hn
  obtain ⟨whole, fraction, htext, hw, hne, hf, hnear⟩ := exists_positional_shortest .even n
  refine ⟨Decimal.isNumber_positional s (allDigits_shortest .even n) hcons hc, ?_, ?_⟩
  · rw [htext]
    exact ofChars?_of_nearest s hw hne hf hnear
  · obtain ⟨c', r', rfl⟩ := List.exists_cons_of_ne_nil hne
    rw [htext]
    exact Value.numeral?_eq_none_of_mem s (hw c' List.mem_cons_self)
      (List.mem_append_right r' List.mem_cons_self) (by decide)

/-- The `shortest` digits with a power of ten write their number. -/
theorem writes_scientific (s : Bool) {n : Fin 0x7F800000} (hn : n.val ≠ 0) :
    Writes (signText s ++ (shortest .even n).scientific) s n := by
  obtain ⟨c, r, hcons, -⟩ := exists_cons_shortest .even hn
  have hdigits := allDigits_shortest .even n
  refine ⟨Decimal.isNumber_scientific s hdigits hcons,
    ⟨_, Decimal.ofChars?_scientific s hdigits hcons, value_shortest s .even n⟩, ?_⟩
  rw [Decimal.scientific_eq hcons, List.singleton_append]
  exact Value.numeral?_eq_none_of_mem s (hdigits c (hcons ▸ List.mem_cons_self))
    (List.mem_append_right _ List.mem_cons_self) (by decide)

/-- **What `jsonText` makes of a finite number** `Writes` it, in whichever layout. -/
theorem writes_jsonText (s : Bool) (n : Fin 0x7F800000) : Writes (finite s n).jsonText s n := by
  unfold jsonText
  dsimp only
  split
  · next hzero =>
    obtain rfl : n = 0 := Fin.ext hzero
    exact writes_zero s
  · next hn =>
    split
    · exact writes_positional s hn
    · exact writes_scientific s hn

end Binary32

/-- **The text that `jsonText` makes**, read by `Value.ofText`, is the number that it was made of,
with its sign and every bit. -/
theorem Value.ofText_jsonText (s : Bool) (n : Fin 0x7F800000) :
    ofText (String.ofList (Binary32.finite s n).jsonText) = float (.finite s n) := by
  have hwrites := Binary32.writes_jsonText s n
  obtain ⟨l, hl, hvalue⟩ := hwrites.literal
  have hread : finiteLiteral? (Binary32.finite s n).jsonText = some (.finite s n) := by
    rw [finiteLiteral?, hl, Option.bind_some, hvalue]
    rfl
  rw [ofText, String.toList_ofList, hwrites.not_numeral, hread]
  rfl

end EmulatorSettings
