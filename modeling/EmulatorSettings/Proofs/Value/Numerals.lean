import EmulatorSettings.Proofs.Binary32.WholeNumbers
import EmulatorSettings.Proofs.Value.RoundTrip

/-!
# Values — numerals of any length

A numeral denotes a whole number, however many digits it has.  Read as a value and written again,
it goes one of three ways: as a whole number of 32 bits, as the nearest binary number, or as the
text it was.

* `numeral?_eq_some_iff`: the reader's numerals are the numerals.
* `ofText_numeral`: the value of a numeral.
* `denotes_written_iff`: which whole number the written text denotes.
* `rewritten_eq_iff`: the numerals that still denote the same number after that.
-/

namespace EmulatorSettings

open Text (AllDigits ofDigits)
open Binary32.Literal (takeSign takeSign_signText)

/-! ### Numerals -/

/-- A numeral and the whole number it denotes: digits, after a sign or not. -/
inductive Numeral : List Char → Int → Prop where
  | plain {ds : List Char} (hd : AllDigits ds) (hne : ds ≠ []) : Numeral ds (ofDigits ds)
  | plus {ds : List Char} (hd : AllDigits ds) (hne : ds ≠ []) : Numeral ('+' :: ds) (ofDigits ds)
  | minus {ds : List Char} (hd : AllDigits ds) (hne : ds ≠ []) :
      Numeral ('-' :: ds) (-(ofDigits ds : Int))

/-- The text `cs` denotes the whole number `i`: it is a numeral of `i`, or one with `.0` after it.
-/
def DenotesWhole (cs : List Char) (i : Int) : Prop :=
  Numeral cs i ∨ ∃ numeral, cs = numeral ++ ['.', '0'] ∧ Numeral numeral i

theorem takeSign_digits {ds : List Char} (hd : AllDigits ds) (hne : ds ≠ []) :
    takeSign ds = (false, ds) := by
  obtain ⟨c, r, rfl⟩ := List.exists_cons_of_ne_nil hne
  exact takeSign_signText false (hd c List.mem_cons_self)

/-- A `Numeral` by its sign and its digits, as `takeSign` finds them. -/
theorem numeral_iff {cs : List Char} {i : Int} :
    Numeral cs i ↔ ∃ negative ds, takeSign cs = (negative, ds) ∧ AllDigits ds ∧ ds ≠ [] ∧
      i = if negative then -(ofDigits ds : Int) else ofDigits ds := by
  constructor
  · intro h
    cases h with
    | plain hd hne => exact ⟨false, cs, takeSign_digits hd hne, hd, hne, rfl⟩
    | @plus ds hd hne => exact ⟨false, ds, rfl, hd, hne, rfl⟩
    | @minus ds hd hne => exact ⟨true, ds, rfl, hd, hne, rfl⟩
  · rintro ⟨negative, ds, hsign, hd, hne, rfl⟩
    unfold takeSign at hsign
    split at hsign
    · obtain ⟨rfl, rfl⟩ := Prod.mk.inj hsign
      exact .minus hd hne
    · obtain ⟨rfl, rfl⟩ := Prod.mk.inj hsign
      exact .plus hd hne
    · obtain ⟨rfl, rfl⟩ := Prod.mk.inj hsign
      exact .plain hd hne

/-- **The numerals that `numeral?` reads** are those of `Numeral`. -/
theorem Value.numeral?_eq_some_iff {cs : List Char} {i : Int} :
    numeral? cs = some i ↔ Numeral cs i := by
  rw [numeral_iff, numeral?]
  generalize takeSign cs = signed
  obtain ⟨negative, ds⟩ := signed
  dsimp only
  constructor
  · intro h
    split at h
    · next hds =>
      exact ⟨negative, ds, rfl, List.all_eq_true.1 hds.2, hds.1, (Option.some.inj h).symm⟩
    · cases h
  · rintro ⟨_, _, ⟨⟩, hd, hne, rfl⟩
    exact if_pos ⟨hne, List.all_eq_true.2 hd⟩

theorem Numeral.unique {cs : List Char} {i j : Int} (h : Numeral cs i) (h' : Numeral cs j) :
    i = j :=
  Option.some.inj ((Value.numeral?_eq_some_iff.2 h).symm.trans (Value.numeral?_eq_some_iff.2 h'))

theorem Numeral.not_mem_point {cs : List Char} {i : Int} (h : Numeral cs i) : '.' ∉ cs := by
  have hdigits : ∀ {ds : List Char}, AllDigits ds → '.' ∉ ds := fun hd hm =>
    absurd (hd '.' hm) (by decide)
  intro hm
  cases h with
  | plain hd hne => exact hdigits hd hm
  | plus hd hne => exact hdigits hd (List.mem_of_ne_of_mem (by decide) hm)
  | minus hd hne => exact hdigits hd (List.mem_of_ne_of_mem (by decide) hm)

/-- The digits `natDigits n`, with a sign or not, are a numeral. -/
theorem numeral_signText (negative : Bool) (n : Nat) :
    Numeral (Binary32.signText negative ++ Text.natDigits n)
      (if negative then -(n : Int) else n) := by
  have hd := Text.allDigits_natDigits n
  have hne := Text.natDigits_ne_nil n
  cases negative with
  | false => simpa [Binary32.signText, Text.ofDigits_natDigits] using Numeral.plain hd hne
  | true => simpa [Binary32.signText, Text.ofDigits_natDigits] using Numeral.minus hd hne

/-! ### The one number that a text denotes -/

theorem denotesWhole_iff_of_numeral {cs : List Char} {i : Int} (h : Numeral cs i) (j : Int) :
    DenotesWhole cs j ↔ j = i := by
  constructor
  · rintro (hj | ⟨numeral, rfl, -⟩)
    · exact hj.unique h
    · exact absurd (List.mem_append_right _ List.mem_cons_self) h.not_mem_point
  · rintro rfl
    exact .inl h

theorem denotesWhole_iff_of_point {numeral : List Char} {i : Int} (h : Numeral numeral i)
    (j : Int) : DenotesWhole (numeral ++ ['.', '0']) j ↔ j = i := by
  constructor
  · rintro (hj | ⟨numeral', heq, hj⟩)
    · exact absurd (List.mem_append_right _ List.mem_cons_self) hj.not_mem_point
    · obtain rfl := List.append_cancel_right heq
      exact hj.unique h
  · rintro rfl
    exact .inr ⟨numeral, rfl, h⟩

namespace Value

/-! ### The value of a numeral -/

theorem int32?_eq (i : Int) :
    int32? i = if -0x80000000 ≤ i ∧ i < 0x80000000 then some (Int32.ofInt i) else none := rfl

theorem toInt_of_int32? {i : Int} {n : Int32} (h : int32? i = some n) : n.toInt = i := by
  rw [int32?_eq] at h
  split at h
  · next hrange =>
    obtain rfl := Option.some.inj h
    exact Int32.toInt_ofInt_of_le hrange.1 hrange.2
  · cases h

theorem int32?_eq_none_iff {i : Int} :
    int32? i = none ↔ ¬ (-0x80000000 ≤ i ∧ i < 0x80000000) := by
  rw [int32?_eq]
  split
  · next h => simp [h]
  · next h => simp [h]

/-- A numeral is a decimal literal without a point. -/
theorem ofChars?_numeral {cs : List Char} {negative : Bool} {ds : List Char}
    (hsign : takeSign cs = (negative, ds)) (hd : AllDigits ds) (hne : ds ≠ []) :
    Binary32.Literal.ofChars? cs = some ⟨negative, ds, 0⟩ := by
  have htake : ds.takeWhile Char.isDigit = ds := List.takeWhile_eq_self_iff.2 hd
  have hdrop : ds.dropWhile Char.isDigit = [] := List.dropWhile_eq_nil_iff.2 hd
  unfold Binary32.Literal.ofChars?
  simp only [hsign, htake, hdrop, Binary32.Literal.takeFraction, List.append_nil, if_neg hne]
  rfl

/-- The `value` of a numeral other than zero, as a literal, is `ofInt i`. -/
theorem value_numeral {negative : Bool} {ds : List Char} {i : Int} (hd : AllDigits ds)
    (hi : i = if negative then -(ofDigits ds : Int) else ofDigits ds) (hne : i ≠ 0) :
    (Binary32.Literal.mk negative ds 0).value = Binary32.ofInt i := by
  have habs : i.natAbs = ofDigits ds := by
    cases negative <;> simp at hi <;> omega
  have hneg : decide (i < 0) = negative := by
    cases negative <;> simp at hi ⊢ <;> omega
  rw [Binary32.Literal.value_eq_ofRatio hd, Binary32.ofInt, habs, hneg]
  exact congrArg (Binary32.ofRatio negative · 1) (Nat.mul_one _)

/-- **The value of a numeral** for `i`: `int`, `float` or `text`. -/
theorem ofText_numeral {s : String} {i : Int} (h : Numeral s.toList i) :
    ofText s = match int32? i with
      | some n => int n
      | none   =>
        if (Binary32.ofInt i).isFinite then float (Binary32.ofInt i) else text s := by
  obtain ⟨negative, ds, hsign, hd, hne, hi⟩ := numeral_iff.1 h
  rw [ofText, numeral?_eq_some_iff.2 h, Option.bind_some]
  cases hn : int32? i with
  | some n => rfl
  | none =>
      have hzero : i ≠ 0 := by
        rintro rfl
        cases hn
      have hliteral : finiteLiteral? s.toList =
          if (Binary32.ofInt i).isFinite then some (Binary32.ofInt i) else none := by
        rw [finiteLiteral?, ofChars?_numeral hsign hd hne, Option.bind_some,
          value_numeral hd hi hzero]
      dsimp only
      rw [hliteral]
      by_cases hfin : (Binary32.ofInt i).isFinite = true
      · rw [if_pos hfin, if_pos hfin]
      · rw [if_neg hfin, if_neg hfin]

/-! ### The number that is written -/

/-- The whole number denoted by a numeral for `i` once it has been read and written: `i` itself in
the range of 32 bits and past the finite binary numbers, and rounded to 24 binary digits by
`roundWhole` in between. -/
def rewritten (i : Int) : Int :=
  if (-0x80000000 ≤ i ∧ i < 0x80000000) ∨ 2 ^ 128 - 2 ^ 103 ≤ i.natAbs then i
  else if i < 0 then -(Binary32.roundWhole i.natAbs : Int)
  else Binary32.roundWhole i.natAbs

/-- **Which whole number is written** for a numeral of `i`: `rewritten i`. -/
theorem denotes_written_iff {s : String} {i : Int} (h : Numeral s.toList i) (j : Int) :
    DenotesWhole (ofText s).written.toList j ↔ j = rewritten i := by
  rw [ofText_numeral h]
  cases hn : int32? i with
  | some n =>
      have hrange : -0x80000000 ≤ i ∧ i < 0x80000000 := by
        by_contra hout
        rw [int32?_eq_none_iff.2 hout] at hn
        cases hn
      have hnumeral : Numeral (Text.intDigits i) i :=
        numeral?_eq_some_iff.1 (numeral?_intDigits i)
      dsimp only
      rw [written, String.toList_ofList, toInt_of_int32? hn, rewritten, if_pos (.inl hrange)]
      exact denotesWhole_iff_of_numeral hnumeral j
  | none =>
      have hrange := int32?_eq_none_iff.1 hn
      have hlarge : Binary32.binade ≤ i.natAbs := by
        unfold Binary32.binade
        omega
      dsimp only
      by_cases hfin : i.natAbs < 2 ^ 128 - 2 ^ 103
      · -- the nearest number is finite, and written as a whole number
        have hround := numeral_signText (i < 0) (Binary32.roundWhole i.natAbs)
        simp only [decide_eq_true_eq] at hround
        rw [if_pos ((Binary32.isFinite_ofInt_iff hlarge).2 hfin), written, String.toList_ofList,
          Binary32.fileText_ofInt hlarge hfin, ← List.append_assoc,
          denotesWhole_iff_of_point hround j, rewritten,
          if_neg (not_or.2 ⟨hrange, Nat.not_le.2 hfin⟩)]
      · rw [if_neg ((Binary32.isFinite_ofInt_iff hlarge).not.2 hfin), written, rewritten,
          if_pos (.inr (Nat.le_of_not_lt hfin))]
        exact denotesWhole_iff_of_numeral h j

/-- **The numerals that keep their number**: those of 32 bits, those with at most 24 binary digits
before the zeros at the end, and those past the finite binary numbers. -/
theorem rewritten_eq_iff {i : Int} :
    rewritten i = i ↔ (-0x80000000 ≤ i ∧ i < 0x80000000) ∨
      2 ^ (i.natAbs.log2 - 23) ∣ i.natAbs ∨ 2 ^ 128 - 2 ^ 103 ≤ i.natAbs := by
  have hround := @Binary32.roundWhole_eq_iff i.natAbs
  unfold Binary32.excessBits at hround
  rw [← hround]
  unfold rewritten
  split
  · next h => exact iff_of_true rfl (h.imp_right .inr)
  · next h =>
    rw [not_or] at h
    split <;> omega

end Value

end EmulatorSettings
