import EmulatorSettings.Proofs.Binary32.NearestNumber
import EmulatorSettings.Proofs.Value.Numerals

/-!
# Values — the kind of a text

A text is read as a whole number if it is the numeral of one of 32 bits, else as a binary number if
it is a literal near a finite one, and else it stays what it is.  What literals look like and what
they denote is said here without the reader.

* `Literal.ofChars?_eq_some_iff`: the literals of the reader are the literals.
* `ofText_eq_int_iff`, `ofText_eq_float_iff`, `ofText_eq_text_iff`: which texts are read as which
  kind.
* `ofText_kinds`: where a numeral of any length changes its kind.
-/

namespace EmulatorSettings

open Text (AllDigits ofDigits)
open Binary32 (Literal IsNearestTo)

/-! ### Literals -/

namespace Binary32.Literal

/-- A sign `+` or `-` or none, and whether it is a minus. -/
inductive SignText : List Char → Bool → Prop where
  | none : SignText [] false
  | plus : SignText ['+'] false
  | minus : SignText ['-'] true

/-- A point and digits after it or nothing, and the digits. -/
inductive FractionText : List Char → List Char → Prop where
  | none : FractionText [] []
  | point {ds : List Char} (hd : AllDigits ds) : FractionText ('.' :: ds) ds

/-- A power of ten with the mark `e` or `E`, or none, and its exponent. -/
inductive PowerText : List Char → Int → Prop where
  | none : PowerText [] 0
  | power {mark : Char} {cs : List Char} {e : Int} (hmark : mark = 'e' ∨ mark = 'E')
      (he : Numeral cs e) : PowerText (mark :: cs) e

/-- The text of a literal: a sign, digits with a point among or around them, and a power of ten.
Only the digits have to be there. -/
inductive Spelled : List Char → Literal → Prop where
  | parts {sign whole fraction digits power : List Char} {negative : Bool} {e : Int}
      (hsign : SignText sign negative) (hwhole : AllDigits whole)
      (hfraction : FractionText fraction digits) (hpower : PowerText power e)
      (hne : whole ++ digits ≠ []) :
      Spelled (sign ++ (whole ++ (fraction ++ power)))
        ⟨negative, whole ++ digits, e - digits.length⟩

theorem Spelled.allDigits {cs : List Char} {l : Literal} (h : Spelled cs l) :
    AllDigits l.digits := by
  cases h with
  | parts _ hwhole hfraction _ _ =>
      cases hfraction with
      | none => exact hwhole.append fun _ hc => absurd hc List.not_mem_nil
      | point hd => exact hwhole.append hd

theorem exists_takeSign {cs body : List Char} {negative : Bool}
    (h : takeSign cs = (negative, body)) : ∃ sign, SignText sign negative ∧ cs = sign ++ body := by
  unfold takeSign at h
  split at h
  · obtain ⟨rfl, rfl⟩ := Prod.mk.inj h
    exact ⟨_, .minus, rfl⟩
  · obtain ⟨rfl, rfl⟩ := Prod.mk.inj h
    exact ⟨_, .plus, rfl⟩
  · obtain ⟨rfl, rfl⟩ := Prod.mk.inj h
    exact ⟨_, .none, rfl⟩

theorem takeSign_append {sign body : List Char} {negative : Bool} (hsign : SignText sign negative)
    (hbody : ∀ c ∈ body.head?, c ≠ '+' ∧ c ≠ '-') : takeSign (sign ++ body) = (negative, body) := by
  cases hsign with
  | plus => rfl
  | minus => rfl
  | none =>
      rw [List.nil_append]
      unfold takeSign
      split
      · exact absurd rfl (hbody '-' rfl).2
      · exact absurd rfl (hbody '+' rfl).1
      · rfl

theorem readExponent_eq_some_iff {cs : List Char} {e : Int} :
    readExponent cs = some e ↔ PowerText cs e := by
  cases cs with
  | nil =>
      refine ⟨fun h => Option.some.inj h ▸ .none, fun h => ?_⟩
      cases h
      rfl
  | cons mark cs =>
      have hread : readExponent (mark :: cs) =
          if mark = 'e' ∨ mark = 'E' then Value.numeral? cs else none := by
        unfold readExponent Value.numeral?
        by_cases hmark : mark = 'e' ∨ mark = 'E'
        · simp only [hmark, true_and, if_true]
        · simp only [hmark, false_and, if_false]
      rw [hread]
      constructor
      · intro h
        split at h
        · next hmark => exact .power hmark (Value.numeral?_eq_some_iff.1 h)
        · cases h
      · intro h
        cases h with
        | power hmark he => rw [if_pos hmark, Value.numeral?_eq_some_iff.2 he]

/-- Neither a digit nor a point begins a `PowerText`. -/
theorem PowerText.head? {cs : List Char} {e : Int} (h : PowerText cs e) :
    ∀ c ∈ cs.head?, c.isDigit = false ∧ c ≠ '.' := by
  cases h with
  | none => exact fun _ hc => absurd hc (Option.not_mem_none _)
  | power hmark _ =>
      rintro _ ⟨⟩
      rcases hmark with rfl | rfl
      · decide
      · decide

/-- No digit stands after the digits in front of the point. -/
theorem head?_fraction {fraction digits power : List Char} {e : Int}
    (hfraction : FractionText fraction digits) (hpower : PowerText power e) :
    ∀ c ∈ (fraction ++ power).head?, c.isDigit = false := by
  cases hfraction with
  | none => exact fun c hc => (hpower.head? c hc).1
  | point => exact Text.head?_cons_of (by decide) _

/-- The digits of a literal, with the point, do not begin with a sign. -/
theorem head?_mantissa {whole fraction digits : List Char} (hwhole : AllDigits whole)
    (hfraction : FractionText fraction digits) (hne : whole ++ digits ≠ []) (power : List Char) :
    ∀ c ∈ (whole ++ (fraction ++ power)).head?, c ≠ '+' ∧ c ≠ '-' := by
  cases whole with
  | cons d whole =>
      rintro _ ⟨⟩
      have hd : d.isDigit = true := hwhole d List.mem_cons_self
      exact ⟨fun he => absurd (he ▸ hd) (by decide), fun he => absurd (he ▸ hd) (by decide)⟩
  | nil =>
      cases hfraction with
      | none => exact absurd rfl hne
      | point =>
          rintro _ ⟨⟩
          decide

theorem takeFraction_append {fraction digits power : List Char} {e : Int}
    (hfraction : FractionText fraction digits) (hpower : PowerText power e) :
    takeFraction (fraction ++ power) = (digits, power) := by
  have hdigit : ∀ c ∈ power.head?, c.isDigit = false := fun c hc => (hpower.head? c hc).1
  cases hfraction with
  | none =>
      rw [List.nil_append]
      unfold takeFraction
      split
      · exact absurd rfl (hpower.head? '.' rfl).2
      · rfl
  | point hd =>
      rw [List.cons_append, takeFraction, Text.takeWhile_append_of_head hd hdigit,
        Text.dropWhile_append_of_head hd hdigit]

theorem exists_takeFraction {cs digits rest : List Char} (h : takeFraction cs = (digits, rest)) :
    ∃ fraction, FractionText fraction digits ∧ cs = fraction ++ rest := by
  unfold takeFraction at h
  split at h
  · obtain ⟨rfl, rfl⟩ := Prod.mk.inj h
    refine ⟨_, .point fun c hc => List.mem_takeWhile_imp hc, ?_⟩
    rw [List.cons_append, List.takeWhile_append_dropWhile]
  · obtain ⟨rfl, rfl⟩ := Prod.mk.inj h
    exact ⟨_, .none, rfl⟩

/-- **The literals that `ofChars?` reads** are those that are `Spelled`. -/
theorem ofChars?_eq_some_iff {cs : List Char} {l : Literal} :
    ofChars? cs = some l ↔ Spelled cs l := by
  constructor
  · intro h
    obtain ⟨negative, body, hsign⟩ : ∃ negative body, takeSign cs = (negative, body) := ⟨_, _, rfl⟩
    obtain ⟨digits, power, hfraction⟩ : ∃ digits power,
        takeFraction (body.dropWhile Char.isDigit) = (digits, power) := ⟨_, _, rfl⟩
    unfold ofChars? at h
    simp only [hsign, hfraction] at h
    split at h
    · cases h
    · next hne =>
      obtain ⟨e, he, rfl⟩ := Option.map_eq_some_iff.1 h
      obtain ⟨sign, hsignText, rfl⟩ := exists_takeSign hsign
      obtain ⟨fraction, hfractionText, hrest⟩ := exists_takeFraction hfraction
      have hbody : body = body.takeWhile Char.isDigit ++ (fraction ++ power) := by
        rw [← hrest, List.takeWhile_append_dropWhile]
      have hspelled : Spelled (sign ++ (body.takeWhile Char.isDigit ++ (fraction ++ power))) _ :=
        .parts hsignText (fun _ hc => List.mem_takeWhile_imp hc) hfractionText
          (readExponent_eq_some_iff.1 he) hne
      rwa [← hbody] at hspelled
  · intro h
    cases h with
    | @parts sign whole fraction digits power negative e hsign hwhole hfraction hpower hne =>
        have hdigit := head?_fraction hfraction hpower
        have htake := takeSign_append hsign (head?_mantissa hwhole hfraction hne power)
        unfold ofChars?
        simp only [htake, Text.takeWhile_append_of_head hwhole hdigit,
          Text.dropWhile_append_of_head hwhole hdigit, takeFraction_append hfraction hpower,
          if_neg hne, readExponent_eq_some_iff.2 hpower, Option.map_some]

end Binary32.Literal

/-! ### The three kinds -/

namespace Value

variable {s : String}

theorem exists_int32?_iff {i : Int} :
    (∃ n, int32? i = some n) ↔ -2 ^ 31 ≤ i ∧ i ≤ 2 ^ 31 - 1 := by
  rw [← Option.ne_none_iff_exists', ne_eq, int32?_eq_none_iff, not_not]
  omega

theorem finiteLiteral?_eq_some_iff {cs : List Char} {x : Binary32} :
    finiteLiteral? cs = some x ↔
      ∃ l, Literal.Spelled cs l ∧ l.value = x ∧ x.isFinite = true := by
  simp only [finiteLiteral?, Option.bind_eq_some_iff, Literal.ofChars?_eq_some_iff]
  refine exists_congr fun l => and_congr_right fun _ => ?_
  split
  · next hfin => exact ⟨fun h => Option.some.inj h ▸ ⟨rfl, hfin⟩, fun h => congrArg some h.1⟩
  · next hfin =>
    exact ⟨fun h => absurd h.symm (Option.some_ne_none x), fun h => absurd (h.1 ▸ h.2) hfin⟩

/-- No number of 32 bits is read in `cs` exactly if `cs` is no `Numeral` of one. -/
theorem bind_numeral?_eq_none_iff {cs : List Char} :
    (numeral? cs).bind int32? = none ↔
      ∀ i, Numeral cs i → ¬ (-2 ^ 31 ≤ i ∧ i ≤ 2 ^ 31 - 1) := by
  rw [Option.bind_eq_none_iff]
  refine forall_congr' fun i => ?_
  rw [numeral?_eq_some_iff, ← exists_int32?_iff, ← Option.ne_none_iff_exists', ne_eq, not_not]

/-- **The texts of whole numbers** are the numerals of 32 bits. -/
theorem ofText_eq_int_iff {n : Int32} : ofText s = int n ↔ Numeral s.toList n.toInt := by
  constructor
  · intro h
    rw [ofText] at h
    split at h
    · next m hm =>
      obtain ⟨i, hi, hm⟩ := Option.bind_eq_some_iff.1 hm
      rw [← int.inj h, toInt_of_int32? hm]
      exact numeral?_eq_some_iff.1 hi
    · split at h
      · cases h
      · cases h
  · intro h
    have hn : int32? n.toInt = some n := int32?_toInt n
    rw [ofText_numeral h, hn]

/-- **The texts of binary numbers** are the literals with a finite `value` that are no numerals of
32 bits. -/
theorem ofText_eq_float_iff {x : Binary32} :
    ofText s = float x ↔ (∀ i, Numeral s.toList i → ¬ (-2 ^ 31 ≤ i ∧ i ≤ 2 ^ 31 - 1)) ∧
      ∃ l, Literal.Spelled s.toList l ∧ l.value = x ∧ x.isFinite = true := by
  rw [← bind_numeral?_eq_none_iff, ← finiteLiteral?_eq_some_iff, ofText]
  split
  · next n hn => exact ⟨Value.noConfusion, fun h => absurd (h.1.symm.trans hn) (by simp)⟩
  · next hn =>
    split
    · next y hy => simp [hn, hy]
    · next hy => simp [hn, hy]

/-- No finite literal is read in `cs` exactly if every literal that it is overflows: it is at least
`2 ^ 128 - 2 ^ 103` from zero. -/
theorem finiteLiteral?_eq_none_iff {cs : List Char} :
    finiteLiteral? cs = none ↔
      ∀ l, Literal.Spelled cs l → 2 ^ 128 - 2 ^ 103 ≤ |l.toRat| := by
  rw [Option.eq_none_iff_forall_ne_some]
  constructor
  · intro h l hl
    by_contra hlt
    have hfin := (Literal.isFinite_value_iff hl.allDigits).2 (not_le.1 hlt)
    exact h l.value (finiteLiteral?_eq_some_iff.2 ⟨l, hl, rfl, hfin⟩)
  · intro h x hx
    obtain ⟨l, hl, rfl, hfin⟩ := finiteLiteral?_eq_some_iff.1 hx
    exact absurd (h l hl) (not_le.2 ((Literal.isFinite_value_iff hl.allDigits).1 hfin))

/-- **The texts that stay texts** are neither numerals of 32 bits nor literals below
`2 ^ 128 - 2 ^ 103`. -/
theorem ofText_eq_text_iff_spelled {t : String} :
    ofText s = text t ↔ t = s ∧ (∀ i, Numeral s.toList i → ¬ (-2 ^ 31 ≤ i ∧ i ≤ 2 ^ 31 - 1)) ∧
      ∀ l, Literal.Spelled s.toList l → 2 ^ 128 - 2 ^ 103 ≤ |l.toRat| := by
  rw [← bind_numeral?_eq_none_iff, ← finiteLiteral?_eq_none_iff, ← ofText_eq_text_iff]
  constructor
  · intro h
    obtain rfl := eq_of_ofText_eq_text h
    exact ⟨rfl, h⟩
  · rintro ⟨rfl, h⟩
    exact h

/-! ### Numerals of any length -/

/-- **A binary number `x` that was read** is the finite one nearest to the literal that its text is.
-/
theorem isNearestTo_of_ofText_eq_float {x : Binary32} (h : ofText s = float x) :
    x.isFinite = true ∧ ∃ l, Literal.Spelled s.toList l ∧ IsNearestTo l.toRat x := by
  obtain ⟨-, l, hl, rfl, hfin⟩ := ofText_eq_float_iff.1 h
  exact ⟨hfin, l, hl, Literal.isNearestTo_value hl.allDigits hfin⟩

/-- **The number `ofInt i`** is nearest to `i` below the overflow. -/
theorem isNearestTo_ofInt {i : Int} (h : i.natAbs < 2 ^ 128 - 2 ^ 103) :
    IsNearestTo i (Binary32.ofInt i) := by
  have hrat : Binary32.signRat (i < 0) * ((i.natAbs : Nat) / (1 : Nat)) = i := by
    rw [Nat.cast_one, div_one, Nat.cast_natAbs]
    by_cases hi : i < 0
    · simp [Binary32.signRat, hi, abs_of_neg hi]
    · simp [Binary32.signRat, hi, abs_of_nonneg (not_lt.1 hi)]
  have hnearest := Binary32.isNearestTo_ofRatio (i < 0) Nat.one_pos (by rwa [Nat.mul_one])
  rwa [hrat] at hnearest

/-- **Where a numeral changes its kind.** A `Numeral` of any length, with any leading zeros, is read
by `ofText s` as the `int` it denotes exactly in the range of 32 bits; outside of it as the nearest
`float`, a tie to the even one, exactly below `2 ^ 128 - 2 ^ 103`; and else it stays a `text`.  A
binary number that is read from any text is finite, the nearest one to a literal that the text is;
and a text stays what it is exactly if it is neither a numeral of 32 bits nor a literal below that
bound. -/
theorem ofText_kinds (s : String) :
    (∀ i, Numeral s.toList i →
      ((∃ n, ofText s = int n ∧ n.toInt = i) ↔ -2 ^ 31 ≤ i ∧ i ≤ 2 ^ 31 - 1) ∧
      (¬ (-2 ^ 31 ≤ i ∧ i ≤ 2 ^ 31 - 1) →
        ((∃ x, ofText s = float x ∧ IsNearestTo i x) ↔ |i| < 2 ^ 128 - 2 ^ 103) ∧
        (ofText s = text s ↔ 2 ^ 128 - 2 ^ 103 ≤ |i|))) ∧
    (∀ x, ofText s = float x →
      x.isFinite = true ∧ ∃ l, Literal.Spelled s.toList l ∧ IsNearestTo l.toRat x) ∧
    ∀ t, ofText s = text t ↔
      t = s ∧ (∀ i, Numeral s.toList i → ¬ (-2 ^ 31 ≤ i ∧ i ≤ 2 ^ 31 - 1)) ∧
        ∀ l, Literal.Spelled s.toList l → 2 ^ 128 - 2 ^ 103 ≤ |l.toRat| := by
  refine ⟨fun i hi => ⟨?_, fun hout => ?_⟩, fun x h => isNearestTo_of_ofText_eq_float h,
    fun t => ofText_eq_text_iff_spelled⟩
  · constructor
    · rintro ⟨n, -, rfl⟩
      exact ⟨n.le_toInt, Int.le_sub_one_of_lt n.toInt_lt⟩
    · intro hrange
      obtain ⟨n, hn⟩ := exists_int32?_iff.2 hrange
      obtain rfl := toInt_of_int32? hn
      exact ⟨n, ofText_eq_int_iff.2 hi, rfl⟩
  · have hnone : int32? i = none := by
      rw [← exists_int32?_iff, ← Option.ne_none_iff_exists', ne_eq, not_not] at hout
      exact hout
    have hread := ofText_numeral hi
    rw [hnone] at hread
    dsimp only at hread
    have hfinite : (Binary32.ofInt i).isFinite = true ↔ i.natAbs < 2 ^ 128 - 2 ^ 103 := by
      refine Binary32.isFinite_ofInt_iff ?_
      unfold Binary32.binade
      omega
    rw [Int.abs_eq_natAbs]
    by_cases hlt : i.natAbs < 2 ^ 128 - 2 ^ 103
    · rw [if_pos (hfinite.2 hlt)] at hread
      refine ⟨iff_of_true ⟨_, hread, isNearestTo_ofInt hlt⟩ (by omega), iff_of_false ?_ (by omega)⟩
      rw [hread]
      exact nofun
    · rw [if_neg (mt hfinite.1 hlt)] at hread
      refine ⟨iff_of_false ?_ (by omega), iff_of_true hread (by omega)⟩
      rintro ⟨x, hx, -⟩
      rw [hread] at hx
      cases hx

/-- The last numerals on either side of each limit, with a sign and leading zeros. -/
theorem ofText_kinds_at_limits :
    (∃ n, ofText "-002147483648" = int n ∧ n.toInt = -2147483648) ∧
      (∃ x, ofText "+2147483648" = float x ∧ IsNearestTo (2147483648 : Int) x) ∧
      (∃ x, ofText "-340282356779733661637539395458142568447" = float x ∧
        IsNearestTo (-340282356779733661637539395458142568447 : Int) x) ∧
      ofText "340282356779733661637539395458142568448" =
        text "340282356779733661637539395458142568448" := by
  have hnumeral : ∀ {s : String} {i : Int}, numeral? s.toList = some i → Numeral s.toList i :=
    fun h => numeral?_eq_some_iff.1 h
  refine ⟨?_, ?_, ?_, ?_⟩
  · exact ((ofText_kinds _).1 _ (hnumeral (by decide +kernel))).1.2 (by decide)
  · exact (((ofText_kinds _).1 _ (hnumeral (by decide +kernel))).2 (by decide)).1.2 (by decide)
  · exact (((ofText_kinds _).1 _ (hnumeral (by decide +kernel))).2 (by decide)).1.2 (by decide)
  · exact (((ofText_kinds _).1 340282356779733661637539395458142568448
      (hnumeral (by decide +kernel))).2 (by decide)).2.2 (by decide)

end Value

end EmulatorSettings
