import EmulatorSettings.Text.Basic
import Mathlib.Algebra.Group.Nat.Defs
import Mathlib.Data.List.TakeWhile

/-!
# Text — runs of characters, and the value of a run of digits

* `takeWhile_append_of_head`, `dropWhile_append_of_head`: a run of characters ends where another
  one follows.
* `ofDigits_lt`, `le_ofDigits`: the number of digits bounds the value on both sides, once no
  zero leads.
* `ofDigits_dropZeros`: leading zeros do not count.
* `ofDigits_append_zeros`: each zero at the end counts as a factor of ten.
* `natDigits_of_head?`: no zero leads the digits of a number but the only one.
-/

namespace EmulatorSettings.Text

/-! ### Runs of characters -/

section Runs

variable {p : Char → Bool} {cs rest : List Char}

theorem head?_cons_of {c : Char} (h : p c = false) (r : List Char) :
    ∀ x ∈ (c :: r).head?, p x = false := by
  rintro _ ⟨⟩
  exact h

theorem takeWhile_eq_nil_of_head (h : ∀ c ∈ rest.head?, p c = false) : rest.takeWhile p = [] := by
  cases rest with
  | nil => rfl
  | cons c r => exact List.takeWhile_cons_of_neg (by rw [h c rfl]; exact Bool.false_ne_true)

theorem takeWhile_append_of_head (hcs : ∀ c ∈ cs, p c = true)
    (hrest : ∀ c ∈ rest.head?, p c = false) : (cs ++ rest).takeWhile p = cs := by
  rw [List.takeWhile_append_of_pos hcs, takeWhile_eq_nil_of_head hrest, List.append_nil]

theorem dropWhile_append_of_head (hcs : ∀ c ∈ cs, p c = true)
    (hrest : ∀ c ∈ rest.head?, p c = false) : (cs ++ rest).dropWhile p = rest := by
  rw [List.dropWhile_append_of_pos hcs, dropWhile_eq_self_of_head hrest]

end Runs

/-! ### Digits -/

theorem tenTo_eq (n : Nat) : tenTo n = 10 ^ n := rfl

theorem tenTo_pos (n : Nat) : 0 < tenTo n := Nat.pow_pos (by decide)

theorem tenTo_add (m n : Nat) : tenTo (m + n) = tenTo m * tenTo n := Nat.pow_add 10 m n

/-- Whether every character of `cs` is a decimal digit. -/
def AllDigits (cs : List Char) : Prop := ∀ c ∈ cs, c.isDigit = true

theorem allDigits_natDigits (n : Nat) : AllDigits (natDigits n) :=
  fun _ h => isDigit_of_mem_natDigits h

theorem AllDigits.append {cs ds : List Char} (hc : AllDigits cs) (hd : AllDigits ds) :
    AllDigits (cs ++ ds) := fun c h =>
  (List.mem_append.1 h).elim (hc c) (hd c)

theorem AllDigits.of_subset {cs ds : List Char} (h : AllDigits ds) (hs : cs ⊆ ds) :
    AllDigits cs := fun c hc => h c (hs hc)

theorem allDigits_replicate_zero (n : Nat) : AllDigits (List.replicate n '0') := by
  intro c h
  rw [List.eq_of_mem_replicate h]
  rfl

/-- A digit counts less than ten, and nothing only if it is `0`. -/
theorem digit_bounds {c : Char} (h : c.isDigit = true) :
    c.toNat - 48 < 10 ∧ (c ≠ '0' → 1 ≤ c.toNat - 48) := by
  obtain ⟨hlo, hhi⟩ : 48 ≤ c.toNat ∧ c.toNat ≤ 57 := Char.isDigit_iff_toNat.1 h
  refine ⟨by omega, fun hne => ?_⟩
  have : c.toNat ≠ 48 := fun h48 => hne (Char.toNat_inj.1 h48)
  omega

theorem isBlank_of_isDigit {c : Char} (h : c.isDigit = true) : isBlank c = false := by
  obtain ⟨hlo, hhi⟩ := Char.isDigit_iff_toNat.1 h
  simp only [isBlank, Bool.or_eq_false_iff, Bool.and_eq_false_iff, decide_eq_false_iff_not,
    beq_eq_false_iff_ne]
  simp only [Char.reduceToNat] at hlo hhi
  omega

theorem ofDigits_nil : ofDigits [] = 0 := rfl

theorem ofDigits_cons (c : Char) (cs : List Char) :
    ofDigits (c :: cs) = tenTo cs.length * (c.toNat - 48) + ofDigits cs := by
  rw [← List.singleton_append, ofDigits_append]
  congr 2
  simp [ofDigits, Nat.ofDigitChars_cons]

theorem ofDigits_lt {cs : List Char} (h : AllDigits cs) : ofDigits cs < tenTo cs.length := by
  induction cs with
  | nil => exact Nat.one_pos
  | cons c r ih =>
    have hr := ih (h.of_subset (List.subset_cons_self c r))
    have hc : tenTo r.length * (c.toNat - 48) ≤ tenTo r.length * 9 :=
      Nat.mul_le_mul_left _ (Nat.le_of_lt_succ (digit_bounds (h c List.mem_cons_self)).1)
    rw [ofDigits_cons, List.length_cons, tenTo_add, tenTo_eq 1]
    omega

/-- A run of digits `c :: cs` that does not begin with `0` counts at least `tenTo cs.length`. -/
theorem le_ofDigits {c : Char} {cs : List Char} (hc : c.isDigit = true) (hne : c ≠ '0') :
    tenTo cs.length ≤ ofDigits (c :: cs) := by
  rw [ofDigits_cons]
  calc tenTo cs.length = tenTo cs.length * 1 := (Nat.mul_one _).symm
    _ ≤ tenTo cs.length * (c.toNat - 48) := Nat.mul_le_mul_left _ ((digit_bounds hc).2 hne)
    _ ≤ _ := Nat.le_add_right _ _

theorem ofDigits_dropZeros (cs : List Char) :
    ofDigits (cs.dropWhile (· = '0')) = ofDigits cs := by
  induction cs with
  | nil => rfl
  | cons c r ih =>
    by_cases h : c = '0'
    · subst h
      rw [List.dropWhile_cons_of_pos (by simp), ih, ofDigits_cons]
      simp
    · rw [List.dropWhile_cons_of_neg (by simpa using h)]

theorem zero_eq_replicate : ['0'] = List.replicate 1 '0' := rfl

theorem ofDigits_zeros (n : Nat) : ofDigits (List.replicate n '0') = 0 := by
  simp [ofDigits, Nat.ofDigitChars_replicate_zero]

theorem ofDigits_append_zeros (cs : List Char) (n : Nat) :
    ofDigits (cs ++ List.replicate n '0') = ofDigits cs * tenTo n := by
  rw [ofDigits_append, ofDigits_zeros, List.length_replicate, Nat.add_zero, Nat.mul_comm]

theorem ofDigits_zeros_append (cs : List Char) (n : Nat) :
    ofDigits (List.replicate n '0' ++ cs) = ofDigits cs := by
  rw [ofDigits_append, ofDigits_zeros, Nat.mul_zero, Nat.zero_add]

/-- **No zero leads `natDigits n`** but the only digit of zero. -/
theorem natDigits_of_head? {n : Nat} (h : (natDigits n).head? = some '0') :
    natDigits n = ['0'] := by
  obtain ⟨r, hr⟩ := List.head?_eq_some_iff.1 h
  cases r with
  | nil => exact hr
  | cons c r =>
    -- without the zero the digits would be fewer, and they are no more than the number needs
    have hall : AllDigits (c :: r) :=
      (allDigits_natDigits n).of_subset (hr ▸ List.subset_cons_self _ _)
    have hlt : n < 10 ^ (c :: r).length := by
      rw [← ofDigits_natDigits n, hr, ← List.singleton_append, zero_eq_replicate,
        ofDigits_zeros_append]
      exact ofDigits_lt hall
    have hlength := (Nat.length_toDigits_le_iff (by decide) (Nat.succ_pos _)).2 hlt
    rw [show Nat.toDigits 10 n = '0' :: c :: r from hr] at hlength
    exact absurd hlength (Nat.not_succ_le_self _)

/-- The zeros at the end of `cs`, counted apart. -/
theorem exists_append_zeros (cs : List Char) :
    ∃ n, cs = (cs.reverse.dropWhile (· = '0')).reverse ++ List.replicate n '0' := by
  refine ⟨(cs.reverse.takeWhile (· = '0')).length, ?_⟩
  have hzeros : cs.reverse.takeWhile (· = '0') =
      List.replicate (cs.reverse.takeWhile (· = '0')).length '0' :=
    List.eq_replicate_of_mem fun c hc => by
      simpa using List.mem_takeWhile_imp hc
  rw [← List.reverse_replicate, ← hzeros, ← List.reverse_append, List.takeWhile_append_dropWhile,
    List.reverse_reverse]

end EmulatorSettings.Text
