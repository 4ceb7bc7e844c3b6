import EmulatorSettings.Proofs.Ini.Readable
import EmulatorSettings.Proofs.Value.Numerals

/-!
# Values — texts that read as numbers

A text that reads as a number, a whole one or a binary one, has no characters but digits, signs, a
point and the mark of a power of ten.

* `Literal.mem_of_ofChars?`: the characters of a decimal literal.
* `mem_of_ofText_ne_text`: the characters of a text that reads as a number.
* `presentable_of_ofText_ne_text`: so such a text is one line without blanks at its ends.
-/

namespace EmulatorSettings

/-- The character `c` may stand in a decimal literal. -/
def Binary32.Literal.IsMark (c : Char) : Prop :=
  c.isDigit = true ∨ c ∈ ['+', '-', '.', 'e', 'E']

namespace Binary32.Literal

variable {cs : List Char} {c : Char}

theorem mem_takeSign (h : c ∈ cs) : IsMark c ∨ c ∈ (takeSign cs).2 := by
  unfold takeSign
  split
  · exact (List.mem_cons.1 h).imp_left fun hc => .inr (by rw [hc]; decide)
  · exact (List.mem_cons.1 h).imp_left fun hc => .inr (by rw [hc]; decide)
  · exact .inr h

theorem isMark_of_all (hall : cs.all Char.isDigit = true) (h : c ∈ cs) : IsMark c :=
  .inl (List.all_eq_true.1 hall c h)

theorem isMark_of_takeWhile (h : c ∈ cs.takeWhile Char.isDigit) : IsMark c :=
  isMark_of_all List.all_takeWhile h

theorem mem_takeFraction (h : c ∈ cs) : IsMark c ∨ c ∈ (takeFraction cs).2 := by
  unfold takeFraction
  split
  · next r =>
    rcases List.mem_cons.1 h with rfl | h
    · exact .inl (.inr (by decide))
    · rw [← List.takeWhile_append_dropWhile (p := Char.isDigit) (l := r)] at h
      exact (List.mem_append.1 h).imp_left isMark_of_takeWhile
  · exact .inr h

/-- The characters of a power of ten are `IsMark`. -/
theorem mem_of_readExponent {i : Int} (hread : readExponent cs = some i) (h : c ∈ cs) :
    IsMark c := by
  cases cs with
  | nil => cases h
  | cons e r =>
      unfold readExponent at hread
      dsimp only at hread
      split at hread
      · next hexp =>
        obtain ⟨he, -, hdigits⟩ := hexp
        rcases List.mem_cons.1 h with rfl | h
        · rcases he with rfl | rfl <;> exact .inr (by decide)
        · exact (mem_takeSign h).elim id (isMark_of_all hdigits)
      · cases hread

/-- **The characters of a decimal literal** are `IsMark`. -/
theorem mem_of_ofChars? {l : Literal} (hread : ofChars? cs = some l) (h : c ∈ cs) : IsMark c := by
  unfold ofChars? at hread
  dsimp only at hread
  split at hread
  · cases hread
  · obtain ⟨e, he, -⟩ := Option.map_eq_some_iff.1 hread
    -- sign, digits, fraction and power of ten, one after the other
    rcases mem_takeSign h with hmark | hbody
    · exact hmark
    · rw [← List.takeWhile_append_dropWhile (p := Char.isDigit) (l := (takeSign cs).2)] at hbody
      rcases List.mem_append.1 hbody with hwhole | hrest
      · exact isMark_of_takeWhile hwhole
      · exact (mem_takeFraction hrest).elim id (mem_of_readExponent he)

end Binary32.Literal

namespace Value

open Binary32.Literal (IsMark mem_takeSign isMark_of_all mem_of_ofChars?)

theorem mem_of_numeral? {cs : List Char} {i : Int} (hread : numeral? cs = some i) {c : Char}
    (h : c ∈ cs) : IsMark c := by
  unfold numeral? at hread
  dsimp only at hread
  split at hread
  · next hdigits => exact (mem_takeSign h).elim id (isMark_of_all hdigits.2)
  · cases hread

/-- **The characters of a text that `ofText` reads as a number** are `IsMark`. -/
theorem mem_of_ofText_ne_text {raw : String} (hread : ofText raw ≠ text raw) {c : Char}
    (h : c ∈ raw.toList) : IsMark c := by
  rw [Ne, ofText_eq_text_iff, not_and_or] at hread
  rcases hread with hwhole | hliteral
  · obtain ⟨n, hn⟩ := Option.ne_none_iff_exists'.1 hwhole
    obtain ⟨i, hi, -⟩ := Option.bind_eq_some_iff.1 hn
    exact mem_of_numeral? hi h
  · obtain ⟨x, hx⟩ := Option.ne_none_iff_exists'.1 hliteral
    obtain ⟨l, hl, -⟩ := Option.bind_eq_some_iff.1 hx
    exact mem_of_ofChars? hl h

/-- **A text that `ofText` reads as a number** is one line without blanks at its ends. -/
theorem presentable_of_ofText_ne_text {raw : String} (hread : ofText raw ≠ text raw) :
    Ini.Presentable raw.toList := by
  refine Ini.presentable_of_chars ?_ fun c hc => ?_
  · intro hnil
    obtain rfl := String.toList_eq_nil_iff.1 hnil
    exact hread (by decide)
  · rcases mem_of_ofText_ne_text hread hc with hd | hm
    · refine ⟨Ini.isBlank_of_number (.inl hd), ?_⟩
      rintro rfl
      exact absurd hd (by decide)
    · have hmarks : ['+', '-', '.', 'e', 'E'].all
          (fun m => decide (Text.isBlank m = false ∧ m ≠ ']')) = true := by decide
      exact of_decide_eq_true (List.all_eq_true.1 hmarks c hm)

end Value

end EmulatorSettings
