import EmulatorSettings.Proofs.Binary32.FileText

/-!
# Values — the written text reads back

* `ofText_written_int`, `ofText_written_float`: a whole number and a finite binary number are read
  back from their written text, the latter with its sign and every bit.
* `ofText_written_ofText`: a value that was read from a text is read back from the text it is
  written as.
* `written_ofText`: what is read stays as it is, or is written with digits, `-` and `.` only.
* `written_ofText_eq_iff`: the texts that stay as they are.
* `written_lossless`: the text of a value loses nothing of it, whatever its kind.
-/

namespace EmulatorSettings.Value

open Binary32 (signText)
open Binary32.Literal (takeSign takeSign_signText)

/-! ### Whole numbers -/

theorem takeSign_natDigits (n : Nat) :
    takeSign (Text.natDigits n) = (false, Text.natDigits n) := by
  obtain ⟨c, r, hcons⟩ := List.exists_cons_of_ne_nil (Text.natDigits_ne_nil n)
  rw [hcons]
  refine takeSign_signText false (Text.isDigit_of_mem_natDigits (n := n) ?_)
  rw [hcons]
  exact List.mem_cons_self

theorem all_isDigit_natDigits (n : Nat) : (Text.natDigits n).all Char.isDigit = true :=
  List.all_eq_true.2 (Text.allDigits_natDigits n)

theorem numeral?_intDigits (i : Int) : numeral? (Text.intDigits i) = some i := by
  unfold numeral?
  cases i with
  | ofNat n =>
      rw [Text.intDigits, takeSign_natDigits]
      dsimp only
      rw [if_pos ⟨Text.natDigits_ne_nil n, all_isDigit_natDigits n⟩, Text.ofDigits_natDigits]
      rfl
  | negSucc n =>
      rw [Text.intDigits, takeSign]
      dsimp only
      rw [if_pos ⟨Text.natDigits_ne_nil _, all_isDigit_natDigits _⟩, Text.ofDigits_natDigits]
      rfl

theorem int32?_toInt (n : Int32) : int32? n.toInt = some n := by
  rw [int32?, if_pos ⟨Int32.le_toInt n, Int32.toInt_lt n⟩, Int32.ofInt_toInt]

/-- **A whole number `n`** is read back from its written text. -/
theorem ofText_written_int (n : Int32) : ofText (written (int n)) = int n := by
  have hread : (numeral? (written (int n)).toList).bind int32? = some n := by
    rw [written, String.toList_ofList, numeral?_intDigits, Option.bind_some, int32?_toInt]
  rw [ofText, hread]

/-! ### Binary numbers -/

/-- A text with more than digits in it is not the numeral of a whole number. -/
theorem numeral?_eq_none_of_mem (negative : Bool) {c : Char} {cs : List Char}
    (hc : c.isDigit = true) {x : Char} (hx : x ∈ cs) (hdigit : x.isDigit = false) :
    numeral? (signText negative ++ c :: cs) = none := by
  unfold numeral?
  rw [takeSign_signText negative hc]
  dsimp only
  refine if_neg fun h => ?_
  have hdigit' := List.all_eq_true.1 h.2 x (List.mem_cons_of_mem c hx)
  exact absurd (hdigit'.symm.trans hdigit) (by decide)

theorem numeral?_fileText (s : Bool) (n : Fin 0x7F800000) :
    numeral? (Binary32.finite s n).fileText = none := by
  obtain ⟨whole, fraction, htext, hw, hne, -, -⟩ := Binary32.exists_fileText s n
  obtain ⟨c, r, rfl⟩ := List.exists_cons_of_ne_nil hne
  rw [htext]
  exact numeral?_eq_none_of_mem s (hw c List.mem_cons_self)
    (List.mem_append_right r List.mem_cons_self) (by decide)

/-- **A finite binary number `x`** is read back from its written text, sign and all. -/
theorem ofText_written_float {x : Binary32} (h : x.isFinite = true) :
    ofText (written (float x)) = float x := by
  cases x with
  | nan => cases h
  | infinity s => cases h
  | finite s n =>
      obtain ⟨l, hl, hvalue⟩ := Binary32.ofChars?_fileText s n
      have hread : finiteLiteral? (Binary32.finite s n).fileText = some (.finite s n) := by
        rw [finiteLiteral?, hl, Option.bind_some, hvalue]
        rfl
      rw [ofText, written, String.toList_ofList, numeral?_fileText, hread]
      rfl

/-- **The value `ofText raw`** is read back from the text it is written as. -/
theorem ofText_written_ofText (raw : String) : ofText (ofText raw).written = ofText raw := by
  -- by the kind that was read: a text is only ever read from itself
  cases h : ofText raw with
  | int n => exact ofText_written_int n
  | float x => exact ofText_written_float (isFinite_of_ofText_eq_float h)
  | text s =>
      obtain rfl := eq_of_ofText_eq_text h
      exact h

/-! ### The characters of a written number -/

theorem mem_intDigits {i : Int} {c : Char} (h : c ∈ Text.intDigits i) :
    c.isDigit = true ∨ c = '-' ∨ c = '.' := by
  cases i with
  | ofNat n => exact .inl (Text.isDigit_of_mem_natDigits h)
  | negSucc n =>
      rcases List.mem_cons.1 h with rfl | h
      · exact .inr (.inl rfl)
      · exact .inl (Text.isDigit_of_mem_natDigits h)

theorem intDigits_ne_nil (i : Int) : Text.intDigits i ≠ [] := by
  cases i with
  | ofNat n => exact Text.natDigits_ne_nil n
  | negSucc n => exact List.cons_ne_nil _ _

theorem fileText_ne_nil (s : Bool) (n : Fin 0x7F800000) :
    (Binary32.finite s n).fileText ≠ [] := by
  obtain ⟨whole, fraction, htext, -, hne, -, -⟩ := Binary32.exists_fileText s n
  rw [htext]
  exact List.append_ne_nil_of_right_ne_nil _ (List.append_ne_nil_of_left_ne_nil hne _)

/-- What `ofText` reads stays the text `raw` or is a number, whose written text is not empty and
holds digits, `-` and `.` only. -/
theorem written_ofText (raw : String) :
    (ofText raw).written = raw ∨ (ofText raw).written.toList ≠ [] ∧
      ∀ c ∈ (ofText raw).written.toList, c.isDigit = true ∨ c = '-' ∨ c = '.' := by
  cases h : ofText raw with
  | int n =>
      rw [written, String.toList_ofList]
      exact .inr ⟨intDigits_ne_nil _, fun _ => mem_intDigits⟩
  | float x =>
      cases x with
      | nan => exact absurd h (ofText_ne_nan raw)
      | infinity s => exact absurd h (ofText_ne_infinity raw s)
      | finite s n =>
          rw [written, String.toList_ofList]
          exact .inr ⟨fileText_ne_nil s n, fun _ => Binary32.mem_fileText⟩
  | text s => exact .inl (eq_of_ofText_eq_text h)

/-! ### The texts that stay as they are -/

theorem ofText_eq_text_iff {raw : String} :
    ofText raw = text raw ↔
      (numeral? raw.toList).bind int32? = none ∧ finiteLiteral? raw.toList = none := by
  unfold ofText
  cases (numeral? raw.toList).bind int32? with
  | some n => exact ⟨nofun, fun h => by cases h.1⟩
  | none =>
      cases finiteLiteral? raw.toList with
      | some x => exact ⟨nofun, fun h => by cases h.2⟩
      | none => exact ⟨fun _ => ⟨rfl, rfl⟩, fun _ => rfl⟩

/-- A text that is written as it was read: the text of a whole number, that of a finite binary
number, or one that is neither the numeral of a number of 32 bits nor a literal of a finite one. -/
inductive Canonical : String → Prop where
  | int (n : Int32) : Canonical (int n).written
  | float (s : Bool) (n : Fin 0x7F800000) : Canonical (float (.finite s n)).written
  | text {raw : String} (hwhole : (numeral? raw.toList).bind int32? = none)
      (hliteral : finiteLiteral? raw.toList = none) : Canonical raw

/-- **The texts that stay as they are**, read by `ofText` and written again, are `Canonical`. -/
theorem written_ofText_eq_iff {raw : String} : (ofText raw).written = raw ↔ Canonical raw := by
  constructor
  · intro h
    cases hread : ofText raw with
    | int n =>
        rw [← h, hread]
        exact .int n
    | float x =>
        cases x with
        | nan => exact absurd hread (ofText_ne_nan raw)
        | infinity s => exact absurd hread (ofText_ne_infinity raw s)
        | finite s n =>
            rw [← h, hread]
            exact .float s n
    | text s =>
        obtain rfl := eq_of_ofText_eq_text hread
        obtain ⟨hwhole, hliteral⟩ := ofText_eq_text_iff.1 hread
        exact .text hwhole hliteral
  · intro h
    cases h with
    | int n => rw [ofText_written_int]
    | float s n => rw [ofText_written_float rfl]
    | text hwhole hliteral => rw [ofText_eq_text_iff.2 ⟨hwhole, hliteral⟩, written]

/-! ### Nothing is lost -/

/-- **The text of a value loses nothing.** A whole number `n` reads back as itself.  A finite binary
number, a zero or a subnormal one too, is written as digits around a point after its sign, and reads
back with its sign and every bit.  What `ofText` reads from any text reads back from the text it is
written as. -/
theorem written_lossless :
    (∀ n, ofText (written (int n)) = int n) ∧
    (∀ s n, (∃ whole fraction, (written (float (.finite s n))).toList =
          signText s ++ (whole ++ '.' :: fraction) ∧
        Text.AllDigits whole ∧ whole ≠ [] ∧ Text.AllDigits fraction) ∧
      ofText (written (float (.finite s n))) = float (.finite s n)) ∧
    ∀ raw, ofText (ofText raw).written = ofText raw := by
  refine ⟨ofText_written_int, fun s n => ⟨?_, ofText_written_float rfl⟩, ofText_written_ofText⟩
  obtain ⟨whole, fraction, htext, hw, hne, hf, -⟩ := Binary32.exists_fileText s n
  exact ⟨whole, fraction, (String.toList_ofList).trans htext, hw, hne, hf⟩

end EmulatorSettings.Value
