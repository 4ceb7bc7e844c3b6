import EmulatorSettings.Proofs.Value.RoundTrip

/-!
# Values — the two notions of the same value

A value can be the same as another by comparison, as `equals` decides it, or by kind and written
text, as the file shows it.

* `Binary32.fileText_injective`, `eq_of_written`: kind and written text determine a value.
* `equals_iff_alike`: the comparison agrees with that, except that it takes the two zeros for equal
  and NaN for different from itself.
-/

namespace EmulatorSettings

namespace Binary32

/-- A word with a letter is not the `fileText` of a finite number. -/
theorem fileText_finite_ne {s : Bool} {n : Fin 0x7F800000} {c : Char} {cs : List Char}
    (hc : c ∈ cs) (hletter : ¬ (c.isDigit = true ∨ c = '-' ∨ c = '.')) :
    (finite s n).fileText ≠ cs := fun h =>
  hletter (mem_fileText (s := s) (n := n) (h ▸ hc))

/-- **The `fileText` of a binary number** determines the number, the sign of a zero too. -/
theorem fileText_injective {x y : Binary32} (h : x.fileText = y.fileText) : x = y := by
  cases x with
  | nan =>
      cases y with
      | nan => rfl
      | infinity t => cases t <;> cases h
      | finite t n =>
          exact absurd h.symm (fileText_finite_ne (c := 'N') List.mem_cons_self (by decide))
  | infinity s =>
      have hmem : 'i' ∈ (infinity s).fileText := List.mem_append_right _ List.mem_cons_self
      cases y with
      | nan => cases s <;> cases h
      | infinity t => cases s <;> cases t <;> first | rfl | cases h
      | finite t n => exact absurd h.symm (fileText_finite_ne hmem (by decide))
  | finite s m =>
      cases y with
      | nan => exact absurd h (fileText_finite_ne (c := 'N') List.mem_cons_self (by decide))
      | infinity t =>
          have hmem : 'i' ∈ (infinity t).fileText := List.mem_append_right _ List.mem_cons_self
          exact absurd h (fileText_finite_ne hmem (by decide))
      | finite t n =>
          -- both are what their common text reads as
          obtain ⟨l, hl, hlvalue⟩ := ofChars?_fileText s m
          obtain ⟨l', hl', hlvalue'⟩ := ofChars?_fileText t n
          rw [h, hl'] at hl
          rw [← hlvalue, ← hlvalue', Option.some.inj hl]

end Binary32

namespace Value

theorem sameKind_self (v : Value) : v.sameKind v = true := by
  cases v <;> rfl

/-- **The kind and the written text** determine a value. -/
theorem eq_of_written {v w : Value} (hkind : v.sameKind w = true) (h : v.written = w.written) :
    v = w := by
  cases v with
  | int m =>
      cases w with
      | int n => rw [← ofText_written_int m, h, ofText_written_int]
      | float y => cases hkind
      | text t => cases hkind
  | float x =>
      cases w with
      | int n => cases hkind
      | float y => exact congrArg float (Binary32.fileText_injective (String.ofList_injective h))
      | text t => cases hkind
  | text s =>
      cases w with
      | int n => cases hkind
      | float y => cases hkind
      | text t => exact congrArg text h

/-- The values `v` and `w` are the zeros of the two signs. -/
def OppositeZeros (v w : Value) : Prop :=
  ∃ negative, v = float (.signedZero negative) ∧ w = float (.signedZero !negative)

theorem OppositeZeros.equals {v w : Value} (h : v.OppositeZeros w) : v.equals w = true := by
  obtain ⟨negative, rfl, rfl⟩ := h
  cases negative <;> rfl

theorem OppositeZeros.written_ne {v w : Value} (h : v.OppositeZeros w) :
    v.written ≠ w.written := by
  obtain ⟨negative, rfl, rfl⟩ := h
  intro heq
  have hzeros := Binary32.fileText_injective (String.ofList_injective heq)
  cases negative <;> cases hzeros

/-- **What `equals` takes for equal**: the same value unless it is NaN, and the two zeros. -/
theorem equals_iff_alike {v w : Value} :
    v.equals w = true ↔ (v = w ∧ v ≠ float .nan) ∨ v.OppositeZeros w := by
  constructor
  · intro h
    by_cases hzero : ∃ s, v = float (.signedZero s)
    · obtain ⟨s, rfl⟩ := hzero
      cases w with
      | int n => cases h
      | text t => cases h
      | float y =>
          cases y with
          | nan => cases h
          | infinity t => cases h
          | finite t n =>
              -- the ordinals are equal, so the other one is a zero too
              obtain ⟨hn, -⟩ := Bool.and_eq_true_iff.1 h
              obtain rfl : 0 = n := of_decide_eq_true hn
              by_cases hs : t = s
              · exact .inl ⟨hs ▸ rfl, nofun⟩
              · exact .inr ⟨s, rfl, by rw [← Bool.eq_not.2 hs]; rfl⟩
    · have hnan : v ≠ float .nan := by
        rintro rfl
        cases w <;> cases h
      exact .inl ⟨(equals_iff hnan fun s hs => hzero ⟨s, hs⟩).1 h, hnan⟩
  · rintro (⟨rfl, hnan⟩ | h)
    · cases v with
      | int n => exact beq_self_eq_true n
      | text s => exact beq_self_eq_true s
      | float x =>
          cases x with
          | nan => exact absurd rfl hnan
          | infinity s => exact beq_self_eq_true s
          | finite s n => simp [equals, Binary32.equals]
    · exact h.equals

end Value

end EmulatorSettings
