import EmulatorSettings.Proofs.Ini.RoundTrip
import EmulatorSettings.Proofs.Value.Distinct

/-!
# Store — what an edit reports

An edit tells whether it changed something.  When it says no, the text of the file is the one it
was, with one exception: a zero set over the zero of the other sign is reported as no change.

* `FileSections.set_eq_self`: a key that is set without a change, to anything but a zero, leaves
  the sections as they were.
* `FileSections.write_remove`: a key that is removed where there was none leaves the text as it was,
  though it may have created an empty section.
-/

namespace EmulatorSettings

/-- Numbers that `equals` takes for equal, and that are no zeros, are the same. -/
theorem Value.eq_of_equals {v w : Value} (hzero : ∀ s, w ≠ float (.signedZero s))
    (h : v.equals w = true) : v = w := by
  rcases equals_iff_alike.1 h with ⟨heq, -⟩ | ⟨s, -, hw⟩
  · exact heq
  · exact absurd hw (hzero _)

theorem Table.insert_eq_self {κ α : Type} [Ord κ] [Std.LawfulEqOrd κ] [Std.TransOrd κ]
    [DecidableEq κ] {t : Table κ α} {k : κ} {a : α} (h : t.get? k = some a) : t.insert k a = t := by
  refine ext_get? fun k' => ?_
  rw [get?_insert]
  split
  · next hk => rw [hk, h]
  · rfl

/-- The flag of `set` reports a change unless a value is there that `equals` the new one. -/
theorem Section.fst_set (s : Section) (k : String) (v : Value) :
    (s.set k v).1 = (s.get? k).elim true fun x => !x.value.equals v := by
  unfold set
  cases s.get? k <;> rfl

theorem Section.set_value_self {s : Section} {k : String} {x : Setting} (hx : s.get? k = some x) :
    (s.set k x.value).2 = s := by
  rw [Section.set, hx]
  exact congrArg (Section.mk s.name s.file) (Table.insert_eq_self hx)

theorem Table.erase_eq_self {κ α : Type} [Ord κ] [Std.LawfulEqOrd κ] [Std.TransOrd κ]
    [DecidableEq κ] {t : Table κ α} {k : κ} (h : t.get? k = none) : t.erase k = t := by
  refine ext_get? fun k' => ?_
  rw [get?_erase]
  split
  · next hk => rw [hk, h]
  · rfl

namespace FileSections

theorem sectionOrNew_of_section? {m : FileSections} {n : String} {s : Section}
    (hs : m.section? n = some s) : m.sectionOrNew n = s := by
  rw [sectionOrNew, hs, Option.getD_some]

theorem sectionOrNew_of_none {m : FileSections} {n : String} (hs : m.section? n = none) :
    m.sectionOrNew n = .new n m.file := by
  rw [sectionOrNew, hs, Option.getD_none]

theorem snd_modify {α : Type} (m : FileSections) (n : String) (work : Section → α × Section) :
    (m.modify n work).2 =
      { m with sections := m.sections.insert n (work (m.sectionOrNew n)).2 } := rfl

theorem fst_set (m : FileSections) (n k : String) (v : Value) :
    (m.set n k v).1 = (m.get? n k).elim true fun x => !x.value.equals v := by
  rw [set, modify]
  exact (Section.fst_set _ _ _).trans (by rw [get?_sectionOrNew])

/-- A change that is not reported is one of a value to one that `equals` it. -/
theorem exists_equals_of_fst_set {m : FileSections} {n k : String} {v : Value}
    (h : (m.set n k v).1 = false) : ∃ x, m.get? n k = some x ∧ x.value.equals v = true := by
  rw [fst_set] at h
  cases hx : m.get? n k with
  | none =>
      rw [hx] at h
      cases h
  | some x =>
      rw [hx] at h
      exact ⟨x, rfl, (Bool.not_eq_false' _).mp h⟩

/-- Setting a key to the value it has does nothing. -/
theorem set_value_self {m : FileSections} {n k : String} {x : Setting}
    (hx : m.get? n k = some x) : (m.set n k x.value).2 = m := by
  obtain ⟨s, hs, hk⟩ := Option.bind_eq_some_iff.1 hx
  rw [set, snd_modify, sectionOrNew_of_section? hs, Section.set_value_self hk,
    Table.insert_eq_self hs]

/-- **A `set` that reports no change**, to anything but a zero, does nothing. -/
theorem set_eq_self {m : FileSections} {n k : String} {v : Value}
    (hzero : ∀ b, v ≠ .float (.signedZero b)) (h : (m.set n k v).1 = false) :
    (m.set n k v).2 = m := by
  obtain ⟨x, hx, heq⟩ := exists_equals_of_fst_set h
  obtain rfl := Value.eq_of_equals hzero heq
  exact set_value_self hx

/-- **Removing a key that is not there** may create its section, which leaves no trace in
`Ini.write`. -/
theorem write_remove {m : FileSections} {n k : String} (h : m.get? n k = none) :
    Ini.write (m.modify n fun s => s.remove k).2 = Ini.write m := by
  have hwork : ((m.sectionOrNew n).remove k).2 = m.sectionOrNew n :=
    congrArg (Section.mk _ _) (Table.erase_eq_self ((get?_sectionOrNew m n k).trans h))
  have hempty : (m.modify n fun s => s.remove k).2.withoutEmpty = m.withoutEmpty := by
    refine congrArg (FileSections.mk m.file) (Table.ext_get? fun n' => ?_)
    rw [Table.get?_filterValues, Table.get?_filterValues, snd_modify, hwork, Table.get?_insert]
    split
    · next hn =>
      subst hn
      cases hs : m.section? n' with
      | none =>
          -- the section was created, and is empty
          rw [section?] at hs
          rw [sectionOrNew_of_none hs, hs]
          rfl
      | some s =>
          rw [section?] at hs
          rw [sectionOrNew_of_section? hs, hs]
    · rfl
  rw [← Ini.write_withoutEmpty, hempty, Ini.write_withoutEmpty]

end FileSections

end EmulatorSettings
