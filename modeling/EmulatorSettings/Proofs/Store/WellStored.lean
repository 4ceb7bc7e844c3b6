import EmulatorSettings.Store.Settings

/-!
# Store — settings stand under their own identity

A setting carries its key, section and file, and so do the containers it lies in.  A container is
*well stored* when these agree all the way down.

* `Section.set_snd`: setting a key puts a setting of the section's own there.
* `FileSections.wellStored_modify`: work that keeps a section well stored keeps its file so.
* `FileSections.get?_set`, `exists_put`, `get?_remove`: what an operation does to the look-ups of a
  file, whatever sections were created on the way.
* `Settings.fileOrNew_modifyFile`: work on a file is work on its sections.
* `Settings.file?_put`: a setting that is taken goes into its own file only.
-/

namespace EmulatorSettings

/-! ### Sections -/

namespace Section

/-- Every setting stands under its own key and belongs to the section `s` and its file. -/
def WellStored (s : Section) : Prop :=
  ∀ k x, s.get? k = some x → x.key = k ∧ x.sectionName = s.name ∧ x.file = s.file

theorem wellStored_new (name : String) (file : SettingsFile) : (new name file).WellStored :=
  fun _ _ h => by cases h

/-- Setting a key puts a setting of the section's own there, whatever was there before. -/
theorem set_snd {s : Section} (h : s.WellStored) (k : String) (v : Value) :
    (s.set k v).2 = { s with settings := s.settings.insert k ⟨k, s.name, s.file, v⟩ } := by
  unfold set
  cases hx : s.get? k with
  | none => rfl
  | some x =>
      obtain ⟨hk, hn, hf⟩ := h k x hx
      obtain ⟨key, sectionName, file, value⟩ := x
      dsimp only at hk hn hf
      subst hk hn hf
      rfl

theorem wellStored_insert {s : Section} (h : s.WellStored) {x : Setting}
    (hn : x.sectionName = s.name) (hf : x.file = s.file) :
    WellStored { s with settings := s.settings.insert x.key x } := by
  intro k y hy
  rw [get?, Table.get?_insert] at hy
  split at hy
  · next hk => exact Option.some.inj hy ▸ ⟨hk.symm, hn, hf⟩
  · exact h k y hy

theorem wellStored_set {s : Section} (h : s.WellStored) (k : String) (v : Value) :
    (s.set k v).2.WellStored := by
  rw [set_snd h]
  exact wellStored_insert (x := ⟨k, s.name, s.file, v⟩) h rfl rfl

theorem get?_set_of_wellStored {s : Section} (h : s.WellStored) (k k' : String) (v : Value) :
    (s.set k v).2.get? k' = if k' = k then some ⟨k, s.name, s.file, v⟩ else s.get? k' := by
  rw [set_snd h]
  exact Table.get?_insert _ _ _ _

@[simp] theorem name_set (s : Section) (k : String) (v : Value) : (s.set k v).2.name = s.name := by
  unfold set; split <;> rfl

@[simp] theorem file_set (s : Section) (k : String) (v : Value) : (s.set k v).2.file = s.file := by
  unfold set; split <;> rfl

theorem get?_remove (s : Section) (k k' : String) :
    (s.remove k).2.get? k' = if k' = k then none else s.get? k' :=
  Table.get?_erase _ _ _

theorem wellStored_remove {s : Section} (h : s.WellStored) (k : String) :
    (s.remove k).2.WellStored := by
  intro k' x hx
  rw [get?_remove] at hx
  split at hx
  · cases hx
  · exact h k' x hx

theorem isEmpty_iff {s : Section} : s.isEmpty = true ↔ ∀ k, s.get? k = none :=
  Table.isEmpty_iff

end Section

/-! ### The sections of a file -/

namespace FileSections

/-- Every section of `m` stands under its own name, belongs to this file and is `WellStored`. -/
def WellStored (m : FileSections) : Prop :=
  ∀ n s, m.section? n = some s → s.name = n ∧ s.file = m.file ∧ s.WellStored

theorem wellStored_new (file : SettingsFile) : (new file).WellStored :=
  fun _ _ h => by cases h

/-- The section that `sectionOrNew n` finds or makes has the name `n`. -/
theorem sectionOrNew_spec {m : FileSections} (h : m.WellStored) (n : String) :
    (m.sectionOrNew n).name = n ∧ (m.sectionOrNew n).file = m.file ∧
      (m.sectionOrNew n).WellStored := by
  unfold sectionOrNew
  cases hs : m.section? n with
  | none => exact ⟨rfl, rfl, Section.wellStored_new n m.file⟩
  | some s => exact h n s hs

theorem get?_sectionOrNew (m : FileSections) (n k : String) :
    (m.sectionOrNew n).get? k = m.get? n k := by
  unfold sectionOrNew get?
  cases m.section? n <;> rfl

theorem wellStored_insert {m : FileSections} (h : m.WellStored) {n : String} {s : Section}
    (hs : s.name = n ∧ s.file = m.file ∧ s.WellStored) :
    WellStored { m with sections := m.sections.insert n s } := by
  intro n' s' hs'
  rw [section?, Table.get?_insert] at hs'
  split at hs'
  · next hn =>
      obtain rfl := Option.some.inj hs'
      exact ⟨hs.1.trans hn.symm, hs.2⟩
  · exact h n' s' hs'

theorem get?_insert (m : FileSections) (n : String) (s : Section) (n' k : String) :
    get? { m with sections := m.sections.insert n s } n' k =
      if n' = n then s.get? k else m.get? n' k := by
  rw [get?, section?, Table.get?_insert]
  split
  · rfl
  · rfl

/-- **Work on one section** that leaves its name and file alone and keeps it `WellStored` keeps the
whole file so. -/
theorem wellStored_modify {α : Type} {m : FileSections} (h : m.WellStored) {n : String}
    {work : Section → α × Section}
    (hwork : ∀ s : Section, s.WellStored →
      (work s).2.name = s.name ∧ (work s).2.file = s.file ∧ (work s).2.WellStored) :
    (m.modify n work).2.WellStored := by
  obtain ⟨hn, hf, hs⟩ := sectionOrNew_spec h n
  obtain ⟨hn', hf', hs'⟩ := hwork _ hs
  exact wellStored_insert h ⟨hn'.trans hn, hf'.trans hf, hs'⟩

theorem get?_modify {α : Type} (m : FileSections) (n : String) (work : Section → α × Section)
    (n' k : String) :
    (m.modify n work).2.get? n' k =
      if n' = n then (work (m.sectionOrNew n)).2.get? k else m.get? n' k :=
  get?_insert m n _ n' k

theorem wellStored_set {m : FileSections} (h : m.WellStored) (n k : String) (v : Value) :
    (m.set n k v).2.WellStored :=
  wellStored_modify h fun s hs =>
    ⟨s.name_set k v, s.file_set k v, Section.wellStored_set hs k v⟩

@[simp] theorem file_set (m : FileSections) (n k : String) (v : Value) :
    (m.set n k v).2.file = m.file := rfl

/-- **After `set n k v`** the look-up of `k` in `n` finds the new setting, and no other look-up
changes. -/
theorem get?_set {m : FileSections} (h : m.WellStored) (n k : String) (v : Value)
    (n' k' : String) :
    (m.set n k v).2.get? n' k' =
      if n' = n ∧ k' = k then some ⟨k, n, m.file, v⟩ else m.get? n' k' := by
  obtain ⟨hn, hf, hs⟩ := sectionOrNew_spec h n
  rw [set, get?_modify, Section.get?_set_of_wellStored hs, hn, hf, get?_sectionOrNew]
  by_cases hn' : n' = n
  · subst hn'
    simp only [if_true, true_and]
  · rw [if_neg hn', if_neg fun hc => hn' hc.1]

theorem wellStored_remove {m : FileSections} (h : m.WellStored) (n k : String) :
    (m.modify n fun s => s.remove k).2.WellStored :=
  wellStored_modify h fun _ hs => ⟨rfl, rfl, Section.wellStored_remove hs k⟩

/-- **Removing `k` from `n`** takes away the look-up of that key in that section, and no other. -/
theorem get?_remove (m : FileSections) (n k n' k' : String) :
    (m.modify n fun s => s.remove k).2.get? n' k' =
      if n' = n ∧ k' = k then none else m.get? n' k' := by
  rw [get?_modify, Section.get?_remove, get?_sectionOrNew]
  by_cases hn : n' = n
  · subst hn
    simp only [if_true, true_and]
  · rw [if_neg hn, if_neg fun hc => hn hc.1]

/-- A setting of this file is always taken by `put`, into the section it names. -/
theorem put_eq_ok {m : FileSections} (h : m.WellStored) {x : Setting} (hx : x.file = m.file) :
    m.put x = .ok (m.get? x.sectionName x.key, { m with
      sections := m.sections.insert x.sectionName { m.sectionOrNew x.sectionName with
        settings := (m.sectionOrNew x.sectionName).settings.insert x.key x } }) := by
  obtain ⟨hn, hf, -⟩ := sectionOrNew_spec h x.sectionName
  have hput := Section.put_eq_ok_iff.2 ⟨⟨hn.symm, hx.trans hf.symm⟩, rfl⟩
  rw [put, if_neg (fun hne => hne hx), hput, get?_sectionOrNew]
  rfl

/-- **Taking a setting `x`** puts it under its own section and key, and changes nothing else. -/
theorem exists_put {m : FileSections} (h : m.WellStored) {x : Setting} (hx : x.file = m.file) :
    ∃ m', m.put x = .ok (m.get? x.sectionName x.key, m') ∧ m'.file = m.file ∧ m'.WellStored ∧
      ∀ n k, m'.get? n k =
        if n = x.sectionName ∧ k = x.key then some x else m.get? n k := by
  obtain ⟨hn, hf, hs⟩ := sectionOrNew_spec h x.sectionName
  refine ⟨_, put_eq_ok h hx, rfl, ?_, fun n k => ?_⟩
  · exact wellStored_insert h
      ⟨hn, hf, Section.wellStored_insert hs hn.symm (hx.trans hf.symm)⟩
  · rw [get?_insert, Section.get?, Table.get?_insert]
    by_cases hn' : n = x.sectionName
    · subst hn'
      simp only [if_true, true_and]
      split
      · rfl
      · exact get?_sectionOrNew m _ k
    · rw [if_neg hn', if_neg fun hc => hn' hc.1]

/-- What `get? n k` finds is a setting of that identity. -/
theorem identity_of_get? {m : FileSections} (h : m.WellStored) {n k : String} {x : Setting}
    (hx : m.get? n k = some x) : x.key = k ∧ x.sectionName = n ∧ x.file = m.file := by
  obtain ⟨s, hs, hk⟩ := Option.bind_eq_some_iff.1 hx
  obtain ⟨hn, hf, hw⟩ := h n s hs
  obtain ⟨h₁, h₂, h₃⟩ := hw k x hk
  exact ⟨h₁, h₂.trans hn, h₃.trans hf⟩

end FileSections

/-! ### One file among all -/

namespace Settings

variable {α : Type} (s : Settings) (file : SettingsFile)

theorem fileOrNew_of_file? {s : Settings} {file : SettingsFile} {m : FileSections}
    (h : s.file? file = some m) : s.fileOrNew file = m := by
  rw [fileOrNew, h, Option.getD_some]

theorem file?_modifyFile_self (work : FileSections → α × FileSections) :
    (s.modifyFile file work).2.file? file = some (work (s.fileOrNew file)).2 := by
  rw [file?_modifyFile, if_pos rfl]

theorem fileOrNew_modifyFile (work : FileSections → α × FileSections) :
    (s.modifyFile file work).2.fileOrNew file = (work (s.fileOrNew file)).2 :=
  fileOrNew_of_file? (s.file?_modifyFile_self file work)

theorem fileOrNew_ensureFile : (s.ensureFile file).fileOrNew file = s.fileOrNew file :=
  s.fileOrNew_modifyFile file _

theorem file?_set (n k : String) (v : Value) :
    (s.set file n k v).2.file? file = some ((s.fileOrNew file).set n k v).2 :=
  s.file?_modifyFile_self file _

/-- Setting a key in the file `f` leaves every other file alone. -/
theorem file?_set_of_ne {f f' : SettingsFile} (h : f' ≠ f) (n k : String) (v : Value) :
    (s.set f n k v).2.file? f' = s.file? f' := by
  rw [set, modify, file?_modifyFile, if_neg h]

theorem file?_remove (n k : String) :
    (s.remove file n k).2.file? file =
      some ((s.fileOrNew file).modify n fun t => t.remove k).2 :=
  s.file?_modifyFile_self file _

/-- A setting that `put` takes goes into its own file, and into no other. -/
theorem file?_put {s : Settings} {x : Setting} {r : Option Setting × Settings}
    (h : s.put x = .ok r) (file : SettingsFile) :
    ∃ m, (s.fileOrNew x.file).put x = .ok (r.1, m) ∧
      r.2.file? file = if file = x.file then some m else s.file? file := by
  unfold put at h
  cases hput : (s.fileOrNew x.file).put x with
  | error e =>
      rw [hput] at h
      cases h
  | ok rm =>
      rw [hput] at h
      obtain rfl := Except.ok.inj h
      exact ⟨rm.2, rfl, Table.get?_insert _ _ _ _⟩

/-- What `trySet` answers is what `set` answers where both checks pass, and no answer otherwise. -/
theorem trySet_eq_ok {s : Settings} {n k : String} {v : Value} {r : Bool × Settings} :
    s.trySet file n k v = .ok r ↔
      checkName n = .ok () ∧ checkEntry k v = .ok () ∧ s.set file n k v = r := by
  unfold trySet
  cases hn : checkName n with
  | error e => simp [bind, Except.bind]
  | ok u =>
      cases hk : checkEntry k v with
      | error e => simp [bind, Except.bind]
      | ok u => simp [bind, Except.bind, pure, Except.pure]

end Settings

end EmulatorSettings
