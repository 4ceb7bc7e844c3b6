import EmulatorSettings.Proofs.Store.Operations
import EmulatorSettings.Proofs.Table.Building
import EmulatorSettings.Row.Controls

/-!
# Store — one flat map

Files, sections and keys are three maps inside each other, with parts that come into being when they
are first touched.  What can be seen of them is one finite map from addresses to values.

* `Table.get?_restrict`, `Table.get?_onTopOf`: a part of a table, and a table on top of another.
* `Section.get?_flat`, `FileSections.get?_flat`, `Settings.get?_flat`: the flat map of a section, of
  a file and of all files holds what the look-ups find.
-/

namespace EmulatorSettings

/-! ### Addresses in order -/

instance : Ord Address :=
  ⟨compareLex (compareOn Address.file)
    (compareLex (compareOn Address.sectionName) (compareOn Address.key))⟩

instance : Std.TransOrd Address :=
  inferInstanceAs (Std.TransCmp (compareLex (compareOn Address.file)
    (compareLex (compareOn Address.sectionName) (compareOn Address.key))))

namespace Address

variable {a b : Address}

/-- Addresses are compared by `file`, then by `sectionName`, then by `key`. -/
theorem compare_eq (a b : Address) :
    compare a b = (compare a.file b.file).then
      ((compare a.sectionName b.sectionName).then (compare a.key b.key)) := rfl

theorem lt_of_file (h : compare a.file b.file = .lt) : compare a b = .lt := by
  rw [compare_eq, h]
  rfl

theorem lt_of_sectionName (hf : a.file = b.file)
    (h : compare a.sectionName b.sectionName = .lt) : compare a b = .lt := by
  rw [compare_eq, hf, Std.compare_self, h]
  rfl

theorem lt_of_key (hf : a.file = b.file) (hn : a.sectionName = b.sectionName)
    (h : compare a.key b.key = .lt) : compare a b = .lt := by
  rw [compare_eq, hf, hn, Std.compare_self, Std.compare_self, h]
  rfl

end Address

instance : Std.LawfulEqOrd Address where
  eq_of_compare {a b} h := by
    rw [Address.compare_eq, Ordering.then_eq_eq, Ordering.then_eq_eq] at h
    obtain ⟨f, n, k⟩ := a
    obtain ⟨f', n', k'⟩ := b
    rw [Address.mk.injEq]
    exact ⟨Std.LawfulEqOrd.eq_of_compare h.1, Std.LawfulEqOrd.eq_of_compare h.2.1,
      Std.LawfulEqOrd.eq_of_compare h.2.2⟩

/-! ### Parts of a table, and tables on top of others -/

namespace Table

variable {κ α : Type} [Ord κ]

/-- The table `t` with only the keys that satisfy `p`. -/
def restrict (p : κ → Bool) (t : Table κ α) : Table κ α :=
  ⟨t.entries.filter fun e => p e.1, t.sorted.filter _⟩

/-- The entries of `t` on top of those of `u`. -/
def onTopOf [Std.TransOrd κ] (t u : Table κ α) : Table κ α :=
  t.entries.foldl (fun u e => u.insert e.1 e.2) u

/-- The lists that `f` makes of the entries of `t` are in order, one after the other, if each is and
the order of the entries carries over. -/
theorem pairwise_flatMap {ι β : Type} [Ord ι] {t : Table κ α} {f : κ × α → List (ι × β)}
    (hin : ∀ e ∈ t.entries, (f e).Pairwise fun x y => compare x.1 y.1 = .lt)
    (hacross : ∀ e e', compare e.1 e'.1 = .lt → ∀ x ∈ f e, ∀ y ∈ f e', compare x.1 y.1 = .lt) :
    (t.entries.flatMap f).Pairwise fun x y => compare x.1 y.1 = .lt :=
  List.pairwise_flatMap.2 ⟨hin, t.sorted.imp fun {e e'} h => hacross e e' h⟩

variable [Std.LawfulEqOrd κ]

theorem get?_restrict (p : κ → Bool) (t : Table κ α) (k : κ) :
    (t.restrict p).get? k = if p k then t.get? k else none := by
  refine Option.ext fun v => ?_
  rw [← mem_entries_iff, restrict, List.mem_filter, mem_entries_iff]
  by_cases h : p k = true <;> simp [h]

theorem get?_onTopOf [Std.TransOrd κ] [DecidableEq κ] (t u : Table κ α) (k : κ) :
    (t.onTopOf u).get? k = (t.get? k).or (u.get? k) :=
  foldl_insert_find t.sorted u k

end Table

/-! ### The flat map -/

/-- The settings of all files as one finite map from addresses to values. -/
abbrev Flat := Table Address Value

/-- The settings of the section `s`, at the addresses under `f` and `n`. -/
def Section.flat (s : Section) (f : SettingsFile) (n : String) : Flat where
  entries := s.settings.entries.map fun e => (⟨f, n, e.1⟩, e.2.value)
  sorted := s.settings.sorted.map _ fun _ _ h => Address.lt_of_key rfl rfl h

theorem Section.mem_flat {s : Section} {f : SettingsFile} {n : String} {a : Address} {v : Value} :
    (a, v) ∈ (s.flat f n).entries ↔
      a.file = f ∧ a.sectionName = n ∧ (s.get? a.key).map (·.value) = some v := by
  obtain ⟨f', n', k⟩ := a
  simp only [flat, List.mem_map, Prod.mk.injEq, Address.mk.injEq, Prod.exists,
    Table.mem_entries_iff, Option.map_eq_some_iff, get?]
  constructor
  · rintro ⟨k', x, hx, ⟨rfl, rfl, rfl⟩, rfl⟩
    exact ⟨rfl, rfl, x, hx, rfl⟩
  · rintro ⟨rfl, rfl, x, hx, rfl⟩
    exact ⟨k, x, hx, ⟨rfl, rfl, rfl⟩, rfl⟩

/-- The settings of the sections `m`, at the addresses under `f`. -/
def FileSections.flat (m : FileSections) (f : SettingsFile) : Flat where
  entries := m.sections.entries.flatMap fun e => (e.2.flat f e.1).entries
  sorted := by
    refine Table.pairwise_flatMap (fun e _ => (e.2.flat f e.1).sorted) fun e e' h x hx y hy => ?_
    obtain ⟨hxf, hxn, -⟩ := Section.mem_flat.1 hx
    obtain ⟨hyf, hyn, -⟩ := Section.mem_flat.1 hy
    exact Address.lt_of_sectionName (hxf.trans hyf.symm) (by rwa [hxn, hyn])

theorem FileSections.mem_flat {m : FileSections} {f : SettingsFile} {a : Address} {v : Value} :
    (a, v) ∈ (m.flat f).entries ↔
      a.file = f ∧ (m.get? a.sectionName a.key).map (·.value) = some v := by
  simp only [flat, List.mem_flatMap, Prod.exists, Section.mem_flat]
  simp only [Table.mem_entries_iff, get?]
  constructor
  · rintro ⟨n, s, hs, rfl, rfl, hv⟩
    exact ⟨rfl, by rw [section?, hs]; exact hv⟩
  · rintro ⟨rfl, hv⟩
    cases hs : m.section? a.sectionName with
    | none =>
        rw [hs] at hv
        cases hv
    | some s =>
        rw [hs] at hv
        exact ⟨a.sectionName, s, hs, rfl, rfl, hv⟩

/-- The settings of all files, each at its address. -/
def Settings.flat (s : Settings) : Flat where
  entries := s.files.entries.flatMap fun e => (e.2.flat e.1).entries
  sorted := by
    refine Table.pairwise_flatMap (fun e _ => (e.2.flat e.1).sorted) fun e e' h x hx y hy => ?_
    have hxf := (FileSections.mem_flat.1 hx).1
    have hyf := (FileSections.mem_flat.1 hy).1
    exact Address.lt_of_file (by rwa [hxf, hyf])

theorem Section.get?_flat (s : Section) (f : SettingsFile) (n : String) (a : Address) :
    (s.flat f n).get? a =
      if a.file = f ∧ a.sectionName = n then (s.get? a.key).map (·.value) else none := by
  refine Option.ext fun v => ?_
  rw [← Table.mem_entries_iff, Section.mem_flat, ← and_assoc]
  split
  · next h => exact and_iff_right h
  · next h => simp [h]

theorem FileSections.get?_flat (m : FileSections) (f : SettingsFile) (a : Address) :
    (m.flat f).get? a =
      if a.file = f then (m.get? a.sectionName a.key).map (·.value) else none := by
  refine Option.ext fun v => ?_
  rw [← Table.mem_entries_iff, FileSections.mem_flat]
  split
  · next h => exact and_iff_right h
  · next h => simp [h]

/-- **The flat map** holds what `get?` finds, and nothing else. -/
theorem Settings.get?_flat (s : Settings) (a : Address) :
    s.flat.get? a = (s.get? a.file a.sectionName a.key).map (·.value) := by
  refine Option.ext fun v => ?_
  rw [← Table.mem_entries_iff, ← get?_fileOrNew, fileOrNew]
  simp only [flat, List.mem_flatMap, Prod.exists, FileSections.mem_flat]
  simp only [Table.mem_entries_iff]
  constructor
  · rintro ⟨f, m, hm, rfl, hv⟩
    rw [file?, hm]
    exact hv
  · intro hv
    cases hm : s.file? a.file with
    | none =>
        rw [hm] at hv
        cases hv
    | some m =>
        rw [hm] at hv
        exact ⟨a.file, m, hm, rfl, hv⟩

end EmulatorSettings
