import EmulatorSettings.Proofs.Storage.Paths

/-!
# Storage — the text of a saved file

* `run_loadIni`, `run_loadIni_error`: a file that can be read is loaded as the sections of its text,
  and nothing on the disk changes.
* `cases_saveIni`: a save makes directories, and then writes the file or stops.
* `readText_of_saveIni`: after a save that succeeds the file holds the text of what was saved.
* `readText_elsewhere_of_saveIni`: the files of other names hold what they held.
-/

namespace EmulatorSettings

namespace Repository

variable {l : Layout} {file : SettingsFile} {path : String} {t t' : Tree}

/-- A program over a disk goes on by `f` with what its first action `x` answered and left. -/
theorem run_bind_of_run {σ α β : Type} {x : StateM σ α} {f : α → StateM σ β} {s s' : σ} {a : α}
    (h : x.run s = (a, s')) : (x >>= f).run s = (f a).run s' := by
  rw [StateT.run_bind, h]
  rfl

/-! ### Loading and saving -/

theorem run_loadIni (hpath : l.settingsPath file = .ok path) {text : String}
    (htext : t.readText path = .ok text) :
    (loadIni Tree.disk l file).run t = (.ok (Ini.read file text).sections, t) := by
  have hread : (Tree.disk.readText path).run t = (.ok text, t) := congrArg (·, t) htext
  rw [loadIni, hpath]
  dsimp only
  rw [run_bind_of_run hread]
  rfl

theorem run_loadIni_error (hpath : l.settingsPath file = .ok path) {cause : DiskError}
    (herror : t.readText path = .error cause) :
    (loadIni Tree.disk l file).run t =
      (.error (if cause = .notFound then .notFound path else .disk path cause), t) := by
  have hread : (Tree.disk.readText path).run t = (.error cause, t) := congrArg (·, t) herror
  rw [loadIni, hpath]
  dsimp only
  rw [run_bind_of_run hread]
  cases cause <;> rfl

/-- A file without a `settingsPath` is neither loaded nor saved. -/
theorem run_of_settingsPath_eq_error {e : StorageError} (hpath : l.settingsPath file = .error e)
    (m : FileSections) (t : Tree) :
    (loadIni Tree.disk l file).run t = (.error e, t) ∧
      (saveIni Tree.disk l file m).run t = (.error e, t) := by
  rw [loadIni, saveIni, hpath]
  exact ⟨rfl, rfl⟩

theorem run_writeText_ok {text : String} (h : t.write path (.text text) = .ok t') :
    (Tree.disk.writeText path text).run t = (.ok (), t') := by
  rw [Tree.disk, StateT.run]
  dsimp only
  rw [h]

theorem run_writeText_error {text : String} {e : DiskError}
    (h : t.write path (.text text) = .error e) :
    (Tree.disk.writeText path text).run t = (.error e, t) := by
  rw [Tree.disk, StateT.run]
  dsimp only
  rw [h]

/-- **What `saveIni` does**: it makes directories, and if it goes on to the end it writes the file.
-/
theorem cases_saveIni (hpath : l.settingsPath file = .ok path) {m : FileSections}
    {result : Except StorageError Unit} (h : (saveIni Tree.disk l file m).run t = (result, t')) :
    result ≠ .ok () ∧ t' = (t.createDirectories (Path.parent path)).2 ∨
      result = .ok () ∧
        (t.createDirectories (Path.parent path)).2.write path (.text (Ini.write m)) = .ok t' := by
  obtain ⟨made, t₁, hmade⟩ : ∃ made t₁, t.createDirectories (Path.parent path) = (made, t₁) :=
    ⟨_, _, rfl⟩
  rw [saveIni, hpath] at h
  dsimp only at h
  rw [run_bind_of_run (x := Tree.disk.createDirectories (Path.parent path)) hmade] at h
  rw [hmade]
  cases made with
  | error e =>
      obtain ⟨rfl, rfl⟩ := Prod.mk.inj h
      exact .inl ⟨nofun, rfl⟩
  | ok u =>
      dsimp only at h
      cases hwrite : t₁.write path (.text (Ini.write m)) with
      | error e =>
          rw [run_bind_of_run (run_writeText_error hwrite)] at h
          obtain ⟨rfl, rfl⟩ := Prod.mk.inj h
          exact .inl ⟨nofun, rfl⟩
      | ok t₂ =>
          rw [run_bind_of_run (run_writeText_ok hwrite)] at h
          obtain ⟨rfl, rfl⟩ := Prod.mk.inj h
          exact .inr ⟨rfl, rfl⟩

/-- **After a `saveIni`** that succeeds the file holds the text `Ini.write m`. -/
theorem readText_of_saveIni (hpath : l.settingsPath file = .ok path) {m : FileSections}
    (h : (saveIni Tree.disk l file m).run t = (.ok (), t')) :
    t'.readText path = .ok (Ini.write m) := by
  obtain hfail | hdone := cases_saveIni hpath h
  · exact absurd rfl hfail.1
  · exact Tree.readText_of_write hdone.2

/-- **After a `saveIni`** the files of every other `name` hold what they held, whether or not it
succeeds. -/
theorem readText_elsewhere_of_saveIni (hpath : l.settingsPath file = .ok path) {m : FileSections}
    {result : Except StorageError Unit}
    (h : (saveIni Tree.disk l file m).run t = (result, t')) {base name s : String}
    (hname : Path.IsFileName name) (hne : name ≠ file.fileName)
    (hread : t.readText (Path.join base name) = .ok s) :
    t'.readText (Path.join base name) = .ok s := by
  have hfile := Layout.isFileName_of_settingsPath hpath
  have hgrows := t.grows_createDirectories (Path.parent path)
  have hcases := cases_saveIni hpath h
  generalize (t.createDirectories (Path.parent path)).2 = t₁ at hgrows hcases
  obtain rfl := (Layout.settingsPath_eq_ok_iff.1 hpath).2
  obtain ⟨-, rfl⟩ | ⟨-, hwrite⟩ := hcases
  · exact hgrows.readText hread
  · exact Tree.readText_of_write_elsewhere hfile hname hne hwrite (hgrows.readText hread)

end Repository

end EmulatorSettings
