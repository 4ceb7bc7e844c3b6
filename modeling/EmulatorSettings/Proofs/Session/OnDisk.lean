import EmulatorSettings.Proofs.Ini.RoundTrip
import EmulatorSettings.Proofs.Session.Loading
import EmulatorSettings.Proofs.Storage.SavedText
import EmulatorSettings.Session.Run

/-!
# Sessions — what one finds and leaves on a disk

A session at its start loads the sections of its file in the tree, none if the file cannot be read,
and holds just these.  A stop for good that saves leaves the text of the sections in the file.

* `Repository.exists_run_loadIni`: a load answers the sections in the tree, and changes nothing.
* `Session.holds_finishLoad`: a session at its start holds what its first load leads to.
* `Session.outcome_stop_eq_skipped`: a stop for good is skipped exactly when there is nothing to
  save.
* `Session.readText_of_stop`: a stop that saved leaves the text of the sections in the file.
* `Session.readText_of_stop_unsaved`: any other leaves the text that was there.
-/

namespace EmulatorSettings

/-! ### The sections in a tree -/

/-- The sections of `file` as a session finds them at `path`, none if `readText` fails. -/
def Tree.sections (t : Tree) (file : SettingsFile) (path : String) : FileSections :=
  match t.readText path with
  | .ok text => (Ini.read file text).sections
  | .error _ => .new file

section Sections

variable {l : Layout} {file : SettingsFile} {path : String} {t : Tree}

theorem Tree.asRead_sections (t : Tree) (file : SettingsFile) (path : String) :
    (t.sections file path).AsRead := by
  unfold Tree.sections
  split
  · exact Ini.asRead_read file _
  · exact .new file

theorem Tree.file_sections (t : Tree) (file : SettingsFile) (path : String) :
    (t.sections file path).file = file := by
  unfold Tree.sections
  split
  · exact Ini.file_read file _
  · rfl

/-- What `loadIni` answers has the sections in the tree `t`, and `t` stays as it is. -/
theorem Repository.exists_run_loadIni (hpath : l.settingsPath file = .ok path) (t : Tree) :
    ∃ result, (loadIni Tree.disk l file).run t = (result, t) ∧
      (Notice.ofLoad file result).1 = t.sections file path := by
  unfold Tree.sections
  cases hread : t.readText path with
  | ok text => exact ⟨_, run_loadIni hpath hread, rfl⟩
  | error e =>
      refine ⟨_, run_loadIni_error hpath hread, ?_⟩
      cases e <;> rfl

end Sections

/-! ### A session that was loaded -/

namespace Session

/-- The session `s` holds the sections `m` of its file, and has nothing to save. -/
structure Holds (s : Session) (m : FileSections) : Prop where
  sections?_eq : s.sections? = some m
  isDirty_eq : s.isDirty = false

theorem file_new (file : SettingsFile) : (new file).file = file := rfl

theorem exists_forGame_eq_new (game : Option String) : ∃ file, forGame game = new file := by
  unfold forGame
  split
  · exact ⟨_, rfl⟩
  · split
    · exact ⟨_, rfl⟩
    · exact ⟨_, rfl⟩

/-- A new session `Holds` what its first load leads to. -/
theorem holds_finishLoad {file : SettingsFile} {result : Except StorageError FileSections}
    (hfile : (Notice.ofLoad file result).1.file = file) :
    ((new file).finishLoad result).2.Holds (Notice.ofLoad file result).1 := by
  refine ⟨(sections?_withFile _).trans (congrArg some ?_), rfl⟩
  refine Settings.fileOrNew_of_file? ?_
  change (Settings.empty.insertFile (Notice.ofLoad file result).1).2.file? file = _
  rw [Settings.insertFile, hfile]
  exact Table.get?_insert_self _ _ _

theorem Holds.sections_eq {s : Session} {m : FileSections} (h : s.Holds m) : s.sections = m :=
  sections_of_sections? h.sections?_eq

/-! ### Stopping -/

/-- What `beginSave` answers is all the `sections`, and only if `isDirty` is set. -/
theorem of_beginSave {s : Session} {finishing : Bool} {m : FileSections}
    (h : s.beginSave finishing = some m) : s.isDirty = true ∧ m = s.sections := by
  unfold beginSave at h
  split at h
  · next hdue =>
    exact ⟨(Bool.and_eq_true_iff.1 hdue).2, (Settings.fileOrNew_of_file? h).symm⟩
  · cases h

theorem beginSave_eq_some_iff {s : Session} {finishing : Bool} {m : FileSections} :
    s.beginSave finishing = some m ↔
      finishing = true ∧ s.isDirty = true ∧ s.sections? = some m := by
  unfold beginSave
  cases finishing <;> cases s.isDirty <;> simp

theorem outcome_finishSave_ne_skipped (s : Session) (result : Except StorageError Unit) :
    (s.finishSave result).outcome ≠ .skipped := by
  cases result with
  | error e => exact StopOutcome.noConfusion
  | ok u => exact StopOutcome.noConfusion

/-- A stop for good is skipped exactly when `isDirty` is not set. -/
theorem outcome_stop_eq_skipped {σ : Type} {s : Session} (hs : s.sections? ≠ none)
    (r : Repository (StateM σ)) (disk : σ) :
    ((s.stop r true).run disk).1.outcome = .skipped ↔ s.isDirty = false := by
  obtain ⟨m, hm⟩ := Option.ne_none_iff_exists'.1 hs
  unfold Session.stop Session.beginSave
  cases hdirty : s.isDirty with
  | false => exact ⟨fun _ => rfl, fun _ => rfl⟩
  | true =>
      rw [hm]
      exact ⟨fun h => absurd h (outcome_finishSave_ne_skipped s _), fun h => by cases h⟩

/-- With sections `m` to write, a stop is `saveIni` and what `finishSave` makes of its `result`. -/
theorem run_stop_of_beginSave {l : Layout} {s : Session} {m : FileSections} {t t' : Tree}
    {result : Except StorageError Unit} (hbegin : s.beginSave true = some m)
    (hsave : (Repository.saveIni Tree.disk l s.file m).run t = (result, t')) :
    (s.stop (.ini Tree.disk l) true).run t = (s.finishSave result, t') := by
  rw [stop, hbegin]
  dsimp only
  rw [StateT.run_map]
  exact congrArg (fun p => (s.finishSave p.1, p.2)) hsave

/-- **A stop that saved** leaves `Ini.write s.sections` in the file at `path`. -/
theorem readText_of_stop {l : Layout} {path : String} {s : Session} {stop : Stop}
    {t t' : Tree} (hpath : l.settingsPath s.file = .ok path)
    (hstop : (s.stop (.ini Tree.disk l) true).run t = (stop, t')) (hsaved : stop.outcome = .saved) :
    t'.readText path = .ok (Ini.write s.sections) := by
  cases hbegin : s.beginSave true with
  | none =>
      rw [stop_of_beginSave_eq_none _ hbegin] at hstop
      obtain ⟨rfl, -⟩ := Prod.mk.inj hstop
      cases hsaved
  | some m =>
      obtain ⟨result, t₁, hsave⟩ : ∃ result t₁,
          (Repository.saveIni Tree.disk l s.file m).run t = (result, t₁) := ⟨_, _, rfl⟩
      obtain ⟨rfl, rfl⟩ := Prod.mk.inj ((run_stop_of_beginSave hbegin hsave).symm.trans hstop)
      cases result with
      | error e => cases hsaved
      | ok u =>
          rw [← (of_beginSave hbegin).2]
          exact Repository.readText_of_saveIni hpath hsave

/-- A stop that did not save, skipped or failed, leaves a file that could be read as it was. -/
theorem readText_of_stop_unsaved {l : Layout} {path text : String} {s : Session} {stop : Stop}
    {t t' : Tree} (hpath : l.settingsPath s.file = .ok path)
    (hstop : (s.stop (.ini Tree.disk l) true).run t = (stop, t')) (hsaved : stop.outcome ≠ .saved)
    (hread : t.readText path = .ok text) : t'.readText path = .ok text := by
  cases hbegin : s.beginSave true with
  | none =>
      rw [stop_of_beginSave_eq_none _ hbegin] at hstop
      obtain ⟨-, rfl⟩ := Prod.mk.inj hstop
      exact hread
  | some m =>
      obtain ⟨result, t₁, hsave⟩ : ∃ result t₁,
          (Repository.saveIni Tree.disk l s.file m).run t = (result, t₁) := ⟨_, _, rfl⟩
      obtain ⟨rfl, rfl⟩ := Prod.mk.inj ((run_stop_of_beginSave hbegin hsave).symm.trans hstop)
      obtain ⟨-, rfl⟩ | ⟨rfl, -⟩ := Repository.cases_saveIni hpath hsave
      · exact (t.grows_createDirectories _).readText hread
      · exact absurd rfl hsaved

end Session

end EmulatorSettings
