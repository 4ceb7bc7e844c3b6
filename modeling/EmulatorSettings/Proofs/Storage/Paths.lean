import EmulatorSettings.Proofs.Disk.OtherFiles
import EmulatorSettings.Storage.Repository

/-!
# Storage — the paths of settings files

The id of a game comes from outside and becomes the name of a file.  It is looked at as a text, and
the path that is made of it is followed name by name; that both agree is what keeps the file where
it belongs.

* `isPlainName_iff_components`: the plain names are the paths of a single name without a backslash.
* `settingsPath_eq_ok_iff`: a settings file has a path exactly if its game has a plain name.
* `settingsPath_confined`: the file of a game lies in its directory, whatever the id and whatever
  the user directory, and no two files have one path.
-/

namespace EmulatorSettings

open EmulatorSettings.Path (IsFileName Component components)

/-! ### The names of settings files -/

namespace SettingsFile

theorem toList_fileName (f : SettingsFile) :
    f.fileName.toList = f.baseName.toList ++ ['.', 'i', 'n', 'i'] := by
  rw [fileName, String.toList_append]
  rfl

/-- A `name` that does not end in `i` is not the `fileName` of a settings file. -/
theorem fileName_ne (f : SettingsFile) {name : String} (h : name.toList.getLast? ≠ some 'i') :
    f.fileName ≠ name := by
  rintro rfl
  refine h ?_
  rw [toList_fileName, List.getLast?_append]
  rfl

theorem isFileName_fileName {f : SettingsFile} (h : '/' ∉ f.baseName.toList) :
    IsFileName f.fileName := by
  refine ⟨fun hm => ?_, f.fileName_ne (by decide), f.fileName_ne (by decide),
    f.fileName_ne (by decide)⟩
  rw [toList_fileName, List.mem_append] at hm
  rcases hm with hm | hm
  · exact h hm
  · exact absurd hm (by decide)

/-- The directory of the user directory that a settings file lies in. -/
def directory : SettingsFile → String
  | config => "config"
  | game _ => "GameSettings"

theorem isFileName_directory (f : SettingsFile) : IsFileName f.directory := by
  cases f <;> refine ⟨?_, ?_, ?_, ?_⟩ <;> simp [directory]

/-- A settings file is known by its `directory` and its `fileName`, if not by its `fileName` alone.
-/
theorem eq_of_directory_of_fileName {f g : SettingsFile} (hd : f.directory = g.directory)
    (hn : f.fileName = g.fileName) : f = g := by
  have hdirectories : "config" ≠ "GameSettings" := by decide
  rw [fileName, fileName, String.append_left_inj] at hn
  cases f <;> cases g
  · rfl
  · exact absurd hd hdirectories
  · exact absurd hd hdirectories.symm
  · exact congrArg game hn

end SettingsFile

namespace Layout

/-! ### Plain names -/

theorem isPlainName_iff {id : String} :
    isPlainName id = true ↔
      id ≠ "" ∧ id ≠ "." ∧ id ≠ ".." ∧ '/' ∉ id.toList ∧ '\\' ∉ id.toList := by
  have hall : (id.toList.all fun c => c ≠ '/' && c ≠ '\\') = true ↔
      '/' ∉ id.toList ∧ '\\' ∉ id.toList := by
    simp only [List.all_eq_true, Bool.and_eq_true, decide_eq_true_eq]
    exact ⟨fun h => ⟨fun hm => (h _ hm).1 rfl, fun hm => (h _ hm).2 rfl⟩,
      fun h c hc => ⟨fun he => h.1 (he ▸ hc), fun he => h.2 (he ▸ hc)⟩⟩
  rw [isPlainName, Bool.and_eq_true, hall]
  simp only [Bool.and_eq_true, decide_eq_true_eq, and_assoc]

/-- **The ids with `isPlainName`** are the paths of one component, which is a name, without a slash
of either kind. -/
theorem isPlainName_iff_components {id : String} :
    isPlainName id = true ↔
      (∃ s, components id = [.name s]) ∧ '/' ∉ id.toList ∧ '\\' ∉ id.toList := by
  rw [isPlainName_iff]
  constructor
  · rintro ⟨hempty, hhere, habove, hslash, hback⟩
    exact ⟨(Path.components_of_isFileName hslash).2 ⟨hslash, hempty, hhere, habove⟩, hslash, hback⟩
  · rintro ⟨hsingle, hslash, hback⟩
    have hname := (Path.components_of_isFileName hslash).1 hsingle
    exact ⟨hname.ne_empty, hname.ne_here, hname.ne_above, hslash, hback⟩

/-! ### Paths -/

variable {l : Layout} {file : SettingsFile} {path : String}

/-- The path of the directory that `file` lies in. -/
def directoryOf (l : Layout) (file : SettingsFile) : String :=
  Path.join l.userDirectory file.directory

/-- **Which files have a `settingsPath`**, and which path it is. -/
theorem settingsPath_eq_ok_iff :
    l.settingsPath file = .ok path ↔
      (∀ id, file = .game id → isPlainName id = true) ∧
        path = Path.join (l.directoryOf file) file.fileName := by
  cases file with
  | config => exact ⟨fun h => ⟨nofun, (Except.ok.inj h).symm⟩, fun h => congrArg Except.ok h.2.symm⟩
  | game id =>
      rw [settingsPath_game]
      split
      · next hplain =>
        refine ⟨fun h => ⟨?_, (Except.ok.inj h).symm⟩, fun h => congrArg Except.ok h.2.symm⟩
        rintro _ ⟨⟩
        exact hplain
      · next hplain => exact ⟨nofun, fun h => absurd (h.1 id rfl) hplain⟩

/-- Where there is no `settingsPath`, the `file` is that of a game whose id is not plain. -/
theorem settingsPath_eq_error_iff {e : StorageError} :
    l.settingsPath file = .error e ↔
      ∃ id, file = .game id ∧ isPlainName id = false ∧ e = .invalidGameId id := by
  cases file with
  | config => exact ⟨nofun, nofun⟩
  | game id =>
      rw [settingsPath_game]
      split
      · next hplain =>
        refine ⟨nofun, ?_⟩
        rintro ⟨_, ⟨⟩, hplain', -⟩
        exact absurd (hplain.symm.trans hplain') Bool.noConfusion
      · next hplain =>
        refine ⟨fun h => ⟨id, rfl, Bool.eq_false_iff.2 hplain, (Except.error.inj h).symm⟩, ?_⟩
        rintro ⟨_, ⟨⟩, -, rfl⟩
        rfl

/-- **A file with a `settingsPath`** has a `fileName` that is `IsFileName`. -/
theorem isFileName_of_settingsPath (h : l.settingsPath file = .ok path) :
    IsFileName file.fileName := by
  refine SettingsFile.isFileName_fileName ?_
  cases file with
  | config => decide
  | game id =>
      obtain ⟨-, -, -, hslash, -⟩ := isPlainName_iff.1 ((settingsPath_eq_ok_iff.1 h).1 id rfl)
      exact hslash

theorem parent_of_settingsPath (h : l.settingsPath file = .ok path) :
    Path.parent path = l.directoryOf file := by
  rw [(settingsPath_eq_ok_iff.1 h).2]
  exact Path.parent_join file.isFileName_directory (isFileName_of_settingsPath h) _

theorem components_of_settingsPath (h : l.settingsPath file = .ok path) :
    components path =
      components l.userDirectory ++ [.name file.directory, .name file.fileName] := by
  rw [(settingsPath_eq_ok_iff.1 h).2, Path.components_join (isFileName_of_settingsPath h),
    directoryOf, Path.components_join file.isFileName_directory, List.append_assoc]
  rfl

/-- Different files have paths with different `components`, also where their names are the same. -/
theorem components_ne_of_settingsPath {file' : SettingsFile} {path' : String}
    (h : l.settingsPath file = .ok path) (h' : l.settingsPath file' = .ok path')
    (hne : file ≠ file') : components path ≠ components path' := by
  intro heq
  rw [components_of_settingsPath h, components_of_settingsPath h', List.append_cancel_left_eq]
    at heq
  simp only [List.cons.injEq, Component.name.injEq, and_true] at heq
  exact hne (SettingsFile.eq_of_directory_of_fileName heq.1 heq.2)

/-- **Where a settings file lies** in a tree `t`: under `file.fileName`, in `file.directory`, in the
user directory. -/
theorem exists_place_of_settingsPath (h : l.settingsPath file = .ok path) {t : Tree}
    {place : List String} (hplace : t.locate path = .ok place) :
    ∃ d, t.locate (l.directoryOf file) = .ok (d ++ [file.directory]) ∧
      place = d ++ [file.directory, file.fileName] := by
  have hname := isFileName_of_settingsPath h
  have hdirectory := file.isFileName_directory
  rw [(settingsPath_eq_ok_iff.1 h).2] at hplace
  obtain ⟨q, hq, -, rfl⟩ := Tree.exists_directory_of_locate hname
    (Path.join_ne_empty hdirectory _) (Path.endsInSlash_join hdirectory _) hplace
  obtain ⟨d, rfl⟩ := Tree.exists_place_of_locate hdirectory hq
  exact ⟨d, hq, List.append_assoc ..⟩

/-- **No two settings files lie at one `place`.** -/
theorem eq_of_settingsPath_of_locate {file' : SettingsFile} {path' : String}
    (h : l.settingsPath file = .ok path) (h' : l.settingsPath file' = .ok path') {t : Tree}
    {place : List String} (hplace : t.locate path = .ok place)
    (hplace' : t.locate path' = .ok place) : file = file' := by
  obtain ⟨d, -, rfl⟩ := exists_place_of_settingsPath h hplace
  obtain ⟨d', -, heq⟩ := exists_place_of_settingsPath h' hplace'
  have hlast := List.append_inj_right' heq rfl
  simp only [List.cons.injEq, and_true] at hlast
  exact SettingsFile.eq_of_directory_of_fileName hlast.1 hlast.2

/-- **The files of games stay in their directory.** Whatever `l.userDirectory` is, the file of a
game has a `settingsPath` exactly if its `id` is not empty, `.` or `..` and has no slash of either
kind.  That path is the `id` with `.ini`, in `GameSettings`, in the user directory: so it reads, its
`Path.parent` is that directory, its last component is that name, and in every tree it leads to
something of that name there.  No two files have one path, whether paths are compared as text, by
their `components` or by the places that they lead to. -/
theorem settingsPath_confined (l : Layout) :
    (∀ id, ((∃ path, l.settingsPath (.game id) = .ok path) ↔
        id ≠ "" ∧ id ≠ "." ∧ id ≠ ".." ∧ '/' ∉ id.toList ∧ '\\' ∉ id.toList) ∧
      ((∃ path, l.settingsPath (.game id) = .ok path) ↔
        (∃ s, components id = [.name s]) ∧ '/' ∉ id.toList ∧ '\\' ∉ id.toList)) ∧
    (∀ id path, l.settingsPath (.game id) = .ok path →
      path = Path.join (Path.join l.userDirectory "GameSettings") (id ++ ".ini") ∧
      Path.parent path = Path.join l.userDirectory "GameSettings" ∧
      components path =
        components l.userDirectory ++ [.name "GameSettings", .name (id ++ ".ini")] ∧
      ∀ (t : Tree) place, t.locate path = .ok place →
        ∃ d, t.locate (Path.join l.userDirectory "GameSettings") = .ok d ∧
          place = d ++ [id ++ ".ini"]) ∧
    ∀ f g p q, f ≠ g → l.settingsPath f = .ok p → l.settingsPath g = .ok q →
      p ≠ q ∧ components p ≠ components q ∧
      ∀ (t : Tree) a b, t.locate p = .ok a → t.locate q = .ok b → a ≠ b := by
  have hplain : ∀ id, (∃ path, l.settingsPath (.game id) = .ok path) ↔ isPlainName id = true := by
    intro id
    constructor
    · rintro ⟨path, h⟩
      exact (settingsPath_eq_ok_iff.1 h).1 id rfl
    · intro h
      exact ⟨_, settingsPath_eq_ok_iff.2 ⟨fun id' heq => SettingsFile.game.inj heq ▸ h, rfl⟩⟩
  refine ⟨fun id => ⟨?_, ?_⟩, fun id path h => ?_, fun f g p q hne hp hq => ?_⟩
  · rw [hplain, isPlainName_iff]
  · rw [hplain, isPlainName_iff_components]
  · refine ⟨(settingsPath_eq_ok_iff.1 h).2, parent_of_settingsPath h, components_of_settingsPath h,
      fun t place hplace => ?_⟩
    obtain ⟨d, hd, rfl⟩ := exists_place_of_settingsPath h hplace
    refine ⟨_, hd, ?_⟩
    rw [List.append_assoc]
    rfl
  · have hcomponents := components_ne_of_settingsPath hp hq hne
    refine ⟨fun heq => hcomponents (congrArg components heq), hcomponents, ?_⟩
    rintro t a _ ha hb rfl
    exact hne (eq_of_settingsPath_of_locate hp hq ha hb)

/-- The relative user directory `user//`, and the game whose file has the name of the global one. -/
theorem settingsPath_confined_of_config :
    Path.parent "user//GameSettings/config.ini" = "user//GameSettings" ∧
      components "user//GameSettings/config.ini" =
        components "user//" ++ [.name "GameSettings", .name "config.ini"] ∧
      components "user//GameSettings/config.ini" ≠ components "user//config/config.ini" := by
  obtain ⟨-, hgame, hne⟩ := settingsPath_confined ⟨"user//"⟩
  obtain ⟨-, hparent, hcomponents, -⟩ := hgame "config" "user//GameSettings/config.ini" (by decide)
  obtain ⟨-, hdiffer, -⟩ := hne (.game "config") .config "user//GameSettings/config.ini"
    "user//config/config.ini" (by decide) (by decide) (by decide)
  exact ⟨hparent, hcomponents, hdiffer⟩

end Layout

end EmulatorSettings
