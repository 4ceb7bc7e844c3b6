import EmulatorSettings.Proofs.Disk.Directories
import EmulatorSettings.Proofs.Ini.RoundTrip
import EmulatorSettings.Proofs.Storage.SavedText

/-!
# Storage — files do not get in each other's way

A repository is used over and over: files are loaded and saved, in any order, and some of it fails
on the way.  Each use changes the tree only where the file lies and where directories are missing
on the way to it, so what holds of one use holds of any number of them.

* `extends_leave`, `extends_after`: what one use changes in the tree, and what any number of them
  do.
* `isolated`: loads change nothing, what was saved is loaded until it is saved again, and no file
  notices what happens to the others.
* `up_uncovers_file`: it does notice where the user directory is named by a way that goes down and
  up again, through a directory that a save makes.
-/

namespace EmulatorSettings.Repository

variable {l : Layout} {file : SettingsFile} {path : String} {t t' : Tree}

/-! ### Using a repository -/

/-- One use of a repository: a `load`, or a `save` of some sections. -/
inductive Use where
  | load (file : SettingsFile)
  | save (file : SettingsFile) (sections : FileSections)

/-- The tree that one use over the layout `l` leaves, by `loadIni` or `saveIni`. -/
def leave (l : Layout) (t : Tree) : Use → Tree
  | .load file   => ((loadIni Tree.disk l file).run t).2
  | .save file m => ((saveIni Tree.disk l file m).run t).2

/-- The tree after several `uses`, whatever each of them answered. -/
def after (l : Layout) (t : Tree) (uses : List Use) : Tree :=
  uses.foldl (leave l) t

/-- What `loadIni` answers for `file` in the tree `t`. -/
def loaded (l : Layout) (t : Tree) (file : SettingsFile) : Except StorageError FileSections :=
  ((loadIni Tree.disk l file).run t).1

/-- The `file` is saved by one of the `uses`, and has the `path`. -/
structure Saved (l : Layout) (uses : List Use) (file : SettingsFile) (path : String) : Prop where
  exists_use : ∃ m, Use.save file m ∈ uses
  settingsPath_eq : l.settingsPath file = .ok path

theorem Saved.mono {uses uses' : List Use} (h : Saved l uses file path) (hsub : uses ⊆ uses') :
    Saved l uses' file path :=
  ⟨h.exists_use.imp fun _ hm => hsub hm, h.settingsPath_eq⟩

/-- The `place` is where the path of a `Saved` file leads. -/
def Own (l : Layout) (uses : List Use) (t : Tree) (place : List String) : Prop :=
  ∃ file path, Saved l uses file path ∧ t.locate path = .ok place

/-- The path of the directory of a `Saved` file `Passes` the `place`. -/
def OnTheWay (l : Layout) (uses : List Use) (t : Tree) (place : List String) : Prop :=
  ∃ file path, Saved l uses file path ∧ t.Passes (l.directoryOf file) place

theorem Own.mono {uses uses' : List Use} (hsub : uses ⊆ uses') (h : t.KeepsDirectories t')
    {place : List String} (hown : Own l uses t place) : Own l uses' t' place := by
  obtain ⟨file, path, hsaved, hplace⟩ := hown
  exact ⟨file, path, hsaved.mono hsub, h.locate hplace⟩

theorem OnTheWay.mono {uses uses' : List Use} (hsub : uses ⊆ uses') (h : t.KeepsDirectories t')
    {place : List String} (hway : OnTheWay l uses t place) : OnTheWay l uses' t' place := by
  obtain ⟨file, path, hsaved, hpasses⟩ := hway
  exact ⟨file, path, hsaved.mono hsub, h.passes hpasses⟩

/-! ### Loads -/

theorem loaded_of_readText (hpath : l.settingsPath file = .ok path) {text : String}
    (h : t.readText path = .ok text) : loaded l t file = .ok (Ini.read file text).sections :=
  congrArg Prod.fst (run_loadIni hpath h)

theorem loaded_of_readText_error (hpath : l.settingsPath file = .ok path) {cause : DiskError}
    (h : t.readText path = .error cause) :
    loaded l t file = .error (if cause = .notFound then .notFound path else .disk path cause) :=
  congrArg Prod.fst (run_loadIni_error hpath h)

theorem loaded_of_settingsPath_eq_error {e : StorageError} (hpath : l.settingsPath file = .error e)
    (t : Tree) : loaded l t file = .error e :=
  congrArg Prod.fst (run_of_settingsPath_eq_error hpath (.new file) t).1

/-- **A load** leaves the tree `t` as it is. -/
theorem leave_load (l : Layout) (t : Tree) (file : SettingsFile) : leave l t (.load file) = t := by
  rw [leave]
  cases hpath : l.settingsPath file with
  | error e => rw [(run_of_settingsPath_eq_error hpath (.new file) t).1]
  | ok path =>
      cases hread : t.readText path with
      | ok text => rw [run_loadIni hpath hread]
      | error cause => rw [run_loadIni_error hpath hread]

/-! ### What changes in the tree -/

/-- **One `use`** changes the place of the file that is saved, and makes directories on the way. -/
theorem extends_leave (l : Layout) (t : Tree) (use : Use) :
    t.Extends (Own l [use] (leave l t use)) (OnTheWay l [use] (leave l t use)) (leave l t use) := by
  cases use with
  | load file =>
      rw [leave_load]
      exact .refl _ _ t
  | save file m =>
      cases hpath : l.settingsPath file with
      | error e =>
          rw [leave, (run_of_settingsPath_eq_error hpath m t).2]
          exact .refl _ _ t
      | ok path =>
          have hsaved : Saved l [.save file m] file path := ⟨⟨m, List.mem_singleton_self _⟩, hpath⟩
          have hname := Layout.isFileName_of_settingsPath hpath
          have hmade := t.extends_createDirectories (Path.parent path)
          obtain ⟨result, t', hrun⟩ : ∃ result t',
              (saveIni Tree.disk l file m).run t = (result, t') := ⟨_, _, rfl⟩
          have hleave : leave l t (.save file m) = t' := by rw [leave, hrun]
          rw [hleave]
          have hcases := cases_saveIni hpath hrun
          rw [Layout.parent_of_settingsPath hpath] at hmade hcases
          generalize (t.createDirectories (l.directoryOf file)).2 = t₁ at hmade hcases
          obtain ⟨-, rfl⟩ | ⟨-, hwrite⟩ := hcases
          · exact hmade.mono nofun fun place hp => ⟨file, path, hsaved, hp⟩
          · rw [(Layout.settingsPath_eq_ok_iff.1 hpath).2] at hwrite
            have hwritten := Tree.extends_write hname hwrite
            rw [← (Layout.settingsPath_eq_ok_iff.1 hpath).2] at hwritten
            refine Tree.Extends.trans (hmade.mono nofun fun place hp => ?_)
              (hwritten.mono (fun place hp => ⟨file, path, hsaved, hp⟩) nofun)
            exact ⟨file, path, hsaved, hwritten.keepsDirectories.passes hp⟩

/-- **Any number of `uses`** change the places of the files that are saved, and make directories on
the way to them. -/
theorem extends_after (l : Layout) (t : Tree) (uses : List Use) :
    t.Extends (Own l uses (after l t uses)) (OnTheWay l uses (after l t uses))
      (after l t uses) := by
  induction uses generalizing t with
  | nil => exact .refl _ _ t
  | cons use uses ih =>
      have hrest := ih (leave l t use)
      have hkeeps := hrest.keepsDirectories
      have hfirst : [use] ⊆ use :: uses := List.cons_subset_cons use (List.nil_subset uses)
      have hlater : uses ⊆ use :: uses := List.subset_cons_self use uses
      exact Tree.Extends.trans
        ((extends_leave l t use).mono (fun _ => Own.mono hfirst hkeeps)
          fun _ => OnTheWay.mono hfirst hkeeps)
        (hrest.mono (fun _ => Own.mono hlater (.refl _)) fun _ => OnTheWay.mono hlater (.refl _))

/-- The place of a `file` that none of the `uses` saves is not one of their `Own`. -/
theorem not_own {uses : List Use} (hpath : l.settingsPath file = .ok path)
    (huses : ∀ m, Use.save file m ∉ uses) {place : List String}
    (hplace : t.locate path = .ok place) : ¬ Own l uses t place := by
  rintro ⟨file', path', hsaved, hplace'⟩
  obtain rfl := Layout.eq_of_settingsPath_of_locate hpath hsaved.settingsPath_eq hplace hplace'
  obtain ⟨m, hm⟩ := hsaved.exists_use
  exact huses m hm

/-- **What `readText path` gives** stays, as long as its file is not saved. -/
theorem readText_after {uses : List Use} (hpath : l.settingsPath file = .ok path)
    (huses : ∀ m, Use.save file m ∉ uses) {text : String} (h : t.readText path = .ok text) :
    (after l t uses).readText path = .ok text :=
  (extends_after l t uses).readText (fun _ => not_own hpath huses) h

/-- **The directories that are made** for a `file` are above its place `own`, unless
`l.userDirectory` has a `..`. -/
theorem isPrefix_of_passes (hpath : l.settingsPath file = .ok path) {place own : List String}
    (hpasses : t.Passes (l.directoryOf file) place) (hup : ".." ∉ Path.names l.userDirectory)
    (hown : t.locate path = .ok own) : place <+: own := by
  obtain ⟨d, hd, rfl⟩ := Layout.exists_place_of_settingsPath hpath hown
  refine (hpasses.isPrefix (fun hm => ?_) hd).trans ⟨[file.fileName], List.append_assoc ..⟩
  rw [Layout.directoryOf, Path.steps_join file.isFileName_directory, List.mem_append,
    List.mem_singleton] at hm
  obtain hm | hm := hm
  · exact hup hm
  · exact file.isFileName_directory.ne_above hm.symm

/-! ### Loads that succeed -/

/-- **A load that succeeds** answers the same after any `uses` that do not save its file. -/
theorem loaded_after_of_ok {uses : List Use} (huses : ∀ m, Use.save file m ∉ uses)
    {r : FileSections} (h : loaded l t file = .ok r) : loaded l (after l t uses) file = .ok r := by
  cases hpath : l.settingsPath file with
  | error e => exact absurd ((loaded_of_settingsPath_eq_error hpath t).symm.trans h) nofun
  | ok path =>
      cases hread : t.readText path with
      | error e => exact absurd ((loaded_of_readText_error hpath hread).symm.trans h) nofun
      | ok text =>
          rw [← h, loaded_of_readText hpath hread,
            loaded_of_readText hpath (readText_after hpath huses hread)]

/-- **What `saveIni` saved** is loaded after any `uses` that do not save its file: without the empty
sections, and with every value as `Value.ofText` reads its text. -/
theorem loaded_after_save {uses : List Use} {m : FileSections} (hm : m.WellStored)
    (hnames : ∀ n s, m.section? n = some s → checkName n = .ok ())
    (hentries : ∀ n k x, m.get? n k = some x → checkEntry k x.value = .ok ())
    (hsave : (saveIni Tree.disk l file m).run t = (.ok (), t'))
    (huses : ∀ m', Use.save file m' ∉ uses) :
    ∃ r, loaded l (after l t' uses) file = .ok r ∧ r.file = file ∧ ∀ n, r.section? n =
      ((m.section? n).filter fun s => !s.isEmpty).map fun s =>
        ⟨n, file, s.settings.mapValues fun x => ⟨x.key, n, file, .ofText x.value.written⟩⟩ := by
  cases hpath : l.settingsPath file with
  | error e =>
      rw [(run_of_settingsPath_eq_error hpath m t).2] at hsave
      cases hsave
  | ok path =>
      have hread := readText_after hpath huses (readText_of_saveIni hpath hsave)
      have hreadable : Ini.Readable m := fun n k x hx => by
        obtain ⟨s, hs, -⟩ := Option.bind_eq_some_iff.1 hx
        exact ⟨Ini.feed_of_checkName (hnames n s hs),
          Ini.readable_of_checkEntry (hentries n k x hx)⟩
      exact ⟨_, loaded_of_readText hpath hread, Ini.read_write_inFile hm hreadable⟩

/-! ### Loads that fail -/

/-- Two failures are the same, or both are failures to reach the file at one `path`. -/
inductive Alike : StorageError → StorageError → Prop
  | same (e : StorageError) : Alike e e
  | atPath (path : String) (cause cause' : DiskError) :
      Alike (if cause = .notFound then .notFound path else .disk path cause)
        (if cause' = .notFound then .notFound path else .disk path cause')

/-- The file at `path` could not be found in `t` because a directory before a `..` was missing.  In
`t'` the directory is there, and so is the text of the file, which never changed. -/
structure Uncovered (l : Layout) (t t' : Tree) (file : SettingsFile) (path : String) : Prop where
  up : ".." ∈ Path.names l.userDirectory
  settingsPath_eq : l.settingsPath file = .ok path
  locate_eq : t.locate path = .error .notFound
  loaded_eq : loaded l t file = .error (.notFound path)
  exists_text : ∃ place text, t'.locate path = .ok place ∧
    t.node? place = some (.file (.text text)) ∧ loaded l t' file = .ok (Ini.read file text).sections

theorem up_of_steps (hpath : l.settingsPath file = .ok path) (hup : ".." ∈ Path.steps path) :
    ".." ∈ Path.names l.userDirectory := by
  have hname := Layout.isFileName_of_settingsPath hpath
  have hdirectory := file.isFileName_directory
  rw [(Layout.settingsPath_eq_ok_iff.1 hpath).2, Path.steps_join hname, Layout.directoryOf,
    Path.names_join hdirectory, List.mem_append, List.mem_append, List.mem_singleton,
    List.mem_singleton] at hup
  obtain (hup | hup) | hup := hup
  · exact hup
  · exact absurd hup.symm hdirectory.ne_above
  · exact absurd hup.symm hname.ne_above

/-- **A load that fails** fails `Alike` after any `uses` that do not save its file, unless that is
`Uncovered`. -/
theorem loaded_after_of_error {uses : List Use} (ht : t.Closed)
    (huses : ∀ m, Use.save file m ∉ uses) {e : StorageError} (h : loaded l t file = .error e) :
    (∃ e', loaded l (after l t uses) file = .error e' ∧ Alike e e') ∨
      ∃ path, Uncovered l t (after l t uses) file path := by
  cases hpath : l.settingsPath file with
  | error e' =>
      obtain rfl := Except.error.inj ((loaded_of_settingsPath_eq_error hpath t).symm.trans h)
      exact .inl ⟨e', loaded_of_settingsPath_eq_error hpath _, .same e'⟩
  | ok path =>
      cases hread : t.readText path with
      | ok text => exact absurd ((loaded_of_readText hpath hread).symm.trans h) nofun
      | error cause =>
          obtain rfl := Except.error.inj ((loaded_of_readText_error hpath hread).symm.trans h)
          cases hread' : (after l t uses).readText path with
          | error cause' =>
              exact .inl ⟨_, loaded_of_readText_error hpath hread', .atPath path cause cause'⟩
          | ok text =>
              -- what can be read now could be read before, if only the way had been open
              have hextends := extends_after l t uses
              have howner : ∀ place, (after l t uses).locate path = .ok place →
                  ¬ Own l uses (after l t uses) place := fun _ => not_own hpath huses
              obtain hdone | ⟨hlocate, place, hplace, hnode⟩ := hextends.of_readText howner hread'
              · exact absurd (hread.symm.trans hdone) nofun
              · have hcause : t.readText path = .error .notFound := by
                  rw [Tree.readText, hlocate]
                  rfl
                refine .inr ⟨path, up_of_steps hpath (by_contra fun hup => ?_), hpath, hlocate,
                  loaded_of_readText_error hpath hcause, place, text, hplace, hnode,
                  loaded_of_readText hpath hread'⟩
                exact absurd (hread.symm.trans
                  (hextends.readText_of_no_up ht howner hup hread')) nofun

/-! ### Isolation -/

/-- **Files do not get in each other's way**, for every layout `l`, tree `t` and list of `uses`.
The use `.load file` leaves `t` as it is, and an `id` without `isPlainName` is answered with
`invalidGameId` by `loadIni` and `saveIni`, which change nothing.  Once `saveIni` has answered
`.ok ()`, and as long as none of the `uses` saves `file`, `loaded` gives what was saved: without the
empty sections, and with every value as `Value.ofText` reads its text.  A file that is not saved is
`loaded` as before, and if that failed it fails `Alike`, unless it is `Uncovered`: `l.userDirectory`
has a `..`, and a missing directory before it was made.  Every `place` keeps its node, except where
a `Saved` file lies and where a directory was made on the way to one; without a `..` these
directories are above the file. -/
theorem isolated (l : Layout) (t : Tree) (uses : List Use) :
    (∀ file, leave l t (.load file) = t) ∧
    (∀ id, Layout.isPlainName id = false →
      loaded l t (.game id) = .error (.invalidGameId id) ∧
      ∀ m, (saveIni Tree.disk l (.game id) m).run t = (.error (.invalidGameId id), t)) ∧
    (∀ file m t', m.WellStored → (∀ n s, m.section? n = some s → checkName n = .ok ()) →
      (∀ n k x, m.get? n k = some x → checkEntry k x.value = .ok ()) →
      (saveIni Tree.disk l file m).run t = (.ok (), t') → (∀ m', Use.save file m' ∉ uses) →
      ∃ r, loaded l (after l t' uses) file = .ok r ∧ r.file = file ∧ ∀ n, r.section? n =
        ((m.section? n).filter fun s => !s.isEmpty).map fun s =>
          ⟨n, file, s.settings.mapValues fun x => ⟨x.key, n, file, .ofText x.value.written⟩⟩) ∧
    (t.Closed → ∀ file, (∀ m, Use.save file m ∉ uses) →
      (∀ r, loaded l t file = .ok r → loaded l (after l t uses) file = .ok r) ∧
      ∀ e, loaded l t file = .error e →
        (∃ e', loaded l (after l t uses) file = .error e' ∧ Alike e e') ∨
          ∃ path, Uncovered l t (after l t uses) file path) ∧
    ∀ place, (after l t uses).node? place = t.node? place ∨
      ∃ file path, Saved l uses file path ∧
        ((after l t uses).locate path = .ok place ∨
          t.node? place = none ∧ (after l t uses).node? place = some .directory ∧
            (after l t uses).Passes (l.directoryOf file) place ∧
            (".." ∉ Path.names l.userDirectory → ∀ own,
              (after l t uses).locate path = .ok own → place <+: own)) := by
  refine ⟨leave_load l t, fun id hid => ?_, fun file m t' => loaded_after_save,
    fun ht file huses => ⟨fun r => loaded_after_of_ok huses,
      fun e => loaded_after_of_error ht huses⟩, fun place => ?_⟩
  · have hpath : l.settingsPath (.game id) = .error (.invalidGameId id) :=
      Layout.settingsPath_eq_error_iff.2 ⟨id, rfl, hid, rfl⟩
    exact ⟨loaded_of_settingsPath_eq_error hpath t,
      fun m => (run_of_settingsPath_eq_error hpath m t).2⟩
  · obtain heq | ⟨file, path, hsaved, hplace⟩ | ⟨hnone, hdirectory, file, path, hsaved, hpasses⟩ :=
      (extends_after l t uses).elsewhere place
    · exact .inl heq
    · exact .inr ⟨file, path, hsaved, .inl hplace⟩
    · exact .inr ⟨file, path, hsaved, .inr ⟨hnone, hdirectory, hpasses,
        fun hup _ hown => isPrefix_of_passes hsaved.settingsPath_eq hpasses hup hown⟩⟩

/-! ### The file of a game, among others -/

/-- A user directory `/user` that holds the file of the game `g`. -/
def shelf : Tree :=
  ((Tree.empty.put ["user"] .directory).put ["user", "GameSettings"] .directory).put
    ["user", "GameSettings", "g.ini"] (.file (.text "[Core]\na=1\n"))

theorem closed_shelf : shelf.Closed := by
  have huser := @Tree.closed_put _ [] "user" Tree.closed_empty rfl .directory (.inl rfl)
  have hgames := @Tree.closed_put _ ["user"] "GameSettings" huser rfl .directory (.inl rfl)
  exact @Tree.closed_put _ ["user", "GameSettings"] "g.ini" hgames rfl _ (.inr (by decide))

/-- One setting, to be saved in the global file. -/
def vsync : FileSections :=
  ((FileSections.new .config).set "Core" "use_vsync" (.int 1)).2

/-- The global file is saved, and then a game is loaded, another one saved and a third refused: the
global file loads as it was saved, and the game `g` as ever. -/
theorem isolated_on_shelf :
    (∃ r, loaded ⟨"/user"⟩ (after ⟨"/user"⟩ (leave ⟨"/user"⟩ shelf (.save .config vsync))
        [.load (.game "g"), .save (.game "h") vsync, .save (.game "..") vsync]) .config = .ok r ∧
      r.section? "Core" = some ⟨"Core", .config, Table.empty.insert "use_vsync"
        ⟨"use_vsync", "Core", .config, .int 1⟩⟩) ∧
    loaded ⟨"/user"⟩ (after ⟨"/user"⟩ shelf [.save .config vsync]) (.game "g") =
      .ok (Ini.read (.game "g") "[Core]\na=1\n").sections := by
  have hnames : ∀ e ∈ vsync.sections.entries, checkName e.1 = .ok () := by decide +kernel
  have hentries : ∀ e ∈ vsync.sections.entries, ∀ d ∈ e.2.settings.entries,
      checkEntry d.1 d.2.value = .ok () := by decide +kernel
  obtain ⟨-, -, hsaved, -, -⟩ := isolated ⟨"/user"⟩ shelf
    [.load (.game "g"), .save (.game "h") vsync, .save (.game "..") vsync]
  obtain ⟨-, -, -, hloads, -⟩ := isolated ⟨"/user"⟩ shelf [.save .config vsync]
  obtain ⟨r, hr, -, hsections⟩ := hsaved .config vsync _
    (FileSections.wellStored_set (FileSections.wellStored_new _) _ _ _)
    (fun n s hs => hnames (n, s) (Table.mem_entries_iff.2 hs))
    (fun n k x hx => by
      obtain ⟨s, hs, hk⟩ := Option.bind_eq_some_iff.1 hx
      exact hentries (n, s) (Table.mem_entries_iff.2 hs) (k, x) (Table.mem_entries_iff.2 hk))
    (Prod.ext (by decide +kernel) rfl) (by simp)
  obtain ⟨hkept, -⟩ := hloads closed_shelf (.game "g") (by simp)
  exact ⟨⟨r, hr, (hsections "Core").trans (by decide +kernel)⟩, hkept _ (by decide +kernel)⟩

/-- **A save can uncover the file of a game.** By `/user/new/..` the file was not found; saving the
global file makes `/user/new`, and then it is.  What was made is not above the file that was saved.
-/
theorem up_uncovers_file :
    shelf.Closed ∧ (∀ m, Use.save (.game "g") m ∉ [Use.save .config vsync]) ∧
    loaded ⟨"/user/new/.."⟩ shelf (.game "g") =
      .error (.notFound "/user/new/../GameSettings/g.ini") ∧
    ((saveIni Tree.disk ⟨"/user/new/.."⟩ .config vsync).run shelf).1 = .ok () ∧
    loaded ⟨"/user/new/.."⟩ (after ⟨"/user/new/.."⟩ shelf [.save .config vsync]) (.game "g") =
      .ok (Ini.read (.game "g") "[Core]\na=1\n").sections ∧
    shelf.node? ["user", "new"] = none ∧
    (after ⟨"/user/new/.."⟩ shelf [.save .config vsync]).node? ["user", "new"] =
      some .directory ∧
    (after ⟨"/user/new/.."⟩ shelf [.save .config vsync]).locate "/user/new/../config/config.ini" =
      .ok ["user", "config", "config.ini"] := by
  refine ⟨closed_shelf, by simp, ?_, ?_, ?_, rfl, ?_, ?_⟩ <;> decide +kernel

end EmulatorSettings.Repository
