import EmulatorSettings.Proofs.CommandLine.Invoking
import EmulatorSettings.Proofs.Store.Reporting

/-!
# Command line — `set`, then `get`

* `get?_read_write_set`: sections that were read from any text, in which a key is set, written and
  read again, differ in that key alone.
* `userDirectory?_of_saveIni`: saving settings does not change where the next command looks for
  them.
* `get_after_set`: after a `set` that succeeds, `get` answers the value that was set, and for every
  other key what it answered before; a `set` that is refused changes nothing.
-/

namespace EmulatorSettings

/-! ### The sections that a `set` leaves -/

/-- A value that was read by `ofText` equals itself, as no `nan` is read. -/
theorem Value.equals_ofText_self (s : String) : (ofText s).equals (ofText s) = true := by
  cases h : ofText s with
  | int n => exact beq_self_eq_true n
  | text t => exact beq_self_eq_true t
  | float x =>
      cases x with
      | nan => exact absurd h (ofText_ne_nan s)
      | infinity b => exact beq_self_eq_true b
      | finite b n => simp [equals, Binary32.equals]

namespace FileSections

variable {m : FileSections} {n k text : String}

/-- **Setting a key, writing and reading again** changes the value under `n` and `k`, and no other.
-/
theorem get?_read_write_set (hm : m.AsRead)
    (hcheck : checkName n = .ok () ∧ checkEntry k (.ofText text) = .ok ()) (n' k' : String) :
    ((Ini.read m.file (Ini.write (m.set n k (.ofText text)).2)).sections.get? n' k').map
        (·.value) =
      if n' = n ∧ k' = k then some (.ofText text) else (m.get? n' k').map (·.value) := by
  have hw := wellStored_set hm.wellStored n k (.ofText text)
  have hget := get?_set hm.wellStored n k (.ofText text)
  have hreadable : Ini.Readable (m.set n k (.ofText text)).2 := by
    intro n' k' x hx
    rw [hget] at hx
    split at hx
    · next hat =>
      obtain ⟨rfl, rfl⟩ := hat
      obtain rfl := Option.some.inj hx
      exact ⟨Ini.feed_of_checkName hcheck.1, Ini.readable_of_checkEntry hcheck.2⟩
    · exact hm.readable n' k' x hx
  have hread := Ini.read_write_of_readable hw hreadable
  rw [file_set] at hread
  rw [hread]
  dsimp only
  rw [get?_reread hw, hget, Option.map_map]
  split
  · exact congrArg some (Value.ofText_written_ofText text)
  · cases hx : m.get? n' k' with
    | none => rfl
    | some x => exact congrArg some (hm.settled hx)

end FileSections

namespace CommandLine

variable {e : Environment} {given game : Option String} {t t' : Tree}

/-! ### The preferences after a save -/

/-- The file of the preferences is called `config.toml`. -/
theorem exists_join_of_path {shared home : Option String} {path : String}
    (h : Preferences.path shared home = .ok path) :
    ∃ base, path = Path.join base "config.toml" := by
  unfold Preferences.path at h
  split at h
  · exact ⟨_, (Except.ok.inj h).symm⟩
  · exact ⟨_, (Except.ok.inj h).symm⟩
  · cases h

/-- The text of their file decides which `directory` the preferences name. -/
theorem exists_readText_of_preferencesIn {directory : String}
    (h : (preferencesIn e t).toOption.bind Preferences.directory? = some directory) :
    ∃ base text, t.readText (Path.join base "config.toml") = .ok text ∧
      ∀ t' : Tree, t'.readText (Path.join base "config.toml") = .ok text →
        preferencesIn e t' = preferencesIn e t := by
  cases hpath : Preferences.path e.preferences e.home with
  | error error =>
      rw [preferencesIn, readPreferences, hpath] at h
      cases h
  | ok path =>
      obtain ⟨base, rfl⟩ := exists_join_of_path hpath
      have hin : ∀ t : Tree, preferencesIn e t =
          preferencesOf (Path.join base "config.toml")
            (t.readText (Path.join base "config.toml")) := fun t => by
        rw [preferencesIn, readPreferences, hpath]
        dsimp only
        rw [run_loadPreferences]
      cases hread : t.readText (Path.join base "config.toml") with
      | ok text =>
          refine ⟨base, text, hread, fun t' hread' => ?_⟩
          rw [hin, hin, hread, hread']
      | error cause =>
          rw [hin, hread] at h
          cases cause <;> cases h

/-- **Saving settings** by `saveIni` does not change where the next command looks for them. -/
theorem userDirectory?_of_saveIni {l : Layout} {file : SettingsFile} {path directory : String}
    (hpath : l.settingsPath file = .ok path) {m : FileSections}
    {result : Except StorageError Unit}
    (hsave : (Repository.saveIni Tree.disk l file m).run t = (result, t'))
    (h : userDirectory? e given t = some directory) :
    userDirectory? e given t' = some directory := by
  cases given with
  | some given => exact h
  | none =>
      have h : (preferencesIn e t).toOption.bind Preferences.directory? = some directory := h
      obtain ⟨base, text, hread, hsame⟩ := exists_readText_of_preferencesIn h
      -- the settings file has another name, so the preferences hold the same text after the save
      have hname : Path.IsFileName "config.toml" := by
        refine ⟨?_, ?_, ?_, ?_⟩ <;> decide
      have hne : file.fileName ≠ "config.toml" := file.fileName_ne (by decide)
      have hread' := Repository.readText_elsewhere_of_saveIni hpath hsave hname hne.symm hread
      change (preferencesIn e t').toOption.bind Preferences.directory? = some directory
      rw [hsame t' hread', h]

/-! ### What `get` sees of a `set` -/

/-- The answer `got` looks at nothing but the value. -/
theorem got_congr {m m' : FileSections} {n k : String}
    (h : (m'.get? n k).map (·.value) = (m.get? n k).map (·.value)) (file : SettingsFile) :
    got m' file n k = got m file n k := by
  unfold got
  cases hx : m.get? n k with
  | none =>
      rw [hx, Option.map_none, Option.map_eq_none_iff] at h
      rw [h]
  | some x =>
      rw [hx, Option.map_some] at h
      obtain ⟨y, hy, hvalue⟩ := Option.map_eq_some_iff.1 h
      rw [hy]
      dsimp only
      rw [hvalue]

/-- The sections `m'` differ from `m` in the key `k` of `n` alone, whose value reads as `text` does.
-/
structure SetApart (m m' : FileSections) (n k text : String) : Prop where
  value_eq : ∃ x, m'.get? n k = some x ∧
    (Value.ofText x.value.written).equals (.ofText text) = true
  get?_eq : ∀ n' k', ¬ (n' = n ∧ k' = k) →
    (m'.get? n' k').map (·.value) = (m.get? n' k').map (·.value)

variable {n k text : String} {o : Outcome}

/-- **A `set` that succeeds** leaves its key set, and everything else as it was: the sections after
it are `SetApart`. -/
theorem setApart_of_setResult {l : Layout} {file : SettingsFile} {path : String}
    (hpath : l.settingsPath file = .ok path)
    (h : SetResult l (t.sections file path) n k text t o t') (ho : o.failure = none) :
    SetApart (t.sections file path) (t'.sections file path) n k text := by
  have has := t.asRead_sections file path
  cases h with
  | refused hcheck ho' => exact absurd ho ho'
  | unchanged hcheck hset ho' =>
      obtain ⟨x, hx, hvalue⟩ := FileSections.exists_equals_of_fst_set hset
      exact ⟨⟨x, hx, by rwa [has.settled hx]⟩, fun _ _ _ => rfl⟩
  | saved hcheck hsave ho' =>
      have hfile := t.file_sections file path
      rw [ho'.1 ho, hfile] at hsave
      have hget := FileSections.get?_read_write_set has hcheck
      -- the later command reads what was written of the sections with the key set
      have hread : t'.sections file path = (Ini.read (t.sections file path).file
          (Ini.write ((t.sections file path).set n k (.ofText text)).2)).sections := by
        conv_lhs => rw [Tree.sections, Repository.readText_of_saveIni hpath hsave]
        rw [hfile]
      rw [← hread] at hget
      refine ⟨?_, fun n' k' hne => (hget n' k').trans (if_neg hne)⟩
      obtain ⟨x, hx, hvalue⟩ := Option.map_eq_some_iff.1 ((hget n k).trans (if_pos ⟨rfl, rfl⟩))
      refine ⟨x, hx, ?_⟩
      rw [hvalue, Value.ofText_written_ofText, Value.equals_ofText_self]

/-- Whatever `set` comes to, `userDirectory?` finds the same directory after it. -/
theorem userDirectory?_of_setResult {directory path : String} {file : SettingsFile}
    (hpath : Layout.settingsPath ⟨directory⟩ file = .ok path)
    (h : SetResult ⟨directory⟩ (t.sections file path) n k text t o t')
    (hdirectory : userDirectory? e given t = some directory) :
    userDirectory? e given t' = some directory := by
  cases h with
  | refused _ _ => exact hdirectory
  | unchanged _ _ _ => exact hdirectory
  | saved _ hsave _ =>
      rw [t.file_sections] at hsave
      exact userDirectory?_of_saveIni hpath hsave hdirectory

/-- A `set` that is refused fails and leaves the tree `t` as it was. -/
theorem tree_eq_of_setResult {l : Layout} {m : FileSections} (h : SetResult l m n k text t o t')
    (hcheck : ¬ (checkName n = .ok () ∧ checkEntry k (.ofText text) = .ok ())) :
    t' = t ∧ o.failure ≠ none := by
  cases h with
  | refused _ ho => exact ⟨rfl, ho⟩
  | unchanged hpassed _ _ => exact absurd hpassed hcheck
  | saved hpassed _ _ => exact absurd hpassed hcheck

/-- **The command `set`** fails without a trace where it has no file to work on, and else does to
the sections of the file what `SetResult` says. -/
theorem cases_run_set {arguments : List String} {x : Exit}
    (h : request? e arguments = some (.run ⟨given, game, .set n k text⟩))
    (hrun : (run Tree.disk e arguments).run t = (x, t')) :
    ∃ o : Outcome, x = o.exit ∧ ((t' = t ∧ o.failure ≠ none) ∨
      ∃ file directory path, Session.forGame game = .new file ∧
        userDirectory? e given t = some directory ∧
        Layout.settingsPath ⟨directory⟩ file = .ok path ∧
        SetResult ⟨directory⟩ (t.sections file path) n k text t o t') := by
  obtain ⟨file, hnew⟩ := Session.exists_forGame_eq_new game
  obtain ⟨o, t₁, hinvoke⟩ : ∃ o t₁,
      (invoke Tree.disk e ⟨given, game, .set n k text⟩).run t = (o, t₁) := ⟨_, _, rfl⟩
  rw [run, h] at hrun
  dsimp only at hrun
  rw [StateT.run_map, hinvoke] at hrun
  obtain ⟨rfl, rfl⟩ := Prod.mk.inj hrun
  refine ⟨o, rfl, ?_⟩
  rw [run_invoke (i := ⟨given, game, .set n k text⟩) fun _ => Command.noConfusion] at hinvoke
  dsimp only at hinvoke
  cases hdirectory : userDirectory? e given t with
  | none =>
      rw [hdirectory] at hinvoke
      obtain ⟨rfl, rfl⟩ := Prod.mk.inj hinvoke
      exact .inl ⟨rfl, Option.some_ne_none _⟩
  | some directory =>
      rw [hdirectory] at hinvoke
      dsimp only at hinvoke
      cases hpath : Layout.settingsPath ⟨directory⟩ file with
      | error error =>
          rw [run_withLayout_error hnew hpath] at hinvoke
          obtain ⟨rfl, rfl⟩ := Prod.mk.inj hinvoke
          exact .inl ⟨rfl, Option.some_ne_none _⟩
      | ok path =>
          obtain ⟨s, hfile, hholds, hrun⟩ :=
            run_withLayout (i := ⟨given, game, .set n k text⟩) hnew hpath Command.noConfusion t
          rw [hrun, inSession] at hinvoke
          have hresult := setResult_setKey (l := ⟨directory⟩) hholds
            ((t.file_sections file path).trans hfile.symm) n k text t
          rw [hinvoke] at hresult
          exact .inr ⟨file, directory, path, hnew, rfl, hpath, hresult⟩

/-- **Getting what was set.** Whatever is in the tree `t`: after a `set` that succeeds, `get` with
the same options prints a text that reads as the value of `text`, and answers for every other
section `n'` and key `k'` what it answered before.  A `set` of a name, a key or a value that
`checkName` or `checkEntry` refuses fails, and leaves the tree as it was. -/
theorem get_after_set {arguments : List String} {x : Exit}
    (h : request? e arguments = some (.run ⟨given, game, .set n k text⟩))
    (hrun : (run Tree.disk e arguments).run t = (x, t')) :
    (x.code = 0 →
      (∀ arguments', request? e arguments' = some (.run ⟨given, game, .get n k⟩) →
        ∃ shown, (run Tree.disk e arguments').run t' = (⟨0, shown ++ "\n", ""⟩, t') ∧
          (Value.ofText shown).equals (.ofText text) = true) ∧
      ∀ n' k', ¬ (n' = n ∧ k' = k) →
        ∀ arguments', request? e arguments' = some (.run ⟨given, game, .get n' k'⟩) →
          ((run Tree.disk e arguments').run t').1 = ((run Tree.disk e arguments').run t).1) ∧
    (checkName n ≠ .ok () ∨ checkEntry k (.ofText text) ≠ .ok () → x.code ≠ 0 ∧ t' = t) := by
  obtain ⟨o, rfl, ⟨rfl, ho⟩ | ⟨file, directory, path, hnew, hdirectory, hpath, hset⟩⟩ :=
    cases_run_set h hrun
  · exact ⟨fun hcode => absurd (o.code_exit_eq_zero_iff.1 hcode) ho,
      fun _ => ⟨fun hcode => ho (o.code_exit_eq_zero_iff.1 hcode), rfl⟩⟩
  · refine ⟨fun hcode => ?_, fun hcheck => ?_⟩
    · have ho := o.code_exit_eq_zero_iff.1 hcode
      obtain ⟨⟨y, hy, hvalue⟩, hrest⟩ := setApart_of_setResult hpath hset ho
      -- the later command looks in the same place
      have hdirectory' := userDirectory?_of_setResult hpath hset hdirectory
      refine ⟨fun arguments' hget => ?_, fun n' k' hne arguments' hget => ?_⟩
      · refine ⟨y.value.written, ?_, hvalue⟩
        rw [run_get hget, lookUp_eq hnew hdirectory' hpath, got, hy]
        rfl
      · rw [run_get hget, run_get hget, lookUp_eq hnew hdirectory' hpath,
          lookUp_eq hnew hdirectory hpath, got_congr (hrest n' k' hne)]
    · obtain ⟨rfl, ho⟩ := tree_eq_of_setResult hset fun hpassed => by
        rcases hcheck with hname | hentry
        · exact hname hpassed.1
        · exact hentry hpassed.2
      exact ⟨fun hcode => ho (o.code_exit_eq_zero_iff.1 hcode), rfl⟩

/-- A settings file with a line before the first header, one that says nothing, a section `Core`
that is opened twice, and a key `limit` that stands twice. -/
def scribbled : Tree :=
  let text := "stray=1\n[Core]\nuse_vsync=0\nnonsense\n[=]\n a = b \n[Core]\nlimit=3\nlimit = 04"
  let t := Tree.empty.put ["u"] .directory
  (t.put ["u", "config"] .directory).put ["u", "config", "config.ini"] (.file (.text text))

/-- In the tree `scribbled`, `get` answers what was set under `use_vsync`, and for `limit` what it
did before. -/
theorem get_after_set_scribbled :
    let e : Environment := ⟨some "/u", none, none, none⟩
    let r := (run Tree.disk e ["set", "Core", "use_vsync", "01"]).run scribbled
    r.1.code = 0 ∧
      (∃ shown, (run Tree.disk e ["get", "Core", "use_vsync"]).run r.2 =
        (⟨0, shown ++ "\n", ""⟩, r.2) ∧ (Value.ofText shown).equals (.ofText "01") = true) ∧
      ((run Tree.disk e ["get", "Core", "limit"]).run r.2).1 =
        ((run Tree.disk e ["get", "Core", "limit"]).run scribbled).1 := by
  have hset : request? ⟨some "/u", none, none, none⟩ ["set", "Core", "use_vsync", "01"] =
      some (.run ⟨some "/u", none, .set "Core" "use_vsync" "01"⟩) := by decide +kernel
  obtain ⟨hdone, -⟩ := get_after_set (t := scribbled) hset rfl
  have hcode : ((run Tree.disk ⟨some "/u", none, none, none⟩
      ["set", "Core", "use_vsync", "01"]).run scribbled).1.code = 0 := by decide +kernel
  obtain ⟨hget, hrest⟩ := hdone hcode
  exact ⟨hcode, hget _ (by decide +kernel), hrest "Core" "limit" (by decide) _ (by decide +kernel)⟩

end CommandLine

end EmulatorSettings
