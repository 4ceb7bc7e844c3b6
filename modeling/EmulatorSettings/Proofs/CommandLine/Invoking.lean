import EmulatorSettings.CommandLine.Run
import EmulatorSettings.Proofs.Session.OnDisk

/-!
# Command line — what `get` and `set` come to

A command finds its user directory, loads the settings file, and works on the sections that it finds
there.  Up to that point nothing on the disk has changed.

* `run_invoke`, `run_withLayout`: a command on settings, once its directory and its sections are
  found.
* `run_lookUp`: what a command says that only looks, as a function of the tree.
* `setResult_setKey`: what `set` does with the sections: it refuses, finds nothing to change, or
  saves.
-/

namespace EmulatorSettings

namespace CommandLine

variable {e : Environment} {i : Invocation} {l : Layout} {t : Tree}

/-- The exit code is `0` exactly for an outcome without a failure. -/
theorem Outcome.code_exit_eq_zero_iff (o : Outcome) : o.exit.code = 0 ↔ o.failure = none := by
  unfold exit
  cases o.failure with
  | none => exact ⟨fun _ => rfl, fun _ => rfl⟩
  | some f =>
      have hone : (1 : UInt8) ≠ 0 := by decide
      exact ⟨fun h => absurd h hone, fun h => absurd h (Option.some_ne_none f)⟩

/-! ### Finding the user directory -/

/-- What comes of reading the file `path` of the preferences. -/
def preferencesOf (path : String) : Except DiskError String → Except PreferencesError Preferences
  | .ok text         => Preferences.ofText? text
  | .error .notFound => .ok .initial
  | .error cause     => .error (.disk path cause)

/-- Loading the preferences in `path` reads that file and leaves the tree `t` as it is. -/
theorem run_loadPreferences (path : String) (t : Tree) :
    (Preferences.load Tree.disk path).run t = (preferencesOf path (t.readText path), t) := by
  have hrun : (Tree.disk.readText path).run t = (t.readText path, t) := rfl
  rw [Preferences.load, Repository.run_bind_of_run hrun]
  cases t.readText path with
  | ok text => rfl
  | error cause => cases cause <;> rfl

/-- The preferences in the tree `t`, as `readPreferences` finds them. -/
def preferencesIn (e : Environment) (t : Tree) : Except PreferencesError Preferences :=
  ((readPreferences Tree.disk e).run t).1

theorem run_readPreferences (e : Environment) (t : Tree) :
    (readPreferences Tree.disk e).run t = (preferencesIn e t, t) := by
  unfold preferencesIn readPreferences
  cases Preferences.path e.preferences e.home with
  | error error => rfl
  | ok path =>
      dsimp only
      rw [run_loadPreferences]

/-- The user directory of a command: the one it was `given`, or the one that the preferences name.
-/
def userDirectory? (e : Environment) (given : Option String) (t : Tree) : Option String :=
  given <|> (preferencesIn e t).toOption.bind Preferences.directory?

/-- A command on settings files goes on in `withLayout` with its `userDirectory?`, on the same tree.
-/
theorem run_invoke (h : ∀ d, i.command ≠ .setUserDirectory d) (t : Tree) :
    (invoke Tree.disk e i).run t =
      match userDirectory? e i.userDirectory t with
      | none           => (.fail noDirectoryMessage [], t)
      | some directory => (withLayout Tree.disk ⟨directory⟩ i).run t := by
  rw [invoke, Repository.run_bind_of_run (run_readPreferences e t)]
  split
  · next hcommand _ => exact absurd hcommand (h _)
  · next hcommand _ => exact absurd hcommand (h _)
  · rw [userDirectory?]
    cases i.userDirectory <|> (preferencesIn e t).toOption.bind Preferences.directory? <;> rfl

/-! ### Working on the sections -/

variable {file : SettingsFile} {path : String}

/-- A command on settings goes on `inSession` with a session that holds the sections in the tree
`t`. -/
theorem run_withLayout (hnew : Session.forGame i.game = .new file)
    (hpath : l.settingsPath file = .ok path) (hcommand : i.command ≠ .path) (t : Tree) :
    ∃ s : Session, s.file = file ∧ s.Holds (t.sections file path) ∧
      (withLayout Tree.disk l i).run t = (inSession (.ini Tree.disk l) s i.command).run t := by
  obtain ⟨result, hload, hsections⟩ := Repository.exists_run_loadIni hpath t
  have hholds : ((Session.new file).finishLoad result).2.Holds (t.sections file path) := by
    rw [← hsections]
    refine Session.holds_finishLoad ?_
    rw [hsections, Tree.file_sections]
  have hrun : ((Session.new file).load (.ini Tree.disk l)).run t =
      ((Session.new file).finishLoad result, t) := by
    change ((Session.new file).finishLoad <$> Repository.loadIni Tree.disk l file).run t = _
    rw [StateT.run_map]
    exact congrArg (fun p => ((Session.new file).finishLoad p.1, p.2)) hload
  refine ⟨((Session.new file).finishLoad result).2, rfl, hholds, ?_⟩
  rw [withLayout, hnew]
  dsimp only
  rw [Session.file_new, hpath]
  dsimp only
  rw [if_neg hcommand, Repository.run_bind_of_run hrun]

/-- Where the settings file would have no path, no command on settings does anything: `withLayout`
says why. -/
theorem run_withLayout_error (hnew : Session.forGame i.game = .new file) {error : StorageError}
    (hpath : l.settingsPath file = .error error) (t : Tree) :
    (withLayout Tree.disk l i).run t = (.fail error.message [], t) := by
  rw [withLayout, hnew]
  dsimp only
  rw [Session.file_new, hpath]
  rfl

/-- What a command says that only looks at the sections of its file, by `look`, or why it has none.
-/
def lookUp (e : Environment) (given game : Option String)
    (look : FileSections → SettingsFile → Outcome) (t : Tree) : Outcome :=
  let file := (Session.forGame game).file
  match userDirectory? e given t with
  | none           => .fail noDirectoryMessage []
  | some directory =>
    match Layout.settingsPath ⟨directory⟩ file with
    | .error error => .fail error.message []
    | .ok path     => look (t.sections file path) file

variable {given game : Option String} {look : FileSections → SettingsFile → Outcome}

/-- Once the place of the file is known, `lookUp` is what `look` says of the sections there. -/
theorem lookUp_eq {directory path : String} {file : SettingsFile}
    (hnew : Session.forGame game = .new file)
    (hdirectory : userDirectory? e given t = some directory)
    (hpath : Layout.settingsPath ⟨directory⟩ file = .ok path) :
    lookUp e given game look t = look (t.sections file path) file := by
  rw [lookUp, hnew, Session.file_new, hdirectory]
  dsimp only
  rw [hpath]

/-- **A command that only looks** says what `lookUp` finds, and leaves the tree `t` as it is. -/
theorem run_lookUp {arguments : List String} {command : Command}
    (h : request? e arguments = some (.run ⟨given, game, command⟩))
    (hset : ∀ d, command ≠ .setUserDirectory d) (hcommand : command ≠ .path)
    (hlook : ∀ (r : Repository (StateM Tree)) s,
      inSession r s command = pure (look s.sections s.file)) (t : Tree) :
    (run Tree.disk e arguments).run t = ((lookUp e given game look t).exit, t) := by
  obtain ⟨file, hnew⟩ := Session.exists_forGame_eq_new game
  have hinvoke : (invoke Tree.disk e ⟨given, game, command⟩).run t =
      (lookUp e given game look t, t) := by
    rw [run_invoke (i := ⟨given, game, command⟩) hset, lookUp, hnew, Session.file_new]
    dsimp only
    cases userDirectory? e given t with
    | none => rfl
    | some directory =>
        dsimp only
        cases hpath : Layout.settingsPath ⟨directory⟩ file with
        | error error => exact run_withLayout_error hnew hpath t
        | ok path =>
            obtain ⟨s, hfile, hholds, hrun⟩ :=
              run_withLayout (i := ⟨given, game, command⟩) hnew hpath hcommand t
            rw [hrun, hlook, hholds.sections_eq, hfile]
            rfl
  rw [run, h]
  dsimp only
  rw [StateT.run_map]
  exact congrArg (fun p => (Outcome.exit p.1, p.2)) hinvoke

/-- **The command `get`** prints its answer, as `got` has it, and leaves the tree `t` as it is. -/
theorem run_get {arguments : List String} {sectionName key : String}
    (h : request? e arguments = some (.run ⟨given, game, .get sectionName key⟩)) (t : Tree) :
    (run Tree.disk e arguments).run t =
      ((lookUp e given game (fun m file => got m file sectionName key) t).exit, t) :=
  run_lookUp h (fun _ => Command.noConfusion) Command.noConfusion (fun _ _ => rfl) t

/-! ### Setting a key -/

/-- What `set` of `n` and `k` to `text` came to in the tree `t`, with sections `m` before it: the
outcome and the tree after it. -/
inductive SetResult (l : Layout) (m : FileSections) (n k text : String) (t : Tree) :
    Outcome → Tree → Prop where
  | refused {o : Outcome} (hcheck : ¬ (checkName n = .ok () ∧ checkEntry k (.ofText text) = .ok ()))
      (ho : o.failure ≠ none) : SetResult l m n k text t o t
  | unchanged {o : Outcome}
      (hcheck : checkName n = .ok () ∧ checkEntry k (.ofText text) = .ok ())
      (hset : (m.set n k (.ofText text)).1 = false) (ho : o.failure = none) :
      SetResult l m n k text t o t
  | saved {o : Outcome} {t' : Tree} {result : Except StorageError Unit}
      (hcheck : checkName n = .ok () ∧ checkEntry k (.ofText text) = .ok ())
      (hsave : (Repository.saveIni Tree.disk l m.file (m.set n k (.ofText text)).2).run t =
        (result, t'))
      (ho : o.failure = none ↔ result = .ok ()) : SetResult l m n k text t o t'

/-- The session `s` after the key `k` of the section `n` was set in it. -/
def afterSet (s : Session) (n k text : String) : Session :=
  let r := s.settings.set s.file n k (.ofText text)
  { s with settings := r.2, isDirty := s.isDirty || r.1 }

/-- Where nothing is refused, `setKey` stops the session `afterSet` for good. -/
theorem run_setKey {s : Session} {n k text : String}
    (hcheck : checkName n = .ok () ∧ checkEntry k (.ofText text) = .ok ()) (t : Tree) :
    let changed := (s.settings.set s.file n k (.ofText text)).1
    let stop := ((afterSet s n k text).stop (.ini Tree.disk l) true).run t
    (setKey (.ini Tree.disk l) s n k text).run t =
      (stopOutcome (if changed then "" else k ++ " is already " ++ text ++ "\n") s.file stop.1,
        stop.2) := by
  rw [setKey, Session.edit, (Settings.trySet_eq_ok s.file).2 ⟨hcheck.1, hcheck.2, rfl⟩]
  rfl

/-- **What `setKey` does** with the sections `m`: it refuses, finds nothing to change, or saves. -/
theorem setResult_setKey {s : Session} {m : FileSections} (hholds : s.Holds m)
    (hfile : m.file = s.file) (n k text : String) (t : Tree) :
    SetResult l m n k text t ((setKey (.ini Tree.disk l) s n k text).run t).1
      ((setKey (.ini Tree.disk l) s n k text).run t).2 := by
  by_cases hcheck : checkName n = .ok () ∧ checkEntry k (.ofText text) = .ok ()
  · have hset := s.settings.file?_set s.file n k (.ofText text)
    have hm : s.settings.fileOrNew s.file = m := hholds.sections_eq
    have hchanged : (s.settings.set s.file n k (.ofText text)).1 = (m.set n k (.ofText text)).1 :=
      hm ▸ rfl
    have hdirty : (afterSet s n k text).isDirty = (m.set n k (.ofText text)).1 := by
      rw [← hchanged, afterSet, hholds.isDirty_eq, Bool.false_or]
    rw [hm] at hset
    rw [run_setKey hcheck]
    cases hc : (m.set n k (.ofText text)).1 with
    | false =>
        have hnone : (afterSet s n k text).beginSave true = none := by
          rw [Session.beginSave, hdirty, hc]
          rfl
        rw [Session.stop_of_beginSave_eq_none _ hnone]
        exact .unchanged hcheck hc rfl
    | true =>
        have hsome : (afterSet s n k text).beginSave true = some (m.set n k (.ofText text)).2 := by
          rw [Session.beginSave, hdirty, hc]
          exact hset
        obtain ⟨result, t', hsave⟩ : ∃ result t', (Repository.saveIni Tree.disk l s.file
            (m.set n k (.ofText text)).2).run t = (result, t') := ⟨_, _, rfl⟩
        rw [Session.run_stop_of_beginSave hsome hsave]
        refine .saved hcheck (hfile ▸ hsave) ?_
        cases result with
        | error error => exact ⟨nofun, nofun⟩
        | ok u => exact ⟨fun _ => rfl, fun _ => rfl⟩
  · rw [setKey, Session.edit]
    cases htry : s.settings.trySet s.file n k (.ofText text) with
    | error error => exact .refused hcheck nofun
    | ok r =>
        obtain ⟨hname, hentry, -⟩ := (Settings.trySet_eq_ok s.file).1 htry
        exact absurd ⟨hname, hentry⟩ hcheck

end CommandLine

end EmulatorSettings
