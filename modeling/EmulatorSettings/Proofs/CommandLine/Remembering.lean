import EmulatorSettings.Proofs.CommandLine.Invoking
import EmulatorSettings.Proofs.Preferences.Saving

/-!
# Command line — `set-user-dir`

The system may name a directory in its own way: a link gives it the name of something else, and some
names are no text.  So what it answers is a parameter here.

* `asksToRemember_of_words`: arguments that ask for it.
* `rememberResult_invoke`: how far the command comes.
* `preferences_after_setUserDirectory`: a command that succeeds replaces the user directory in the
  preferences and nothing else; one that fails leaves every file as it is.
-/

namespace EmulatorSettings

/-- The disk that is a tree, on which `name` is what the system answers for the name of a directory.
-/
def Tree.diskNamed (name : Tree → String → Except DiskError DirectoryName) : Disk (StateM Tree) :=
  { disk with canonical := fun path t => (name t path, t) }

/-- On `Tree.disk` the system answers `canonical`, which is text. -/
theorem Tree.disk_eq_diskNamed :
    disk = diskNamed fun t path => (t.canonical path).map .text := rfl

namespace CommandLine

variable {name : Tree → String → Except DiskError DirectoryName} {e : Environment}
  {arguments : List String} {directory : String} {t t' : Tree}

/-! ### Arguments -/

/-- Whatever `arguments` are, all they may ask for is to remember `directory`. -/
def AsksToRemember (e : Environment) (arguments : List String) (directory : String) : Prop :=
  ∀ r, request? e arguments = some r →
    ∃ given game, r = .run ⟨given, game, .setUserDirectory directory⟩

/-- Where the `words` after the command can only make it, so can the arguments. -/
theorem asksToRemember_of_readWords {words : List String}
    (h : ∀ c, readWords .setUserDirectory [] false false words = some c →
      c = .command (.setUserDirectory directory)) (e : Environment) :
    AsksToRemember e ("set-user-dir" :: words) directory := by
  intro r hr
  have hname : CommandName.ofString? "set-user-dir" = some .setUserDirectory := rfl
  rw [request?, readOptions.eq_def] at hr
  dsimp only at hr
  rw [hname] at hr
  dsimp only at hr
  cases hwords : readWords .setUserDirectory [] false false words with
  | none =>
      rw [hwords] at hr
      cases hr
  | some c =>
      rw [hwords, h c hwords] at hr
      obtain ⟨i, hi, rfl⟩ := Option.map_eq_some_iff.1 hr
      change (if e.userDirectory = some "" then none else _ : Option Invocation) = _ at hi
      split at hi
      · cases hi
      · exact ⟨_, _, congrArg Request.run (Option.some.inj hi).symm⟩

/-- A word that is no option is the `directory`, unless it is empty. -/
theorem readWords_directory {afterDashes : Bool} {c : CommandRequest}
    (h : afterDashes = true ∨ (!isOption directory) = true)
    (hc : readWords .setUserDirectory [] false afterDashes [directory] = some c) :
    c = .command (.setUserDirectory directory) := by
  rw [readWords.eq_def] at hc
  dsimp only at hc
  rw [if_pos h, if_pos (by decide), List.nil_append, readWords, CommandName.command?] at hc
  split at hc
  · cases hc
  · exact (Option.some.inj hc).symm

/-- **The command `set-user-dir` and a word** ask for nothing else, unless the word asks for help;
after two dashes not even that makes a difference. -/
theorem asksToRemember_of_words {words : List String}
    (h : words = [directory] ∧ asksForHelp directory = false ∨ words = ["--", directory])
    (e : Environment) : AsksToRemember e ("set-user-dir" :: words) directory := by
  refine asksToRemember_of_readWords (fun c hc => ?_) e
  rcases h with ⟨rfl, hhelp⟩ | rfl
  · cases hoption : isOption directory with
    | false => exact readWords_directory (.inr (by rw [hoption]; rfl)) hc
    | true =>
        have hdashes : readWords .setUserDirectory [] false true [] = none := rfl
        have hjson : ¬ (directory = "--json" ∧ CommandName.setUserDirectory = .show ∧
            (!false) = true) := fun hj => absurd hj.2.1 (by decide)
        rw [readWords.eq_def] at hc
        dsimp only at hc
        rw [hoption, hdashes, if_neg (by decide), if_neg hjson, hhelp] at hc
        split at hc <;> cases hc
  · have hdashes : readWords .setUserDirectory [] false false ["--", directory] =
        readWords .setUserDirectory [] false true [directory] := by
      rw [readWords.eq_def]
      dsimp only
      rw [if_neg (by decide +kernel), if_pos rfl]
    exact readWords_directory (.inl rfl) (hdashes.symm.trans hc)

/-! ### The command -/

/-- How far the command comes in the tree `t`: how it ends, and the tree it leaves. -/
inductive RememberResult (name : Tree → String → Except DiskError DirectoryName) (e : Environment)
    (directory : String) (t : Tree) : Outcome → Tree → Prop where
  | unread {error : PreferencesError} (hread : preferencesIn e t = .error error) :
      RememberResult name e directory t
        (.fail "not overwriting the front-end config" (preferencesCauses error)) t
  | inaccessible {p : Preferences} {cause : DiskError} (hread : preferencesIn e t = .ok p)
      (hname : name t directory = .error cause) :
      RememberResult name e directory t
        (.fail ("user directory " ++ directory ++ " is not accessible") [cause.message]) t
  | notSaved {p : Preferences} {n : DirectoryName} {path : String} {error : PreferencesError}
      {t' : Tree} (hread : preferencesIn e t = .ok p) (hname : name t directory = .ok n)
      (hpath : Preferences.path e.preferences e.home = .ok path)
      (hsave : (Preferences.save Tree.disk path { p with userDirectory := some n }).run t =
        (.error error, t')) :
      RememberResult name e directory t
        (.fail "saving the front-end config" (preferencesCauses error)) t'
  | saved {p : Preferences} {place path : String} {t' : Tree} (hread : preferencesIn e t = .ok p)
      (hname : name t directory = .ok (.text place))
      (hpath : Preferences.path e.preferences e.home = .ok path)
      (hsave : (Preferences.save Tree.disk path { p with userDirectory := some (.text place) }).run
        t = (.ok (), t')) :
      RememberResult name e directory t (.printLine ("user directory set to " ++ place)) t'

/-- Preferences are read from a file with a `Preferences.path`. -/
theorem exists_path_of_preferencesIn {p : Preferences} (h : preferencesIn e t = .ok p) :
    ∃ path, Preferences.path e.preferences e.home = .ok path := by
  cases hpath : Preferences.path e.preferences e.home with
  | ok path => exact ⟨path, rfl⟩
  | error error =>
      rw [preferencesIn, readPreferences, hpath] at h
      cases h

/-- What `Preferences.load` finds in the file of the preferences is `preferencesIn`. -/
theorem preferencesIn_of_load {path : String} {p : Preferences}
    (hpath : Preferences.path e.preferences e.home = .ok path)
    (hload : (Preferences.load Tree.disk path).run t = (.ok p, t)) : preferencesIn e t = .ok p := by
  rw [preferencesIn, readPreferences, hpath]
  exact congrArg Prod.fst hload

/-- **What the command does**, by `invoke`: it reads the preferences, asks for the `name` of the
directory and saves, and stops where that fails. -/
theorem rememberResult_invoke (name : Tree → String → Except DiskError DirectoryName)
    (e : Environment) {i : Invocation} (hcommand : i.command = .setUserDirectory directory)
    (t : Tree) :
    RememberResult name e directory t ((invoke (Tree.diskNamed name) e i).run t).1
      ((invoke (Tree.diskNamed name) e i).run t).2 := by
  have hread : (readPreferences (Tree.diskNamed name) e).run t = (preferencesIn e t, t) :=
    run_readPreferences e t
  rw [invoke, Repository.run_bind_of_run hread, hcommand]
  cases hp : preferencesIn e t with
  | error error => exact .unread hp
  | ok p =>
      obtain ⟨path, hpath⟩ := exists_path_of_preferencesIn hp
      have hcanonical : ((Tree.diskNamed name).canonical directory).run t =
        (name t directory, t) := rfl
      dsimp only
      rw [rememberDirectory, Repository.run_bind_of_run hcanonical]
      cases hname : name t directory with
      | error cause => exact .inaccessible hp hname
      | ok n =>
          dsimp only
          rw [hpath]
          dsimp only
          obtain ⟨result, t', hsave⟩ : ∃ result t', (Preferences.save Tree.disk path
              { p with userDirectory := some n }).run t = (result, t') := ⟨_, _, rfl⟩
          have hsave' : (Preferences.save (Tree.diskNamed name) path
              { p with userDirectory := some n }).run t = (result, t') := hsave
          rw [Repository.run_bind_of_run hsave']
          cases result with
          | error error => exact .notSaved hp hname hpath hsave
          | ok u =>
              cases n with
              | text place => exact .saved hp hname hpath hsave
              | bytes b =>
                  obtain ⟨_ | d, hd⟩ := (Preferences.saveResult_of_run hsave).exists_directory
                  · cases hd
                  · cases hd

/-! ### The program -/

/-- Arguments with `AsksToRemember` ask for nothing, or for the command with its options. -/
theorem cases_of_asksToRemember (h : AsksToRemember e arguments directory) :
    request? e arguments = none ∨
      ∃ given game,
        request? e arguments = some (.run ⟨given, game, .setUserDirectory directory⟩) := by
  cases hrequest : request? e arguments with
  | none => exact .inl rfl
  | some r =>
      obtain ⟨given, game, rfl⟩ := h r hrequest
      exact .inr ⟨given, game, rfl⟩

/-- **The program** ends as the command does, in a `RememberResult`. -/
theorem exists_rememberResult {given game : Option String} {x : Exit}
    (h : request? e arguments = some (.run ⟨given, game, .setUserDirectory directory⟩))
    (hrun : (run (Tree.diskNamed name) e arguments).run t = (x, t')) :
    ∃ o, RememberResult name e directory t o t' ∧ x = o.exit := by
  obtain ⟨o, t₁, hinvoke⟩ : ∃ o t₁, (invoke (Tree.diskNamed name) e
      ⟨given, game, .setUserDirectory directory⟩).run t = (o, t₁) := ⟨_, _, rfl⟩
  have hresult := rememberResult_invoke name e
    (i := ⟨given, game, .setUserDirectory directory⟩) rfl t
  rw [run, h] at hrun
  dsimp only at hrun
  rw [StateT.run_map, hinvoke] at hrun
  obtain ⟨rfl, rfl⟩ := Prod.mk.inj hrun
  rw [hinvoke] at hresult
  exact ⟨o, hresult, rfl⟩

/-- **A command that succeeds** has put the name of `directory` into the preferences `p`, and kept
what else they say. -/
theorem RememberResult.preferencesIn_eq {o : Outcome} (h : RememberResult name e directory t o t')
    (ho : o.failure = none) :
    ∃ p place, preferencesIn e t = .ok p ∧ name t directory = .ok (.text place) ∧
      preferencesIn e t' = .ok { p with userDirectory := some (.text place) } := by
  cases h with
  | unread => cases ho
  | inaccessible => cases ho
  | notSaved => cases ho
  | saved hread hname hpath hsave =>
      exact ⟨_, _, hread, hname,
        preferencesIn_of_load hpath (Preferences.saveResult_of_run hsave).load⟩

/-- **A command that fails** leaves every file as it is, and makes none: `t'` has the files of `t`.
-/
theorem RememberResult.node?_eq_file_iff {o : Outcome} (h : RememberResult name e directory t o t')
    (ho : o.failure ≠ none) (place : List String) (c : Contents) :
    t'.node? place = some (.file c) ↔ t.node? place = some (.file c) := by
  cases h with
  | unread => exact .rfl
  | inaccessible => exact .rfl
  | notSaved hread hname hpath hsave =>
      exact (Preferences.saveResult_of_run hsave).node?_eq_file_iff nofun place c
  | saved => exact absurd rfl ho

/-- **The command succeeds** if the preferences can be read, `directory` has a name that is text,
and the preferences with that name can be saved. -/
theorem RememberResult.failure_eq_none_iff {o : Outcome}
    (h : RememberResult name e directory t o t') :
    o.failure = none ↔ ∃ p place path, preferencesIn e t = .ok p ∧
      name t directory = .ok (.text place) ∧ Preferences.path e.preferences e.home = .ok path ∧
      (Preferences.save Tree.disk path { p with userDirectory := some (.text place) }).run t =
        (.ok (), t') := by
  cases h with
  | unread hread =>
      refine ⟨nofun, ?_⟩
      rintro ⟨p, place, path, hread', -⟩
      cases hread.symm.trans hread'
  | inaccessible hread hname =>
      refine ⟨nofun, ?_⟩
      rintro ⟨p, place, path, -, hname', -⟩
      cases hname.symm.trans hname'
  | notSaved hread hname hpath hsave =>
      refine ⟨nofun, ?_⟩
      rintro ⟨p, place, path, hread', hname', hpath', hsave'⟩
      obtain rfl := Except.ok.inj (hread.symm.trans hread')
      obtain rfl := Except.ok.inj (hname.symm.trans hname')
      obtain rfl := Except.ok.inj (hpath.symm.trans hpath')
      cases hsave.symm.trans hsave'
  | saved hread hname hpath hsave =>
      exact ⟨fun _ => ⟨_, _, _, hread, hname, hpath, hsave⟩, fun _ => rfl⟩

/-- **The preferences are never damaged** by `set-user-dir`.  With the exit code `0` the program has
replaced `userDirectory` in the preferences by the `name` of `directory` and nothing else.  With
another code, for whatever reason, it leaves every file as it is and makes none.  The code is `0`
whenever the preferences can be read, `directory` has a name that is text, and the preferences with
that name can be saved. -/
theorem preferences_after_setUserDirectory {x : Exit} (h : AsksToRemember e arguments directory)
    (hrun : (run (Tree.diskNamed name) e arguments).run t = (x, t')) :
    (x.code = 0 → ∃ p place, preferencesIn e t = .ok p ∧ name t directory = .ok (.text place) ∧
        preferencesIn e t' = .ok { p with userDirectory := some (.text place) }) ∧
      (x.code ≠ 0 → ∀ place c,
        t'.node? place = some (.file c) ↔ t.node? place = some (.file c)) ∧
      (x.code = 0 ↔ request? e arguments ≠ none ∧
        ∃ p place path, preferencesIn e t = .ok p ∧ name t directory = .ok (.text place) ∧
          Preferences.path e.preferences e.home = .ok path ∧
          (Preferences.save Tree.disk path { p with userDirectory := some (.text place) }).run t =
            (.ok (), t')) := by
  obtain hmisused | ⟨given, game, hrequest⟩ := cases_of_asksToRemember h
  · rw [run_of_request?_eq_none _ hmisused] at hrun
    obtain ⟨rfl, rfl⟩ := Prod.mk.inj hrun
    have hcode : ¬ (2 : UInt8) = 0 := by decide
    exact ⟨fun hzero => absurd hzero hcode, fun _ _ _ => .rfl,
      fun hzero => absurd hzero hcode, fun hsome => absurd hmisused hsome.1⟩
  · obtain ⟨o, hresult, rfl⟩ := exists_rememberResult hrequest hrun
    have hsome : request? e arguments ≠ none := hrequest ▸ Option.some_ne_none _
    rw [Ne, Outcome.code_exit_eq_zero_iff, hresult.failure_eq_none_iff]
    refine ⟨fun hdone => hresult.preferencesIn_eq (hresult.failure_eq_none_iff.2 hdone),
      fun hfail => hresult.node?_eq_file_iff (mt hresult.failure_eq_none_iff.1 hfail),
      fun hdone => ⟨hsome, hdone⟩, And.right⟩

/-- A user without options, whose home directory is `/home`. -/
def home : Environment :=
  ⟨none, none, none, some "/home"⟩

/-- A home directory with preferences, and a directory `/games`. -/
def homeTree : Tree :=
  ((((Tree.empty.put ["home"] .directory).put ["home", ".config"] .directory).put
    ["home", ".config", "emucfg"] .directory).put ["home", ".config", "emucfg", "config.toml"]
      (.file (.text "log_level = \"debug\"\n"))).put ["games"] .directory

/-- The directory `/games/.` is remembered as `/games`; where its name were no text, the file would
stay as it is. -/
theorem preferences_after_setUserDirectory_at_home :
    (∃ t, (run Tree.disk home ["set-user-dir", "/games/."]).run homeTree =
        (⟨0, "user directory set to /games\n", ""⟩, t) ∧
      preferencesIn home t = .ok ⟨some (.text "/games"), "debug"⟩) ∧
    ∃ x t, (run (Tree.diskNamed fun _ _ => .ok (.bytes [0xff])) home
        ["set-user-dir", "/games/."]).run homeTree = (x, t) ∧ x.code = 1 ∧
      t.node? ["home", ".config", "emucfg", "config.toml"] =
        some (.file (.text "log_level = \"debug\"\n")) := by
  have hasks : AsksToRemember home ["set-user-dir", "/games/."] "/games/." :=
    asksToRemember_of_words (.inl ⟨rfl, by decide +kernel⟩) home
  have hread : preferencesIn home homeTree = .ok ⟨none, "debug"⟩ := by decide +kernel
  have hname : (homeTree.canonical "/games/.").map DirectoryName.text = .ok (.text "/games") := by
    decide +kernel
  constructor
  · obtain ⟨x, t, hrun⟩ : ∃ x t, (run Tree.disk home ["set-user-dir", "/games/."]).run homeTree =
      (x, t) := ⟨_, _, rfl⟩
    have hx : x = ⟨0, "user directory set to /games\n", ""⟩ :=
      (congrArg Prod.fst hrun).symm.trans (by decide +kernel)
    rw [Tree.disk_eq_diskNamed] at hrun
    obtain ⟨p, place, hp, hplace, hafter⟩ :=
      (preferences_after_setUserDirectory hasks hrun).1 (hx ▸ rfl)
    obtain rfl := Except.ok.inj (hread.symm.trans hp)
    obtain rfl := DirectoryName.text.inj (Except.ok.inj (hname.symm.trans hplace))
    exact ⟨t, Tree.disk_eq_diskNamed ▸ hx ▸ hrun, hafter⟩
  · obtain ⟨x, t, hrun⟩ : ∃ x t, (run (Tree.diskNamed fun _ _ => .ok (.bytes [0xff])) home
      ["set-user-dir", "/games/."]).run homeTree = (x, t) := ⟨_, _, rfl⟩
    have hx : x.code = 1 :=
      (congrArg (fun r => r.1.code) hrun).symm.trans (by decide +kernel)
    have hkept := (preferences_after_setUserDirectory hasks hrun).2.1 (hx ▸ by decide)
    exact ⟨x, t, hrun, hx, (hkept _ _).2 (by decide +kernel)⟩

end CommandLine

end EmulatorSettings
