import EmulatorSettings.Proofs.Session.Hosting

/-!
# Sessions — background work and work in place

A host may have each load and each stop done in place or by a background task of its own.

* `HostAction.performBy_eq`: a background task does what is done in place over a repository whose
  crashes are answers, namely that the work was interrupted.
* `background_agrees`: so it is in every run, and without crashes the two ways are the same; and
  what comes of a load and of a save that crash.
-/

namespace EmulatorSettings

/-- Where the work of an action is done: by the host itself, or by a background task with a name. -/
inductive Way where
  | inPlace
  | task (name : String)
  deriving DecidableEq

variable {ε : Type} {m : Type → Type} [Monad m]

/-- The repository `r`, with the answer `interrupted` where `r` would crash. -/
def Repository.interrupting (task : String) (r : Repository (ExceptT Crash m)) :
    Repository (ExceptT Crash m) where
  load file :=
    tryCatch (r.load file) fun crash => return .error (.interrupted (crashReport task crash))
  save file sections :=
    tryCatch (r.save file sections) fun crash =>
      return .error (.interrupted (crashReport task crash))

/-- The repository that `r` comes to by each `Way`. -/
def Way.repository (r : Repository (ExceptT Crash m)) : Way → Repository (ExceptT Crash m)
  | inPlace   => r
  | task name => r.interrupting name

namespace HostAction

/-- Carries out an action in some `Way`.  Only loads and stops differ from `perform`. -/
def performBy (r : Repository (ExceptT Crash m)) (s : Session) :
    Way → HostAction ε → ExceptT Crash m Turn
  | .task name, load           => ExceptT.lift (Turn.ofLoad <$> s.loadInBackground name r)
  | .task name, stop finishing => ExceptT.lift (Turn.ofStop <$> s.stopInBackground name r finishing)
  | _,          a              => a.perform r s

/-- Carries out several actions by `performBy`, each in a way of its own. -/
def runBy (r : Repository (ExceptT Crash m)) :
    Session → List (Way × HostAction ε) → ExceptT Crash m (List Turn) :=
  runTurns fun s p => p.2.performBy r s p.1

end HostAction

/-! ### One action -/

section OneAction

variable [LawfulMonad m]

/-- What `settle` reports is what is left of `work` once its crash is caught. -/
theorem Repository.lift_settle {α : Type} (task : String)
    (work : ExceptT Crash m (Except StorageError α)) :
    ExceptT.lift (settle task <$> work.run) =
      tryCatch work fun crash => return .error (.interrupted (crashReport task crash)) := by
  refine ExceptT.ext ?_
  rw [ExceptT.run_lift, Functor.map_map, map_eq_pure_bind]
  refine bind_congr fun answer => ?_
  cases answer with
  | error crash => rfl
  | ok a => rfl

theorem Repository.inPlace_inBackground (task : String) (r : Repository (ExceptT Crash m)) :
    (r.inBackground task).inPlace = r.interrupting task := by
  simp only [inPlace, inBackground, interrupting, lift_settle]

/-- A repository that does not crash is not interrupted. -/
theorem Repository.interrupting_inPlace (task : String) (r : Repository m) :
    r.inPlace.interrupting task = r.inPlace := by
  rw [← inPlace_inBackground, inBackground_inPlace]

theorem lift_map {α β : Type} (f : α → β) (work : m α) :
    (f <$> ExceptT.lift work : ExceptT Crash m β) = ExceptT.lift (f <$> work) := by
  refine ExceptT.ext ?_
  rw [ExceptT.run_map, ExceptT.run_lift, ExceptT.run_lift, Functor.map_map, Functor.map_map]
  rfl

theorem Session.load_inPlace (r : Repository m) (s : Session) :
    s.load r.inPlace = ExceptT.lift (s.load r) := by
  unfold Session.load
  split
  · exact (ExceptT.lift_pure _).symm
  · exact lift_map s.finishLoad (r.load s.file)

theorem Session.stop_inPlace (r : Repository m) (s : Session) (finishing : Bool) :
    s.stop r.inPlace finishing = ExceptT.lift (s.stop r finishing) := by
  unfold Session.stop
  cases s.beginSave finishing with
  | none => exact (ExceptT.lift_pure _).symm
  | some sections => exact lift_map s.finishSave (r.save s.file sections)

namespace HostAction

/-- Over `r.inPlace` an action does what it does over `r`. -/
theorem perform_inPlace (r : Repository m) (s : Session) (a : HostAction ε) :
    a.perform r.inPlace s = ExceptT.lift (a.perform r s) := by
  cases a with
  | load => rw [perform, perform, Session.load_inPlace, lift_map]
  | stop finishing => rw [perform, perform, Session.stop_inPlace, lift_map]
  | _ => exact (ExceptT.lift_pure _).symm

/-- **An action in the background** is `perform` over a repository whose crashes are answers. -/
theorem performBy_eq (r : Repository (ExceptT Crash m)) (s : Session) (way : Way)
    (a : HostAction ε) : a.performBy r s way = a.perform (way.repository r) s := by
  cases way with
  | inPlace => rfl
  | task name =>
      rw [Way.repository, ← Repository.inPlace_inBackground, perform_inPlace]
      cases a with
      | load => rw [performBy, perform, Session.loadInBackground_eq]
      | stop finishing => rw [performBy, perform, Session.stopInBackground_eq]
      | _ => exact (ExceptT.lift_pure _).symm

end HostAction

end OneAction

/-! ### A run of actions -/

/-- Steps `step'` that lift `step` lead to a run that lifts its run. -/
theorem runTurns_lift [LawfulMonad m] {α β : Type} {step : Session → β → m Turn}
    {step' : Session → α → ExceptT Crash m Turn} {f : α → β}
    (h : ∀ s a, step' s a = ExceptT.lift (step s (f a))) (s : Session) (as : List α) :
    runTurns step' s as = ExceptT.lift (runTurns step s (as.map f)) := by
  induction as generalizing s with
  | nil => exact (ExceptT.lift_pure _).symm
  | cons a as ih =>
      rw [runTurns, List.map_cons, runTurns, h, ExceptT.lift_bind]
      simp only [ih, ExceptT.lift_bind, ExceptT.lift_pure]

/-! ### A task that crashes -/

section Crashing

variable {σ : Type} {r : Repository (ExceptT Crash (StateM σ))} {s : Session} {disk disk' : σ}

/-- A load in the background takes in what its task reports. -/
theorem run_loadInBackground (name : String) (hload : s.isLoaded = false)
    {answer : Except Crash (Except StorageError FileSections)}
    (h : (r.load s.file).run.run disk = (answer, disk')) :
    (s.loadInBackground name r).run disk =
      (s.finishLoad (Repository.settle name answer), disk') := by
  rw [Session.loadInBackground_eq, Session.load, if_neg (Bool.eq_false_iff.1 hload),
    Repository.inBackground, StateT.run_map, StateT.run_map, h]
  rfl

/-- A stop in the background with `sections` to save takes in what its task reports. -/
theorem run_stopInBackground (name : String) {finishing : Bool} {sections : FileSections}
    (hbegin : s.beginSave finishing = some sections)
    {answer : Except Crash (Except StorageError Unit)}
    (h : (r.save s.file sections).run.run disk = (answer, disk')) :
    (s.stopInBackground name r finishing).run disk =
      (s.finishSave (Repository.settle name answer), disk') := by
  rw [Session.stopInBackground_eq, Session.stop, hbegin]
  dsimp only
  rw [Repository.inBackground, StateT.run_map, StateT.run_map, h]
  rfl

end Crashing

/-- **Background work and work in place.** Over a repository that always answers, `runBy` is
`runAll`, whichever loads and stops are done in the background.  Over one that may crash, it goes on
as if each call that crashed in the background had been answered `interrupted`: a load that crashes
is told once, and leaves the session loaded, with what was edited so far; a save that crashes is
told once, and leaves the session as it was. -/
theorem background_agrees {σ : Type} {s : Session} (hs : Reachable (.session s)) (disk : σ)
    (plan : List (Way × HostAction ε)) :
    (∀ r : Repository (StateM σ), HostAction.runBy r.inPlace s plan =
      ExceptT.lift (HostAction.runAll r s (plan.map (·.2)))) ∧
    ∀ r : Repository (ExceptT Crash (StateM σ)),
      HostAction.runBy r s plan =
        runTurns (fun s p => p.2.perform (p.1.repository r) s) s plan ∧
      (∀ name crash disk', s.isLoaded = false →
        (r.load s.file).run.run disk = (.error crash, disk') → ∃ t,
          ((HostAction.load : HostAction ε).performBy r s (.task name)).run.run disk =
            (.ok ⟨none, [.settingsNotFound s.file], t⟩, disk') ∧
          t.isLoaded = true ∧ t.isDirty = s.isDirty ∧
          ∀ n k, t.sections.get? n k = s.sections.get? n k) ∧
      (∀ name crash disk' sections, s.beginSave true = some sections →
        (r.save s.file sections).run.run disk = (.error crash, disk') →
          ((HostAction.stop true : HostAction ε).performBy r s (.task name)).run.run disk =
            (.ok ⟨some .failed, [.message ("Error saving " ++ s.file.fileName ++ ": " ++
              (StorageError.interrupted (Repository.crashReport name crash)).message) false], s⟩,
              disk')) := by
  refine ⟨fun r => ?_, fun r => ⟨?_, fun name crash disk' hload h => ?_,
    fun name crash disk' sections hbegin h => ?_⟩⟩
  · refine runTurns_lift (fun s p => ?_) s plan
    rw [HostAction.performBy_eq]
    cases p.1 with
    | inPlace => exact HostAction.perform_inPlace r s p.2
    | task name =>
        rw [Way.repository, Repository.interrupting_inPlace, HostAction.perform_inPlace]
  · simp only [HostAction.runBy, HostAction.performBy_eq]
  · obtain ⟨hfile, hw⟩ := Settings.fileOrNew_spec (wellStored_of_reachable hs) s.file
    obtain ⟨-, -, hget⟩ := Session.get?_finishLoad (FileSections.wellStored_new s.file) rfl hw hfile
    refine ⟨(s.finishLoad (.ok (.new s.file))).2, ?_, rfl, rfl, fun n k => ?_⟩
    · rw [HostAction.performBy, ExceptT.run_lift, StateT.run_map, StateT.run_map,
        run_loadInBackground name hload h, Repository.settle, Session.finishLoad_error]
      rfl
    · rw [hget]
      exact Option.or_none
  · rw [HostAction.performBy, ExceptT.run_lift, StateT.run_map, StateT.run_map,
      run_stopInBackground name hbegin h]
    rfl

/-- A session in which a key was set before its file was loaded. -/
def Session.early : Session :=
  let op : Settings.Operation := .trySet .config "Renderer" "use_vsync" (.int 1)
  { Session.new .config with settings := (op.run .empty).2, isDirty := true }

/-- The load crashes, and the key stays set; so does the save that follows, and nothing is lost. -/
theorem crashed_load_keeps_edits :
    let r : Repository (ExceptT Crash (StateM Unit)) := .crashing "disk exploded"
    ∃ t, ((HostAction.load : HostAction Empty).performBy r .early (.task "5")).run.run () =
        (.ok ⟨none, [.settingsNotFound .config], t⟩, ()) ∧
      t.isLoaded = true ∧ t.isDirty = true ∧
      t.sections.get? "Renderer" "use_vsync" =
        some ⟨"use_vsync", "Renderer", .config, .int 1⟩ ∧
      ((HostAction.stop true : HostAction Empty).performBy r .early (.task "6")).run.run () =
        (.ok ⟨some .failed, [.message ("Error saving config.ini: " ++
          (StorageError.interrupted (Repository.crashReport "6" ⟨"disk exploded"⟩)).message) false],
          .early⟩, ()) := by
  intro r
  have hreachable : Reachable (.session Session.early) := by
    have hset :=
      Reachable.onAll .empty (.trySet .config "Renderer" "use_vsync" (.int 1)) nofun nofun
    exact .edit (.newSession .config) hset true
  obtain ⟨-, hcrash⟩ := background_agrees (ε := Empty) hreachable () []
  obtain ⟨-, hload, hsave⟩ := hcrash r
  obtain ⟨t, hperform, hloaded, hdirty, hget⟩ := hload "5" ⟨"disk exploded"⟩ () rfl rfl
  have hearly : Session.early.sections.get? "Renderer" "use_vsync" =
      some ⟨"use_vsync", "Renderer", .config, .int 1⟩ := by decide +kernel
  refine ⟨t, hperform, hloaded, hdirty, (hget _ _).trans hearly, ?_⟩
  exact hsave "6" ⟨"disk exploded"⟩ () Session.early.sections (by decide +kernel) rfl

end EmulatorSettings
