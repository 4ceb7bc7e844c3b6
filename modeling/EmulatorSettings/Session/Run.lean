import EmulatorSettings.Session.Basic

/-!
# Sessions — loading and stopping

The steps of a session that load or save, with the repository that does it.  A crash of the
repository is an effect of its own, so it passes through `load` and `stop` and leaves the session as
it was.

A host that must not wait has its files read and written by background tasks.  Such a task ends
with the repository's answer, or it crashes; the session is handed the result when the task is over,
and a task that crashed counts as interrupted work.

* `load_of_isLoaded`: a file that has been loaded is not loaded again.
* `stop_of_beginSave_eq_none`: without something to save the repository is not asked.
* `loadInBackground_eq`, `stopInBackground_eq`: `loadInBackground task r` and
  `stopInBackground task r` are `load` and `stop` over `r.inBackground task`.
-/

namespace EmulatorSettings

/-! ### Over a repository -/

variable {m : Type → Type} [Monad m]

/-- Reads `file` outside any session, with the notices of `Notice.ofLoad`. -/
def Repository.loadReporting (r : Repository m) (file : SettingsFile) :
    m (FileSections × List Notice) :=
  Notice.ofLoad file <$> r.load file

/-- Writes `file` outside any session, with the notices of `Notice.ofSave`. -/
def Repository.saveReporting (r : Repository m) (file : SettingsFile) (sections : FileSections) :
    m (Except StorageError Unit × List Notice) :=
  (fun result => (result, Notice.ofSave file result)) <$> r.save file sections

namespace Session

/-- Loads the session's file from `r`, unless `isLoaded` says that it has been done. -/
def load (r : Repository m) (s : Session) : m (List Notice × Session) :=
  if s.isLoaded then pure ([], s.withFile) else s.finishLoad <$> r.load s.file

/-- Stops the session, for good if it is `finishing`: what `beginSave` gives is saved to `r`. -/
def stop (r : Repository m) (s : Session) (finishing : Bool) : m Stop :=
  match s.beginSave finishing with
  | none          => pure ⟨.skipped, [], s⟩
  | some sections => s.finishSave <$> r.save s.file sections

/-- A session whose file has been loaded does not ask `r` again. -/
theorem load_of_isLoaded (r : Repository m) {s : Session} (h : s.isLoaded = true) :
    s.load r = pure ([], s.withFile) := by
  simp [load, h]

/-- Where `beginSave` gives nothing, the stop is `skipped` and `r` is not asked. -/
theorem stop_of_beginSave_eq_none (r : Repository m) {s : Session} {finishing : Bool}
    (h : s.beginSave finishing = none) : s.stop r finishing = pure ⟨.skipped, [], s⟩ := by
  simp [stop, h]

end Session

/-! ### With a background worker -/

/-- Why work in the background fails: `storage` failed, or the task that did the work `crashed`. -/
inductive BackgroundError where
  | storage (e : StorageError)
  | crashed (task : String) (crash : Crash)
  deriving DecidableEq

/-- The error that a session is told; a crash is work that was `interrupted`. -/
def BackgroundError.toStorageError : BackgroundError → StorageError
  | storage e          => e
  | crashed task crash => .interrupted (Repository.crashReport task crash)

namespace Repository

/-- What is left of a background `task` when it is over. -/
def joined {α : Type} (task : String) (work : ExceptT Crash m (Except StorageError α)) :
    m (Except BackgroundError α) := do
  match ← work.run with
  | .error crash     => return .error (.crashed task crash)
  | .ok (.error e)   => return .error (.storage e)
  | .ok (.ok answer) => return .ok answer

end Repository

namespace Session

/-- Loads the session's file by a background `task`, unless it has been loaded. -/
def loadInBackground (task : String) (r : Repository (ExceptT Crash m)) (s : Session) :
    m (List Notice × Session) := do
  if s.isLoaded then return ([], s.withFile)
  let result ← Repository.joined task (r.load s.file)
  return s.finishLoad (result.mapError BackgroundError.toStorageError)

/-- Stops the session, where a background `task` writes what there is to save. -/
def stopInBackground (task : String) (r : Repository (ExceptT Crash m)) (s : Session)
    (finishing : Bool) : m Stop := do
  match s.beginSave finishing with
  | none          => return ⟨.skipped, [], s⟩
  | some sections =>
    let result ← Repository.joined task (r.save s.file sections)
    return s.finishSave (result.mapError BackgroundError.toStorageError)

end Session

/-! ### Loading and stopping in the background -/

variable [LawfulMonad m]

/-- What a session makes of `joined task work` is what it makes of `settle task` of that work. -/
theorem Repository.joined_bind {α β : Type} (task : String)
    (work : ExceptT Crash m (Except StorageError α)) (f : Except StorageError α → β) :
    (do let result ← joined task work; return f (result.mapError BackgroundError.toStorageError)) =
      f <$> settle task <$> work.run := by
  rw [joined, bind_assoc, Functor.map_map, map_eq_pure_bind]
  refine bind_congr fun answer => ?_
  cases answer with
  | error crash => exact pure_bind _ _
  | ok answer =>
      cases answer with
      | error e => exact pure_bind _ _
      | ok a => exact pure_bind _ _

namespace Session

/-- Loading by a background `task` is loading from the repository `r.inBackground task`. -/
theorem loadInBackground_eq (task : String) (r : Repository (ExceptT Crash m)) (s : Session) :
    s.loadInBackground task r = s.load (r.inBackground task) := by
  unfold loadInBackground load
  split
  · rfl
  · exact Repository.joined_bind task (r.load s.file) s.finishLoad

/-- Stopping with a background `task` is stopping over the repository `r.inBackground task`. -/
theorem stopInBackground_eq (task : String) (r : Repository (ExceptT Crash m)) (s : Session)
    (finishing : Bool) :
    s.stopInBackground task r finishing = s.stop (r.inBackground task) finishing := by
  unfold stopInBackground stop
  cases s.beginSave finishing with
  | none => rfl
  | some sections => exact Repository.joined_bind task (r.save s.file sections) s.finishSave

end Session

end EmulatorSettings
