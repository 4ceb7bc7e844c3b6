import EmulatorSettings.Proofs.Session.InPlace
import EmulatorSettings.Session.Run

/-!
# Sessions — what a host does with them

The host of a session loads it, edits it, sets its flag and stops it, in any order, over a
repository that answers as it likes.  What comes of each action is a *turn*; a *journal* also tells
what the repository was asked meanwhile.

* `HostAction.perform`, `runAll`: one action and a run of them, over any repository.
* `Entry.Lawful`, `lawful_of_mem_journal`: all that one action can do.
* `chain_journal`: each action starts where the one before it ended.
-/

namespace EmulatorSettings

/-- What a host does with a session.  An `edit` may do anything to the settings, also if it is
refused in the end. -/
inductive HostAction (ε : Type) where
  | load
  | edit (work : EStateM ε Settings Bool)
  | put (x : Setting)
  | markDirty
  | restoreDirty (isDirty : Bool)
  | stop (finishing : Bool)

/-- What comes of an action: how a stop ended, what was told, and the session after it. -/
structure Turn where
  outcome : Option StopOutcome
  notices : List Notice
  session : Session

namespace Turn

/-- An action of which nothing is told. -/
def quiet (s : Session) : Turn :=
  ⟨none, [], s⟩

/-- A load that was carried out. -/
def ofLoad (p : List Notice × Session) : Turn :=
  ⟨none, p.1, p.2⟩

/-- A stop that was carried out. -/
def ofStop (p : Stop) : Turn :=
  ⟨some p.outcome, p.notices, p.session⟩

end Turn

/-- The state that `work` leaves in the place of `s`, refused or not. -/
def leftBy {ε σ α : Type} (work : EStateM ε σ α) (s : σ) : σ :=
  match work s with
  | .ok _ t    => t
  | .error _ t => t

section Running

variable {ε : Type} {m : Type → Type} [Monad m]

/-- Takes the session `s` through several steps by `step`, each from where the one before it ended.
-/
def runTurns {α : Type} (step : Session → α → m Turn) (s : Session) : List α → m (List Turn)
  | []      => pure []
  | a :: as => do
    let turn ← step s a
    let turns ← runTurns step turn.session as
    return turn :: turns

namespace HostAction

/-- Carries out an action on the session `s` over the repository `r`. -/
def perform (r : Repository m) (s : Session) : HostAction ε → m Turn
  | load                 => Turn.ofLoad <$> s.load r
  | edit work            => pure (.quiet (leftBy (Session.editInPlace work) s))
  | put x                => pure (.quiet (leftBy (Session.putInPlace x) s))
  | markDirty            => pure (.quiet s.markDirty)
  | restoreDirty isDirty => pure (.quiet { s with isDirty := isDirty })
  | stop finishing       => Turn.ofStop <$> s.stop r finishing

/-- Carries out several actions by `perform`, one after the other. -/
def runAll (r : Repository m) : Session → List (HostAction ε) → m (List Turn) :=
  runTurns fun s a => a.perform r s

end HostAction

end Running

/-! ### Journals -/

/-- A question to a repository, and its answer. -/
inductive Call where
  | load (file : SettingsFile) (answer : Except StorageError FileSections)
  | save (file : SettingsFile) (sections : FileSections) (answer : Except StorageError Unit)
  deriving DecidableEq

/-- The repository `r`, writing down each `Call`. -/
def Repository.recording {m : Type → Type} [Monad m] (r : Repository m) :
    Repository (StateT (List Call) m) where
  load file := do
    let answer ← r.load file
    modify (· ++ [.load file answer])
    return answer
  save file sections := do
    let answer ← r.save file sections
    modify (· ++ [.save file sections answer])
    return answer

/-- An action in a journal: the session `before` it, the `calls` of the repository, and the `turn`
that came of it. -/
structure Entry (ε : Type) where
  before : Session
  action : HostAction ε
  calls : List Call
  turn : Turn

variable {ε σ : Type}

/-- The journal of the actions in `runAll`, over a repository with a state of its own. -/
def journal (r : Repository (StateM σ)) (s : Session) (disk : σ) :
    List (HostAction ε) → List (Entry ε)
  | []      => []
  | a :: as =>
    let p := ((a.perform r.recording s).run []).run disk
    ⟨s, a, p.1.2, p.1.1⟩ :: journal r p.1.1.session p.2 as

namespace Entry

/-- **All that an action can do**, whatever the repository answers. -/
inductive Lawful : Entry ε → Prop where
  | reload {s : Session} (h : s.isLoaded = true) : Lawful ⟨s, .load, [], .quiet s.withFile⟩
  | load {s : Session} (h : s.isLoaded = false) (answer : Except StorageError FileSections) :
      Lawful ⟨s, .load, [.load s.file answer], .ofLoad (s.finishLoad answer)⟩
  | edit (s : Session) (work : EStateM ε Settings Bool) :
      Lawful ⟨s, .edit work, [], .quiet (leftBy (Session.editInPlace work) s)⟩
  | put (s : Session) (x : Setting) :
      Lawful ⟨s, .put x, [], .quiet (leftBy (Session.putInPlace x) s)⟩
  | markDirty (s : Session) : Lawful ⟨s, .markDirty, [], .quiet s.markDirty⟩
  | restoreDirty (s : Session) (isDirty : Bool) :
      Lawful ⟨s, .restoreDirty isDirty, [], .quiet { s with isDirty := isDirty }⟩
  | skip {s : Session} {finishing : Bool} (h : s.beginSave finishing = none) :
      Lawful ⟨s, .stop finishing, [], .ofStop ⟨.skipped, [], s⟩⟩
  | save {s : Session} {finishing : Bool} {sections : FileSections}
      (h : s.beginSave finishing = some sections) (answer : Except StorageError Unit) :
      Lawful ⟨s, .stop finishing, [.save s.file sections answer], .ofStop (s.finishSave answer)⟩

end Entry

/-- **One action**, carried out by `perform`, is `Lawful`. -/
theorem lawful_perform (r : Repository (StateM σ)) (s : Session) (disk : σ) (a : HostAction ε) :
    Entry.Lawful ⟨s, a, (((a.perform r.recording s).run []).run disk).1.2,
      (((a.perform r.recording s).run []).run disk).1.1⟩ := by
  cases a with
  | load =>
      cases h : s.isLoaded with
      | true =>
          rw [HostAction.perform, Session.load, if_pos h]
          exact .reload h
      | false =>
          rw [HostAction.perform, Session.load, if_neg (Bool.eq_false_iff.1 h)]
          exact .load h _
  | edit work => exact .edit s work
  | put x => exact .put s x
  | markDirty => exact .markDirty s
  | restoreDirty isDirty => exact .restoreDirty s isDirty
  | stop finishing =>
      cases h : s.beginSave finishing with
      | none =>
          rw [HostAction.perform, Session.stop, h]
          exact .skip h
      | some sections =>
          rw [HostAction.perform, Session.stop, h]
          exact .save h _

/-- Writing down the calls by `recording` changes nothing else. -/
theorem run_perform_recording (r : Repository (StateM σ)) (s : Session) (disk : σ)
    (a : HostAction ε) :
    ((((a.perform r.recording s).run []).run disk).1.1,
      (((a.perform r.recording s).run []).run disk).2) = (a.perform r s).run disk := by
  cases a with
  | load =>
      rw [HostAction.perform, HostAction.perform, Session.load, Session.load]
      split
      · rfl
      · rfl
  | edit work => rfl
  | put x => rfl
  | markDirty => rfl
  | restoreDirty isDirty => rfl
  | stop finishing =>
      rw [HostAction.perform, HostAction.perform, Session.stop, Session.stop]
      cases s.beginSave finishing with
      | none => rfl
      | some sections => rfl

/-- The turns in a `journal` are those of `runAll`. -/
theorem map_turn_journal (r : Repository (StateM σ)) (s : Session) (disk : σ)
    (as : List (HostAction ε)) :
    (journal r s disk as).map (·.turn) = ((HostAction.runAll r s as).run disk).1 := by
  induction as generalizing s disk with
  | nil => rfl
  | cons a as ih =>
      change _ :: (journal r _ _ as).map _ = ((a.perform r s).run disk).1 ::
        ((HostAction.runAll r ((a.perform r s).run disk).1.session as).run
          ((a.perform r s).run disk).2).1
      rw [← run_perform_recording, ih]

theorem lawful_of_mem_journal (r : Repository (StateM σ)) {s : Session} {disk : σ}
    {as : List (HostAction ε)} {x : Entry ε} (hx : x ∈ journal r s disk as) : x.Lawful := by
  induction as generalizing s disk with
  | nil => cases hx
  | cons a as ih =>
      rcases List.mem_cons.1 hx with rfl | hx
      · exact lawful_perform r s disk a
      · exact ih hx

/-- **A run**: each action in a `journal` starts with the session that the one before it left. -/
theorem chain_journal (r : Repository (StateM σ)) (s : Session) (disk : σ)
    (as : List (HostAction ε)) :
    (journal r s disk as).IsChain fun x y => y.before = x.turn.session := by
  induction as generalizing s disk with
  | nil => exact .nil
  | cons a as ih =>
      cases as with
      | nil => exact .singleton _
      | cons b bs => exact .cons_cons rfl (ih _ _)

end EmulatorSettings
