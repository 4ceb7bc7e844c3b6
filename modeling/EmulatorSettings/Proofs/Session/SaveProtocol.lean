import EmulatorSettings.Proofs.Session.Hosting
import EmulatorSettings.Proofs.Session.OnDisk
import Mathlib.Data.List.Chain

/-!
# Sessions — the protocol of saving

What a host sees of the saves of a session, over a repository whose saves succeed or fail as they
like.

* `keepsProtocol_of_lawful`: what a stop asks of the repository, what it tells, and what it changes.
* `skipped_after_saved`, `calls_after_failed`: how a stop bears on those that follow.
* `save_protocol`: so it is in every run.
* `late_load_changes_retry`: a load between two stops changes what the second one writes.
-/

namespace EmulatorSettings

variable {ε σ : Type}

namespace Entry

/-- What a stop may do.  It asks the repository at most once, to save all that is in memory, and
only if it is `finishing` and `isDirty` says that there is something to save; what it tells and
changes goes by its outcome. -/
structure KeepsProtocol (x : Entry ε) (finishing : Bool) : Prop where
  ends : x.turn.outcome ≠ none
  asks : x.calls = [] ∨ finishing = true ∧ x.before.isDirty = true ∧
    ∃ sections answer, x.before.sections? = some sections ∧
      x.calls = [.save x.before.file sections answer]
  saved : x.turn.outcome = some .saved →
    (∃ sections, x.calls = [.save x.before.file sections (.ok ())]) ∧
      x.turn.notices = [.message (Session.savedMessage x.before.file) false, .reload] ∧
      x.turn.session = { x.before with isDirty := false }
  failed : x.turn.outcome = some .failed →
    ∃ sections e, x.calls = [.save x.before.file sections (.error e)] ∧
      x.turn.notices =
        [.message ("Error saving " ++ x.before.file.fileName ++ ": " ++ e.message) false] ∧
      x.turn.session = x.before
  skipped : x.turn.outcome = some .skipped →
    x.calls = [] ∧ x.turn.notices = [] ∧ x.turn.session = x.before

/-- The action edits the settings, with or without success. -/
def IsEdit (x : Entry ε) : Prop :=
  (∃ work, x.action = .edit work) ∨ ∃ y, x.action = .put y

/-- The action loads the session's file, and that for the first time. -/
def IsFirstLoad (x : Entry ε) : Prop :=
  x.action = .load ∧ x.before.isLoaded = false

/-- The action sets `isDirty` where it was not set. -/
def MakesDue (x : Entry ε) : Prop :=
  x.before.isDirty = false ∧ x.turn.session.isDirty = true

/-! ### One action -/

/-- **What a stop does**, if it is `Lawful`, is what `KeepsProtocol` allows. -/
theorem keepsProtocol_of_lawful {x : Entry ε} (hx : x.Lawful) {finishing : Bool}
    (hstop : x.action = .stop finishing) : x.KeepsProtocol finishing := by
  cases hx with
  | skip h => exact ⟨nofun, .inl rfl, nofun, nofun, fun _ => ⟨rfl, rfl, rfl⟩⟩
  | @save s finishing' sections h answer =>
      obtain rfl := HostAction.stop.inj hstop
      obtain ⟨hfinishing, hdirty, hsections⟩ := Session.beginSave_eq_some_iff.1 h
      have hasks : finishing' = true ∧ s.isDirty = true ∧
          ∃ sections' answer', s.sections? = some sections' ∧
            [Call.save s.file sections answer] = [.save s.file sections' answer'] :=
        ⟨hfinishing, hdirty, sections, answer, hsections, rfl⟩
      cases answer with
      | error e => exact ⟨nofun, .inr hasks, nofun, fun _ => ⟨sections, e, rfl, rfl, rfl⟩, nofun⟩
      | ok u => exact ⟨nofun, .inr hasks, fun _ => ⟨⟨sections, rfl⟩, rfl, rfl⟩, nofun, nofun⟩
  | _ => cases hstop

/-- The notice `reload` is told once by a stop that saved, and by nothing else. -/
theorem count_reload_of_lawful {x : Entry ε} (hx : x.Lawful) :
    x.turn.notices.count .reload = if x.turn.outcome = some .saved then 1 else 0 := by
  cases hx with
  | load h answer => cases answer <;> rfl
  | save h answer => cases answer <;> rfl
  | _ => rfl

/-- Apart from edits and the first load, no action changes what `sections?` finds. -/
theorem sections?_of_lawful {x : Entry ε} (hx : x.Lawful) (hedit : ¬ x.IsEdit)
    (hload : ¬ x.IsFirstLoad) {m : FileSections} (hm : x.before.sections? = some m) :
    x.turn.session.file = x.before.file ∧ x.turn.session.sections? = some m := by
  cases hx with
  | reload h =>
      refine ⟨rfl, (Session.sections?_withFile _).trans ?_⟩
      rw [Session.sections_of_sections? hm]
  | load h answer => exact absurd ⟨rfl, h⟩ hload
  | edit s work => exact absurd (.inl ⟨work, rfl⟩) hedit
  | put s y => exact absurd (.inr ⟨y, rfl⟩) hedit
  | markDirty s => exact ⟨rfl, hm⟩
  | restoreDirty s isDirty => exact ⟨rfl, hm⟩
  | skip h => exact ⟨rfl, hm⟩
  | save h answer =>
      cases answer with
      | error e => exact ⟨rfl, hm⟩
      | ok u => exact ⟨rfl, hm⟩

/-- A stop of a session without `isDirty` is skipped. -/
theorem outcome_of_clean {x : Entry ε} (hx : x.Lawful) {finishing : Bool}
    (hstop : x.action = .stop finishing) (hclean : x.before.isDirty = false) :
    x.turn.outcome = some .skipped := by
  have hkeeps := keepsProtocol_of_lawful hx hstop
  cases hx with
  | skip h => rfl
  | save h answer =>
      obtain ⟨-, hdirty, -⟩ := Session.beginSave_eq_some_iff.1 h
      exact absurd (hdirty.symm.trans hclean) Bool.noConfusion
  | _ => cases hstop

/-- A stop that saved or failed asked for the sections in memory to be saved, and took in the answer
by `finishSave`. -/
theorem save_of_outcome {x : Entry ε} (hx : x.Lawful) {o : StopOutcome}
    (ho : x.turn.outcome = some o) (hne : o ≠ .skipped) :
    ∃ sections answer, x.before.sections? = some sections ∧
      x.calls = [.save x.before.file sections answer] ∧
      x.turn = .ofStop (x.before.finishSave answer) := by
  cases hx with
  | skip h => exact absurd (Option.some.inj ho).symm hne
  | @save s _ sections h answer =>
      obtain ⟨-, -, hsections⟩ := Session.beginSave_eq_some_iff.1 h
      exact ⟨sections, answer, hsections, rfl, rfl⟩
  | _ => cases ho

end Entry

/-! ### Several actions -/

/-- Each entry follows on the one before it also in a `part` of the `run`. -/
theorem chain_of_part {run part : List (Entry ε)}
    (hchain : run.IsChain fun x y => y.before = x.turn.session) (hpart : part <:+: run) :
    part.IsChain fun x y => y.before = x.turn.session := by
  obtain ⟨pre, post, rfl⟩ := hpart
  exact hchain.left_of_append.right_of_append

/-- What holds after the entry `x` and is kept by those in `between` holds before `y`. -/
theorem of_chain {x y : Entry ε} {between : List (Entry ε)}
    (hchain : (x :: (between ++ [y])).IsChain fun x y => y.before = x.turn.session)
    {P : Session → Prop} (hx : P x.turn.session)
    (hbetween : ∀ z ∈ between, P z.before → P z.turn.session) : P y.before := by
  induction between generalizing x with
  | nil =>
      obtain ⟨hy, -⟩ := List.isChain_cons_cons.1 hchain
      exact hy ▸ hx
  | cons z zs ih =>
      obtain ⟨hz, hrest⟩ := List.isChain_cons_cons.1 hchain
      refine ih hrest (hbetween z List.mem_cons_self (hz ▸ hx)) fun w hw => ?_
      exact hbetween w (List.mem_cons_of_mem _ hw)

theorem count_reload {l : List (Entry ε)} (hl : ∀ x ∈ l, x.Lawful) :
    (l.flatMap (·.turn.notices)).count .reload = (l.map (·.turn.outcome)).count (some .saved) := by
  induction l with
  | nil => rfl
  | cons x xs ih =>
      rw [List.flatMap_cons, List.count_append, List.map_cons, List.count_cons,
        ih fun y hy => hl y (List.mem_cons_of_mem _ hy),
        Entry.count_reload_of_lawful (hl x List.mem_cons_self), Nat.add_comm]
      simp only [beq_iff_eq]

section Parts

variable {x y : Entry ε} {between : List (Entry ε)}

/-- **After a stop that saved**, stops are skipped until an action `MakesDue`. -/
theorem skipped_after_saved
    (hchain : (x :: (between ++ [y])).IsChain fun x y => y.before = x.turn.session)
    (hx : x.Lawful) (hy : y.Lawful) (hsaved : x.turn.outcome = some .saved)
    (hdue : ∀ z ∈ between, ¬ z.MakesDue) {finishing : Bool} (hstop : y.action = .stop finishing) :
    y.turn.outcome = some .skipped := by
  refine Entry.outcome_of_clean hy hstop ?_
  refine of_chain hchain (P := fun s => s.isDirty = false) ?_ fun z hmem hclean => ?_
  · obtain ⟨sections, answer, -, -, hturn⟩ := Entry.save_of_outcome hx hsaved nofun
    rw [hturn] at hsaved ⊢
    cases answer with
    | error e => cases hsaved
    | ok u => rfl
  · exact Bool.eq_false_iff.2 fun hdirty => hdue z hmem ⟨hclean, hdirty⟩

/-- **After a stop that failed**, the next one to succeed writes what that one tried to write,
unless something was edited in `between`, or loaded for the first time. -/
theorem calls_after_failed
    (hchain : (x :: (between ++ [y])).IsChain fun x y => y.before = x.turn.session)
    (hx : x.Lawful) (hy : y.Lawful) (hz : ∀ z ∈ between, z.Lawful)
    (hfailed : x.turn.outcome = some .failed)
    (hquiet : ∀ z ∈ between, ¬ z.IsEdit ∧ ¬ z.IsFirstLoad)
    (hsaved : y.turn.outcome = some .saved) :
    ∃ sections e, x.calls = [.save x.before.file sections (.error e)] ∧
      y.calls = [.save x.before.file sections (.ok ())] := by
  obtain ⟨sections, answer, hsections, hcalls, hturn⟩ := Entry.save_of_outcome hx hfailed nofun
  obtain ⟨sections', answer', hsections', hcalls', hturn'⟩ := Entry.save_of_outcome hy hsaved nofun
  have hkept : y.before.file = x.before.file ∧ y.before.sections? = some sections := by
    refine of_chain hchain
      (P := fun s => s.file = x.before.file ∧ s.sections? = some sections) ?_ ?_
    · cases answer <;> exact hturn ▸ ⟨rfl, hsections⟩
    · intro z hmem ⟨hfile, hm⟩
      obtain ⟨hedit, hload⟩ := hquiet z hmem
      obtain ⟨hfile', hm'⟩ := Entry.sections?_of_lawful (hz z hmem) hedit hload hm
      exact ⟨hfile'.trans hfile, hm'⟩
  rw [hkept.1, Option.some.inj (hsections'.symm.trans hkept.2)] at hcalls'
  rw [hturn] at hfailed
  rw [hturn'] at hsaved
  cases answer with
  | ok u => cases hfailed
  | error e =>
      cases answer' with
      | error e' => cases hsaved
      | ok u => exact ⟨sections, e, hcalls, hcalls'⟩

end Parts

/-- **The protocol of saving.** In every `journal` each stop `KeepsProtocol`, and the core is told
to reload as often as a stop saved.  After a stop that saved, stops are skipped until an action
`MakesDue`.  After a stop that failed, the first one to succeed writes the sections that the first
one tried to write, if no action in `between` is an `IsEdit` or `IsFirstLoad`. -/
theorem save_protocol (r : Repository (StateM σ)) (s : Session) (disk : σ)
    (as : List (HostAction ε)) :
    (journal r s disk as).map (·.turn) = ((HostAction.runAll r s as).run disk).1 ∧
    (∀ x ∈ journal r s disk as, ∀ finishing, x.action = .stop finishing →
      x.KeepsProtocol finishing) ∧
    ((journal r s disk as).flatMap (·.turn.notices)).count .reload =
      ((journal r s disk as).map (·.turn.outcome)).count (some .saved) ∧
    ∀ x between y, (x :: (between ++ [y])) <:+: journal r s disk as →
      (x.turn.outcome = some .saved → (∀ z ∈ between, ¬ z.MakesDue) →
        ∀ finishing, y.action = .stop finishing → y.turn.outcome = some .skipped) ∧
      (x.turn.outcome = some .failed → (∀ z ∈ between, ¬ z.IsEdit ∧ ¬ z.IsFirstLoad) →
        y.turn.outcome = some .saved → ∃ sections e,
          x.calls = [.save x.before.file sections (.error e)] ∧
            y.calls = [.save x.before.file sections (.ok ())]) := by
  have hlawful : ∀ x ∈ journal r s disk as, x.Lawful := fun x => lawful_of_mem_journal r
  refine ⟨map_turn_journal r s disk as, fun x hx _ => Entry.keepsProtocol_of_lawful (hlawful x hx),
    count_reload hlawful, fun x between y hpart => ?_⟩
  have hchain := chain_of_part (chain_journal r s disk as) hpart
  have hx := hlawful x (hpart.mem List.mem_cons_self)
  have hy := hlawful y (hpart.mem (List.mem_cons_of_mem _ List.mem_concat_self))
  have hz : ∀ z ∈ between, z.Lawful := fun z hz =>
    hlawful z (hpart.mem (List.mem_cons_of_mem _ (List.mem_append_left _ hz)))
  exact ⟨fun hsaved hdue _ hstop => skipped_after_saved hchain hx hy hsaved hdue hstop,
    calls_after_failed hchain hx hy hz⟩

/-! ### A save that is tried again -/

/-- A repository with a file of one setting, whose first save fails. -/
def flaky : Repository (StateM Bool) where
  load file := pure (.ok (Ini.read file "[Core]\nuse_cpu_jit=1\n").sections)
  save _ _ := do
    let tried ← get
    set true
    return if tried then .ok () else .error (.interrupted "busy")

/-- A setting is put into a new session, and the session is stopped twice, with the actions
`between`. -/
def stoppedTwice (between : List (HostAction Empty)) : List (HostAction Empty) :=
  .put ⟨"use_vsync", "Renderer", .config, .int 1⟩ :: .stop true :: (between ++ [.stop true])

/-- The second stop writes what the first one could not, whatever is done to the flag. -/
theorem retried_save :
    ∃ x pause restore y, (x :: ([pause, restore] ++ [y])) <:+:
        journal flaky (.new .config) false (stoppedTwice [.stop false, .restoreDirty true]) ∧
      x.turn.outcome = some .failed ∧ y.turn.outcome = some .saved ∧
      ∃ sections e, x.calls = [.save x.before.file sections (.error e)] ∧
        y.calls = [.save x.before.file sections (.ok ())] := by
  obtain ⟨-, -, -, hseveral⟩ :=
    save_protocol flaky (.new .config) false (stoppedTwice [.stop false, .restoreDirty true])
  obtain ⟨x, pause, restore, y, hpart, hfailed, hsaved, hpause, hrestore⟩ :
      ∃ x pause restore y, (x :: ([pause, restore] ++ [y])) <:+:
          journal flaky (.new .config) false (stoppedTwice [.stop false, .restoreDirty true]) ∧
        x.turn.outcome = some .failed ∧ y.turn.outcome = some .saved ∧
        pause.action = .stop false ∧ restore.action = .restoreDirty true :=
    ⟨_, _, _, _, ⟨[_], [], rfl⟩, by decide +kernel, by decide +kernel, rfl, rfl⟩
  refine ⟨x, pause, restore, y, hpart, hfailed, hsaved, ?_⟩
  refine (hseveral x [pause, restore] y hpart).2 hfailed ?_ hsaved
  simp [Entry.IsEdit, Entry.IsFirstLoad, hpause, hrestore]

/-- **A load between two stops** changes what the second one writes, though nothing is edited: what
was edited before the load stands among what it brings in. -/
theorem late_load_changes_retry :
    ∃ x load y, x.turn.outcome = some .failed ∧ y.turn.outcome = some .saved ∧ ¬ load.IsEdit ∧
      (x :: ([load] ++ [y])) <:+: journal flaky (.new .config) false (stoppedTwice [.load]) ∧
      ∃ sections sections' e, x.calls = [.save .config sections (.error e)] ∧
        y.calls = [.save .config sections' (.ok ())] ∧
        Ini.write sections = "[Renderer]\nuse_vsync=1\n" ∧
        Ini.write sections' = "[Core]\nuse_cpu_jit=1\n\n[Renderer]\nuse_vsync=1\n" := by
  refine ⟨_, _, _, ?_, ?_, ?_, ⟨[_], [], rfl⟩, _, _, _, rfl, rfl, ?_, ?_⟩
  · decide +kernel
  · decide +kernel
  · rintro (⟨work, h⟩ | ⟨x, h⟩) <;> cases h
  · decide +kernel
  · decide +kernel

end EmulatorSettings
