import EmulatorSettings.Proofs.Session.OnDisk
import EmulatorSettings.Proofs.Store.Reporting
import Mathlib.Logic.Relation

/-!
# Sessions — a save in two steps

A host may take the sections to write from a session, have them written elsewhere, and tell the
session later how that went.  Edits can come in between, and the session does not look back: once
it is told of a success it has nothing more to save.

* `step_set`, `step_remove`: the edits of the store are steps.
* `inv_of_step`, `inv_of_run`: what holds after every step, and so in every run.
* `written_iff`: when a session has nothing to save, the text that was written is the text in
  memory exactly if the edits between the two steps of that save left the text alone.
* `overtaken_save_is_lost`: they need not.
-/

namespace EmulatorSettings

open Relation (ReflTransGen)

/-- A save that succeeded: the `snapshot` that was written, the sections `held` in memory when the
session was told, and whether it was `overtaken`: an edit reported a change after the snapshot was
taken. -/
structure Written where
  snapshot : FileSections
  held : FileSections
  overtaken : Bool

/-- A session and the save that is under way: the sections that `begun` took last, whether an edit
reported a change since then, and the last save that succeeded. -/
structure SplitSave where
  session : Session
  begun : Option FileSections
  overtaken : Bool
  written : Option Written

namespace SplitSave

/-- The `session` before its first save. -/
def start (session : Session) : SplitSave :=
  ⟨session, none, false, none⟩

/-- After an edit that led to `session`. -/
def edited (s : SplitSave) (session : Session) (changed : Bool) : SplitSave :=
  { s with session := session, overtaken := s.overtaken || changed }

/-- After the sections to write were taken, if there was anything to write. -/
def beginSave (s : SplitSave) : SplitSave :=
  { s with begun := s.session.beginSave true, overtaken := false }

/-- After the session was told the `result` of writing the `snapshot`. -/
def finishSave (s : SplitSave) (snapshot : FileSections) (result : Except StorageError Unit) :
    SplitSave :=
  { s with
    session := (s.session.finishSave result).session
    written := match result with
      | .ok ()   => some ⟨snapshot, s.session.sections, s.overtaken⟩
      | .error _ => s.written }

/-- One step of a session between saves.  An edit that is refused leaves no trace, and one that
reports no change leaves the text of the file alone; a save ends with the result of writing the
sections that `begun` holds. -/
inductive Step : SplitSave → SplitSave → Prop where
  | edit {ε : Type} {work : Settings → Except ε (Bool × Settings)} {s : SplitSave}
      {session : Session} {changed : Bool} (h : s.session.edit work = .ok (changed, session))
      (hfile : session.sections? ≠ none)
      (htext : changed = false → Ini.write session.sections = Ini.write s.session.sections) :
      Step s (s.edited session changed)
  | put {s : SplitSave} {x : Setting} {replaced : Option Setting} {session : Session}
      (h : s.session.put x = .ok (replaced, session)) : Step s (s.edited session true)
  | beginSave (s : SplitSave) : Step s s.beginSave
  | finishSave {s : SplitSave} {snapshot : FileSections} (h : s.begun = some snapshot)
      (result : Except StorageError Unit) : Step s (s.finishSave snapshot result)

/-! ### The edits of the store -/

/-- After the key `k` of the section `n` was given the value `v`. -/
def set (s : SplitSave) (n k : String) (v : Value) : SplitSave :=
  let (changed, settings) := s.session.settings.set s.session.file n k v
  s.edited { s.session with settings := settings, isDirty := s.session.isDirty || changed } changed

/-- After the key `k` of the section `n` was removed, where a change is that there was one. -/
def remove (s : SplitSave) (n k : String) : SplitSave :=
  let (removed, settings) := s.session.settings.remove s.session.file n k
  s.edited
    { s.session with settings := settings, isDirty := s.session.isDirty || removed.isSome }
    removed.isSome

/-- Setting a key to anything but a zero is a `Step`, checked or not. -/
theorem step_set (s : SplitSave) (n k : String) {v : Value}
    (hzero : ∀ b, v ≠ .float (.signedZero b)) : Step s (s.set n k v) := by
  have hfile := s.session.settings.file?_set s.session.file n k v
  let work : Settings → Except Empty (Bool × Settings) := fun t => .ok (t.set s.session.file n k v)
  have hedit : s.session.edit work = .ok (_, _) := rfl
  refine .edit hedit ?_ fun h => ?_
  · exact fun hnone => Option.some_ne_none _ (hfile.symm.trans hnone)
  · exact congrArg Ini.write ((Settings.fileOrNew_of_file? hfile).trans
      (FileSections.set_eq_self hzero h))

/-- Removing a key is a `Step`, whether it is there or not. -/
theorem step_remove (s : SplitSave) (n k : String) : Step s (s.remove n k) := by
  have hfile := s.session.settings.file?_remove s.session.file n k
  let work : Settings → Except Empty (Bool × Settings) := fun t =>
    .ok ((t.remove s.session.file n k).1.isSome, (t.remove s.session.file n k).2)
  have hedit : s.session.edit work = .ok (_, _) := rfl
  refine .edit hedit ?_ fun h => ?_
  · exact fun hnone => Option.some_ne_none _ (hfile.symm.trans hnone)
  · refine (congrArg Ini.write (Settings.fileOrNew_of_file? hfile)).trans
      (FileSections.write_remove ?_)
    rw [← FileSections.get?_sectionOrNew]
    exact Option.not_isSome_iff_eq_none.1 (Bool.eq_false_iff.1 h)

/-! ### What every step keeps -/

/-- What holds between saves.  The text that `begun` has is the one in memory until an edit reports
a change; the text in memory when a save succeeded is the one in memory until `isDirty` is set
again. -/
structure Inv (s : SplitSave) : Prop where
  file_there : s.session.sections? ≠ none
  due : s.begun ≠ none → s.written = none → s.session.isDirty = true
  begun_text : ∀ m, s.begun = some m → s.overtaken = false →
    Ini.write m = Ini.write s.session.sections
  held_text : ∀ w, s.written = some w → s.session.isDirty = false →
    Ini.write w.held = Ini.write s.session.sections
  written_text : ∀ w, s.written = some w → w.overtaken = false →
    Ini.write w.snapshot = Ini.write w.held

theorem inv_start {s : Session} (h : s.sections? ≠ none) : Inv (start s) := by
  refine ⟨h, fun hbegun => ?_, fun _ hm => ?_, fun _ hw => ?_, fun _ hw => ?_⟩
  · exact absurd rfl hbegun
  · cases hm
  · cases hw
  · cases hw

theorem inv_edited {s : SplitSave} (hs : Inv s) {session : Session} {changed : Bool}
    (hfile : session.sections? ≠ none) (hdirty : session.isDirty = (s.session.isDirty || changed))
    (htext : changed = false → Ini.write session.sections = Ini.write s.session.sections) :
    Inv (s.edited session changed) := by
  refine ⟨hfile, fun hbegun hwritten => ?_, fun m hm hover => ?_, fun w hw hclean => ?_,
    hs.written_text⟩
  · exact hdirty.trans (by rw [hs.due hbegun hwritten, Bool.true_or])
  · -- the sections taken last: neither an earlier edit nor this one reported a change
    obtain ⟨hover, hchanged⟩ := Bool.or_eq_false_iff.1 hover
    exact (hs.begun_text m hm hover).trans (htext hchanged).symm
  · -- the last save: a change would have left something to save
    obtain ⟨hclean, hchanged⟩ := Bool.or_eq_false_iff.1 (hdirty.symm.trans hclean)
    exact (hs.held_text w hw hclean).trans (htext hchanged).symm

theorem inv_beginSave {s : SplitSave} (hs : Inv s) : Inv s.beginSave := by
  refine ⟨hs.file_there, fun hb _ => ?_, fun b hb _ => ?_, hs.held_text, hs.written_text⟩
  · obtain ⟨b, hb⟩ := Option.ne_none_iff_exists'.1 hb
    exact (Session.of_beginSave hb).1
  · rw [(Session.of_beginSave hb).2]
    rfl

theorem inv_finishSave {s : SplitSave} (hs : Inv s) {snapshot : FileSections}
    (h : s.begun = some snapshot) (result : Except StorageError Unit) :
    Inv (s.finishSave snapshot result) := by
  cases result with
  | error e => exact ⟨hs.file_there, hs.due, hs.begun_text, hs.held_text, hs.written_text⟩
  | ok u =>
      refine ⟨hs.file_there, fun _ hnone => ?_, hs.begun_text, fun w hw _ => ?_,
        fun w hw hover => ?_⟩
      · cases hnone
      · exact Option.some.inj hw ▸ rfl
      · -- unless an edit came in between, what was taken is still the text in memory
        obtain rfl := Option.some.inj hw
        exact hs.begun_text snapshot h hover

/-- A setting that is `put` leaves the session with its file, and with something to save. -/
theorem put_spec {s : Session} {x : Setting} {replaced : Option Setting} {t : Session}
    (h : s.put x = .ok (replaced, t)) (hs : s.sections? ≠ none) :
    t.sections? ≠ none ∧ t.isDirty = true := by
  unfold Session.put at h
  cases hput : s.settings.put x with
  | error e =>
      rw [hput] at h
      cases h
  | ok r =>
      rw [hput] at h
      obtain ⟨-, rfl⟩ := Prod.mk.inj (Except.ok.inj h)
      obtain ⟨m, -, hfile⟩ := Settings.file?_put hput s.file
      refine ⟨fun hnone => ?_, rfl⟩
      have hif := hfile.symm.trans hnone
      split at hif
      · cases hif
      · exact hs hif

theorem dirty_of_edit {ε : Type} {s t : Session} {work : Settings → Except ε (Bool × Settings)}
    {changed : Bool} (h : s.edit work = .ok (changed, t)) :
    t.isDirty = (s.isDirty || changed) := by
  unfold Session.edit at h
  cases hwork : work s.settings with
  | error e =>
      rw [hwork] at h
      cases h
  | ok r =>
      rw [hwork] at h
      obtain ⟨rfl, rfl⟩ := Prod.mk.inj (Except.ok.inj h)
      rfl

/-- **Every `Step`** keeps `Inv`. -/
theorem inv_of_step {s t : SplitSave} (h : Step s t) (hs : Inv s) : Inv t := by
  cases h with
  | edit h hfile htext => exact inv_edited hs hfile (dirty_of_edit h) htext
  | put h =>
      obtain ⟨hfile, hdirty⟩ := put_spec h hs.file_there
      exact inv_edited hs hfile (by rw [hdirty, Bool.or_true]) fun hfalse => by cases hfalse
  | beginSave => exact inv_beginSave hs
  | finishSave h result => exact inv_finishSave hs h result

/-- **Every run of steps** keeps `Inv`. -/
theorem inv_of_run {s t : SplitSave} (h : ReflTransGen Step s t) (hs : Inv s) : Inv t := by
  induction h with
  | refl => exact hs
  | tail _ hstep ih => exact inv_of_step hstep ih

/-! ### What a session that has nothing to save has written -/

/-- **What was written, when there is nothing to save.** If a loaded session is not `isDirty` though
sections were taken to be written, a save has succeeded.  The text of its `snapshot` is the text in
memory exactly if it was that of `held`, as it is unless it was `overtaken`; and a stop for good
writes nothing more. -/
theorem written_iff {loading : Session} {loaded : Except StorageError FileSections} {s : SplitSave}
    (hrun : ReflTransGen Step (start (loading.finishLoad loaded).2) s) :
    (∀ (r : Repository (StateM Tree)) (tree : Tree),
      ((s.session.stop r true).run tree).1.outcome = .skipped ↔ s.session.isDirty = false) ∧
    (s.session.isDirty = false → s.begun ≠ none → s.written ≠ none) ∧
    (s.session.isDirty = false → ∀ w, s.written = some w →
      (Ini.write w.snapshot = Ini.write s.session.sections ↔
        Ini.write w.snapshot = Ini.write w.held) ∧
      (w.overtaken = false → Ini.write w.snapshot = Ini.write s.session.sections)) := by
  have hs : Inv s := inv_of_run hrun (inv_start (loading.sections?_finishLoad loaded))
  refine ⟨fun r tree => Session.outcome_stop_eq_skipped hs.file_there r tree,
    fun hclean hbegun hnone => ?_, fun hclean w hw => ⟨?_, fun hover => ?_⟩⟩
  · exact Bool.false_ne_true (hclean.symm.trans (hs.due hbegun hnone))
  · rw [hs.held_text w hw hclean]
  · exact (hs.written_text w hw hover).trans (hs.held_text w hw hclean)

/-- A file with one setting. -/
def oneSetting : FileSections :=
  ((FileSections.new .config).set "Core" "use_cpu_jit" (.int 1)).2

/-- A key of `oneSetting` is changed, and the sections are taken to be written. -/
def taken : SplitSave :=
  ((start ((Session.new .config).finishLoad (.ok oneSetting)).2).set "Core" "use_cpu_jit"
    (.int 0)).beginSave

theorem run_taken : ReflTransGen Step (start ((Session.new .config).finishLoad (.ok oneSetting)).2)
    taken :=
  .tail (.single (step_set _ _ _ fun _ h => by cases h)) (.beginSave _)

theorem begun_taken : taken.begun = some (oneSetting.set "Core" "use_cpu_jit" (.int 0)).2 := by
  decide +kernel

/-- The save succeeds, and nothing came in between: the text in memory was written. -/
theorem written_taken : ∃ w, (taken.finishSave (oneSetting.set "Core" "use_cpu_jit" (.int 0)).2
    (.ok ())).written = some w ∧
    Ini.write w.snapshot = "[Core]\nuse_cpu_jit=0\n" ∧ Ini.write w.snapshot =
      Ini.write (taken.finishSave (oneSetting.set "Core" "use_cpu_jit" (.int 0)).2
        (.ok ())).session.sections := by
  have hrun := run_taken.tail (.finishSave begun_taken (.ok ()))
  obtain ⟨-, -, htext⟩ := written_iff hrun
  refine ⟨_, rfl, by decide +kernel, ?_⟩
  exact (htext rfl _ rfl).2 rfl

/-- **An edit that overtakes a save is lost.** Between `beginSave` and `finishSave` another key is
changed, and reported as such: nothing is left to save, a stop for good is skipped, and the text in
memory was never written. -/
theorem overtaken_save_is_lost :
    ∃ s, ReflTransGen Step (start ((Session.new .config).finishLoad (.ok oneSetting)).2) s ∧
      s.session.isDirty = false ∧
      (∀ (r : Repository (StateM Tree)) (tree : Tree),
        ((s.session.stop r true).run tree).1.outcome = .skipped) ∧
      ∃ w, s.written = some w ∧ w.overtaken = true ∧
        Ini.write w.snapshot = "[Core]\nuse_cpu_jit=0\n" ∧
        Ini.write s.session.sections = "[Core]\nuse_cpu_jit=0\nuse_vsync=1\n" := by
  have hedit : Step taken (taken.set "Core" "use_vsync" (.int 1)) :=
    step_set _ _ _ fun _ h => by cases h
  have hbegun : (taken.set "Core" "use_vsync" (.int 1)).begun =
      some (oneSetting.set "Core" "use_cpu_jit" (.int 0)).2 := begun_taken
  have hrun := (run_taken.tail hedit).tail (.finishSave hbegun (.ok ()))
  refine ⟨_, hrun, rfl, fun r tree => ?_, _, rfl, ?_, ?_, ?_⟩
  · have hfile := (inv_of_run hrun (inv_start (Session.sections?_finishLoad _ _))).file_there
    exact (Session.outcome_stop_eq_skipped hfile r tree).2 rfl
  · decide +kernel
  · decide +kernel
  · decide +kernel

end SplitSave

end EmulatorSettings
