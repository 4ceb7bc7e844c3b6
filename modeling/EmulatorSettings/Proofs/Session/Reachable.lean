import EmulatorSettings.Proofs.Row.Edits
import EmulatorSettings.Proofs.Session.Loading

/-!
# Sessions — everything stands under its own identity

Key, section and file of a setting are kept three times over: in the setting, in the containers
around it, and in the places where these stand.  Whatever is done to sections, files, settings and
sessions, the three agree.

* `Reachable`: what can be built from nothing by the operations there are.
* `wellStored_of_reachable`: what each operation keeps, and so what everything built has.
* `identity_of_reachable`: the agreement written out, and what follows from it: no setting is ever
  refused.
-/

namespace EmulatorSettings

/-- What a program holds: a section, the sections of a file, the settings of all files, or a
session. -/
inductive Holding where
  | part (s : Section)
  | file (m : FileSections)
  | all (s : Settings)
  | session (s : Session)

/-- What can be built from nothing.  Parts can be taken out of what holds them, and sections and
files that were built elsewhere can be brought in. -/
inductive Reachable : Holding → Prop where
  | newSection (n : String) (f : SettingsFile) : Reachable (.part (.new n f))
  | onSection {s : Section} (h : Reachable (.part s)) (op : Section.Operation) :
      Reachable (.part (op.run s).2)
  | sectionOf {m : FileSections} {n : String} {s : Section} (h : Reachable (.file m))
      (hs : m.section? n = some s) : Reachable (.part s)
  | newFile (f : SettingsFile) : Reachable (.file (.new f))
  | read (f : SettingsFile) (text : String) : Reachable (.file (Ini.read f text).sections)
  | onFile {m : FileSections} (h : Reachable (.file m)) (op : FileSections.Operation)
      (hsection : ∀ s ∈ op.section?, Reachable (.part s)) : Reachable (.file (op.run m).2)
  | fileOf {s : Settings} {f : SettingsFile} {m : FileSections} (h : Reachable (.all s))
      (hm : s.file? f = some m) : Reachable (.file m)
  | empty : Reachable (.all .empty)
  | onAll {s : Settings} (h : Reachable (.all s)) (op : Settings.Operation)
      (hfile : ∀ m ∈ op.file?, Reachable (.file m))
      (hsection : ∀ t ∈ op.section?, Reachable (.part t)) : Reachable (.all (op.run s).2)
  | row {s : Settings} {c : Control} {e : Edit} {r : Bool × Settings} (h : Reachable (.all s))
      (hrow : c.edit s e = .ok r) : Reachable (.all r.2)
  | settingsOf {s : Session} (h : Reachable (.session s)) : Reachable (.all s.settings)
  | newSession (f : SettingsFile) : Reachable (.session (.new f))
  | look {s : Session} (h : Reachable (.session s)) : Reachable (.session s.withFile)
  -- an edit may do anything with the settings, also if it fails in the end
  | edit {s : Session} {t : Settings} (h : Reachable (.session s)) (ht : Reachable (.all t))
      (changed : Bool) :
      Reachable (.session { s with settings := t, isDirty := s.isDirty || changed })
  | put {s t : Session} {x : Setting} {replaced : Option Setting} (h : Reachable (.session s))
      (hput : s.put x = .ok (replaced, t)) : Reachable (.session t)
  | flag {s : Session} (h : Reachable (.session s)) (isDirty : Bool) :
      Reachable (.session { s with isDirty := isDirty })
  | finishLoad {s : Session} {result : Except StorageError FileSections}
      (h : Reachable (.session s)) (hm : ∀ m, result = .ok m → Reachable (.file m)) :
      Reachable (.session (s.finishLoad result).2)
  | finishSave {s : Session} (h : Reachable (.session s)) (result : Except StorageError Unit) :
      Reachable (.session (s.finishSave result).session)

/-- Everything in the `Holding` stands under its own identity. -/
def Holding.WellStored : Holding → Prop
  | part s    => s.WellStored
  | file m    => m.WellStored
  | all s     => s.WellStored
  | session s => s.settings.WellStored

/-! ### Loading -/

namespace Session

variable {s : Session}

theorem wellStored_overlay {sections edited : FileSections} (hs : sections.WellStored)
    (he : edited.WellStored) : (overlay sections edited).WellStored := by
  have hl : ∀ e ∈ edited.sections.entries, e.2.name = e.1 ∧ e.2.WellStored := by
    intro e hmem
    obtain ⟨hname, -, hw⟩ := he e.1 e.2 (Table.mem_entries_iff.1 hmem)
    exact ⟨hname, hw⟩
  obtain ⟨-, hw, -⟩ := FileSections.get?_foldl_sections edited.sections.sorted hl hs
  rw [overlay, Table.values, List.foldl_map]
  exact hw

theorem wellStored_merged (hs : s.settings.WellStored) {m : FileSections} (hm : m.WellStored) :
    (s.merged m).WellStored := by
  unfold merged
  cases hsections : s.sections? with
  | none => exact hm
  | some edited => exact wellStored_overlay hm (hs s.file edited hsections).2

theorem wellStored_withFile (hs : s.settings.WellStored) : s.withFile.settings.WellStored :=
  (Settings.Operation.ensureFile s.file).wellStored_run hs nofun nofun

/-- A load brings in sections under the file they belong to, whichever that is. -/
theorem wellStored_finishLoad (hs : s.settings.WellStored)
    {result : Except StorageError FileSections} (hm : ∀ m, result = .ok m → m.WellStored) :
    (s.finishLoad result).2.settings.WellStored := by
  have hload : (Notice.ofLoad s.file result).1.WellStored := by
    cases result with
    | error e => exact FileSections.wellStored_new s.file
    | ok m => exact hm m rfl
  refine wellStored_withFile ?_
  exact Settings.wellStored_insert hs ⟨rfl, wellStored_merged hs hload⟩

theorem wellStored_put (hs : s.settings.WellStored) {x : Setting} {r : Option Setting × Session}
    (h : s.put x = .ok r) : r.2.settings.WellStored := by
  obtain ⟨m, hput, hf, hm, -⟩ := Settings.exists_put hs x
  rw [put, hput] at h
  obtain rfl := Except.ok.inj h
  exact Settings.wellStored_insert hs ⟨hf, hm⟩

theorem settings_finishSave (s : Session) (result : Except StorageError Unit) :
    (s.finishSave result).session.settings = s.settings := by
  cases result <;> rfl

end Session

/-! ### Everything that can be reached -/

/-- **Whatever is `Reachable`** is `WellStored`: every operation keeps it so. -/
theorem wellStored_of_reachable {h : Holding} (hr : Reachable h) : h.WellStored := by
  induction hr with
  | newSection n f => exact Section.wellStored_new n f
  | onSection _ op ih => exact (op.keeps ih).wellStored
  | sectionOf _ hs ih => exact (ih _ _ hs).2.2
  | newFile f => exact FileSections.wellStored_new f
  | read f text => exact (Ini.asRead_read f text).wellStored
  | onFile _ op _ ih ihsection => exact (op.keeps ih ihsection).wellStored
  | fileOf _ hm ih => exact (ih _ _ hm).2
  | empty => exact Settings.wellStored_empty
  | onAll _ op _ _ ih ihfile ihsection => exact op.wellStored_run ih ihfile ihsection
  | row _ hrow ih => exact Control.wellStored_edit ih hrow
  | settingsOf _ ih => exact ih
  | newSession f => exact Settings.wellStored_empty
  | look _ ih => exact Session.wellStored_withFile ih
  | edit _ _ _ _ ih => exact ih
  | put _ hput ih => exact Session.wellStored_put ih hput
  | flag _ _ ih => exact ih
  | finishLoad _ _ ih ihm => exact Session.wellStored_finishLoad ih ihm
  | finishSave _ result ih =>
      rw [Holding.WellStored, Session.settings_finishSave]
      exact ih

/-- **Everything stands under its own identity**, in all settings `s` that can be reached, in a
session or outside: what `file?` finds is under its own file, what `section?` finds under its name
and in its file, and what `get?` finds under its key and in its section and file.  So there is no
setting that `put` refuses. -/
theorem identity_of_reachable {s : Settings}
    (h : Reachable (.all s) ∨ ∃ t, Reachable (.session t) ∧ t.settings = s) :
    (∀ f m, s.file? f = some m → m.file = f ∧
      ∀ n c, m.section? n = some c → c.name = n ∧ c.file = f ∧
        ∀ k x, c.get? k = some x → x.key = k ∧ x.sectionName = n ∧ x.file = f) ∧
    ∀ x, ∃ r, s.put x = .ok r := by
  have hs : s.WellStored := by
    rcases h with h | ⟨t, h, rfl⟩
    · exact wellStored_of_reachable h
    · exact wellStored_of_reachable h
  refine ⟨fun f m hm => ?_, fun x => ?_⟩
  · obtain ⟨rfl, hw⟩ := hs f m hm
    refine ⟨rfl, fun n c hc => ?_⟩
    obtain ⟨rfl, hfile, hc⟩ := hw n c hc
    refine ⟨rfl, hfile, fun k x hx => ?_⟩
    obtain ⟨hk, hn, hf⟩ := hc k x hx
    exact ⟨hk, hn, hf.trans hfile⟩
  · obtain ⟨m, hput, -⟩ := Settings.exists_put hs x
    exact ⟨_, hput⟩

/-- A session of the global settings in which a key was set, and which is then handed the sections
of a game. -/
def Session.borrowing : Session :=
  let op : Settings.Operation := .trySet .config "Core" "use_vsync" (.int 1)
  let s : Session := { Session.new .config with settings := (op.run .empty).2, isDirty := true }
  (s.finishLoad (.ok (Ini.read (.game "demo") "[Core]\nuse_cpu_jit=1\n").sections)).2

theorem identity_of_borrowing :
    (∃ m c x, Session.borrowing.settings.file? (.game "demo") = some m ∧
      m.section? "Core" = some c ∧ c.get? "use_vsync" = some x ∧ x.file = .game "demo") ∧
    ∃ r, Session.borrowing.settings.put ⟨"use_cpu_jit", "Core", .config, .int 0⟩ = .ok r := by
  have hreachable : Reachable (.session Session.borrowing) := by
    have hset := Reachable.onAll .empty (.trySet .config "Core" "use_vsync" (.int 1)) nofun nofun
    exact .finishLoad (.edit (.newSession .config) hset true)
      fun m hm => Except.ok.inj hm ▸ .read (.game "demo") _
  obtain ⟨hid, hput⟩ := identity_of_reachable (.inr ⟨_, hreachable, rfl⟩)
  have hget : (Session.borrowing.settings.get? (.game "demo") "Core" "use_vsync").isSome := by
    decide +kernel
  obtain ⟨x, hx⟩ := Option.isSome_iff_exists.1 hget
  obtain ⟨c, hc, hx⟩ := Option.bind_eq_some_iff.1 hx
  obtain ⟨m, hm, hc⟩ := Option.bind_eq_some_iff.1 hc
  exact ⟨⟨m, c, x, hm, hc, hx, (((hid _ m hm).2 _ c hc).2.2 _ x hx).2.2⟩, hput _⟩

end EmulatorSettings
