import EmulatorSettings.Proofs.Session.Edits
import EmulatorSettings.Proofs.Session.Hosting

/-!
# Sessions — when the load comes

The file of a session is loaded whenever the host gets to it, and until then the session is edited
without it.  What stands in memory in the end does not tell which of the values were written first.

* `FileEdit.valuation_apply`: what an edit does to the values in memory, refused or not.
* `Session.valuation_finishLoad`: what a load does to them.
* `FileEdit.revise_orElse`: a write does the same before and after other values are laid beneath.
* `load_falls_anywhere`: so the load may come at any point among the writes; and what it leaves
  alone, and what is left to later loads.
-/

namespace EmulatorSettings

variable {ε σ : Type}

/-! ### Values -/

/-- The value under each section and key, or `none`. -/
def Valuation :=
  String → String → Option Value

namespace Valuation

/-- No value at all. -/
def empty : Valuation := fun _ _ => none

/-- The value under `n` and `k` replaced by `v`, or taken away. -/
def replace (c : Valuation) (n k : String) (v : Option Value) : Valuation := fun n' k' =>
  if n' = n ∧ k' = k then v else c n' k'

/-- The values of `c`, and those of `d` beneath them. -/
def orElse (c d : Valuation) : Valuation := fun n k =>
  (c n k).or (d n k)

theorem empty_orElse (c : Valuation) : empty.orElse c = c := rfl

theorem replace_orElse (c d : Valuation) (n k : String) (v : Value) :
    (c.orElse d).replace n k (some v) = (c.replace n k (some v)).orElse d := by
  funext n' k'
  rw [replace, orElse, orElse, replace]
  split
  · rfl
  · rfl

end Valuation

/-- The values that `get?` finds in the file `m`. -/
def FileSections.valuation (m : FileSections) : Valuation := fun n k =>
  (m.get? n k).map (·.value)

/-- The values of the session's own file. -/
def Session.valuation (s : Session) : Valuation :=
  s.sections.valuation

theorem Session.valuation_new (f : SettingsFile) : (Session.new f).valuation = .empty := rfl

/-- The values that a load brings in, none if it fails. -/
def loadedValues : Except StorageError FileSections → Valuation
  | .ok m    => m.valuation
  | .error _ => .empty

namespace FileEdit

/-- What an edit makes of the values `c`. -/
def revise (c : Valuation) : FileEdit → Valuation
  | put n k v    => c.replace n k (some v)
  | set n k v    => c.replace n k (some v)
  | trySet n k v =>
    if checkName n = .ok () ∧ checkEntry k v = .ok () then c.replace n k (some v) else c
  | remove n k   => c.replace n k none

/-- The edit writes a value, if it is not refused. -/
def IsWrite : FileEdit → Prop
  | remove .. => False
  | _         => True

/-- **A write `e`** does the same before and after the values `d` are laid beneath. -/
theorem revise_orElse {e : FileEdit} (he : e.IsWrite) (c d : Valuation) :
    revise (c.orElse d) e = (revise c e).orElse d := by
  cases e with
  | put n k v => exact c.replace_orElse d n k v
  | set n k v => exact c.replace_orElse d n k v
  | trySet n k v =>
      rw [revise, revise]
      split
      · exact c.replace_orElse d n k v
      · rfl
  | remove n k => exact he.elim

theorem foldl_revise_orElse {edits : List FileEdit} (hedits : ∀ e ∈ edits, e.IsWrite)
    (c d : Valuation) : edits.foldl revise (c.orElse d) = (edits.foldl revise c).orElse d := by
  induction edits generalizing c with
  | nil => rfl
  | cons e es ih =>
      rw [List.foldl_cons, revise_orElse (hedits e List.mem_cons_self),
        ih fun e' he => hedits e' (List.mem_cons_of_mem _ he)]
      rfl

end FileEdit

/-! ### Edits -/

/-- A file that stands in memory is left standing when another is inserted. -/
theorem Settings.file?_insert_ne_none {s : Settings} {f : SettingsFile} (h : s.file? f ≠ none)
    (g : SettingsFile) (m : FileSections) : file? ⟨s.files.insert g m⟩ f ≠ none := by
  rw [file?, Table.get?_insert]
  split
  · exact Option.some_ne_none m
  · exact h

theorem Session.ChangedAt.valuation_eq {s t : Session} {n k : String} {x : Option Setting}
    (h : s.ChangedAt t n k x) : t.valuation = s.valuation.replace n k (x.map (·.value)) := by
  funext n' k'
  rw [valuation, FileSections.valuation, h.get?_eq]
  exact apply_ite (Option.map _) _ _ _

namespace FileEdit

/-- **One edit `e`** makes `e.revise` of the values in memory. -/
theorem valuation_apply {s : Session} (hs : s.Sound) (e : FileEdit) :
    (e.apply s).valuation = e.revise s.valuation := by
  cases e with
  | put n k v =>
      obtain ⟨replaced, t, hput, h⟩ := Session.exists_put hs n k v
      have happly : (put n k v).apply s = t := by rw [apply, run, hput]; rfl
      rw [happly]
      exact h.valuation_eq
  | set n k v => exact (Session.changedAt_set hs n k v _).valuation_eq
  | trySet n k v =>
      rw [revise]
      split
      · next hpass =>
          rw [apply_trySet_of_checked hpass.1 hpass.2]
          exact (Session.changedAt_set hs n k v _).valuation_eq
      · next hpass => rw [apply_trySet_of_not_checked hpass]
  | remove n k => exact (Session.changedAt_remove hs n k _).valuation_eq

/-- An edit leaves a file standing that stands in memory. -/
theorem sections?_apply {s : Session} (h : s.sections? ≠ none) (e : FileEdit) :
    (e.apply s).sections? ≠ none := by
  cases e with
  | put n k v =>
      rw [apply, run, Session.put, Settings.put]
      cases (s.settings.fileOrNew s.file).put ⟨k, n, s.file, v⟩ with
      | error e => exact h
      | ok r => exact Settings.file?_insert_ne_none h s.file r.2
  | set n k v => exact Settings.file?_insert_ne_none h s.file _
  | trySet n k v =>
      by_cases hpass : checkName n = .ok () ∧ checkEntry k v = .ok ()
      · rw [apply_trySet_of_checked hpass.1 hpass.2]
        exact Settings.file?_insert_ne_none h s.file _
      · rwa [apply_trySet_of_not_checked hpass]
  | remove n k => exact Settings.file?_insert_ne_none h s.file _

/-- Several `edits`, one after the other, make what `revise` makes of the values. -/
theorem foldl_apply {s : Session} (hs : s.Sound) (edits : List FileEdit) :
    (edits.foldl apply s).file = s.file ∧ (edits.foldl apply s).isLoaded = s.isLoaded ∧
      (edits.foldl apply s).Sound ∧ (s.sections? ≠ none → (edits.foldl apply s).sections? ≠ none) ∧
      (edits.foldl apply s).valuation = edits.foldl revise s.valuation := by
  induction edits generalizing s with
  | nil => exact ⟨rfl, rfl, hs, id, rfl⟩
  | cons e es ih =>
      obtain ⟨hloaded, hkeeps⟩ := e.keeps hs
      obtain ⟨hfile', hloaded', hsound', hstands, hvaluation⟩ := ih hkeeps.sound
      refine ⟨hfile'.trans hkeeps.file_eq, hloaded'.trans hloaded, hsound',
        fun h => hstands (sections?_apply h e), ?_⟩
      rw [List.foldl_cons, List.foldl_cons, hvaluation, valuation_apply hs]

end FileEdit

/-! ### Loads -/

namespace Session

/-- **A load**, by `finishLoad`, lays `loadedValues` beneath what is in memory, and leaves the other
files alone. -/
theorem valuation_finishLoad {s : Session} (hs : s.Sound)
    (result : Except StorageError FileSections)
    (hresult : ∀ m, result = .ok m → m.WellStored ∧ m.file = s.file) :
    (s.finishLoad result).2.Sound ∧
      (s.finishLoad result).2.valuation = s.valuation.orElse (loadedValues result) ∧
      ∀ f, f ≠ s.file → (s.finishLoad result).2.settings.file? f = s.settings.file? f := by
  -- a load that fails is one of a file without sections
  obtain ⟨m, hfinish, hvaluation, hw, hfile⟩ : ∃ m,
      (s.finishLoad result).2 = (s.finishLoad (.ok m)).2 ∧
        loadedValues result = m.valuation ∧ m.WellStored ∧ m.file = s.file := by
    cases result with
    | error e =>
        exact ⟨.new s.file, congrArg (·.2) (s.finishLoad_error e), rfl,
          FileSections.wellStored_new s.file, rfl⟩
    | ok m => exact ⟨m, rfl, rfl, hresult m rfl⟩
  obtain ⟨hfile', hw', hget⟩ := get?_finishLoad hw hfile hs.wellStored hs.file_eq
  obtain ⟨hmerged, -⟩ := get?_merged hw hfile hs.wellStored hs.file_eq
  rw [hfinish, hvaluation]
  refine ⟨⟨hfile', hw'⟩, ?_, fun f hf => ?_⟩
  · funext n k
    rw [valuation, FileSections.valuation, hget]
    exact Option.map_or
  · have hinsert : (s.finishLoad (.ok m)).2.settings.file? f =
        (s.settings.insertFile (s.merged m)).2.file? f :=
      (Settings.file?_modifyFile _ s.file f fun m => ((), m)).trans (if_neg hf)
    rw [hinsert]
    exact (Table.get?_insert _ _ _ _).trans (if_neg (hmerged.symm ▸ hf))

/-- The session has been loaded, and its file stands in memory. -/
structure HasLoaded (s : Session) : Prop where
  isLoaded : s.isLoaded = true
  sections? : s.sections? ≠ none

/-- Loading the session, by `load` or `loadInBackground`, asks no repository, tells nothing, changes
nothing, and gives the `sections` that are in memory. -/
structure LoadsNothing (s : Session) : Prop where
  sections? : s.sections? = some s.sections
  load : ∀ {m : Type → Type} [Monad m] (r : Repository m), s.load r = pure ([], s)
  loadInBackground : ∀ {m : Type → Type} [Monad m] (task : String)
    (r : Repository (ExceptT Crash m)), s.loadInBackground task r = pure ([], s)

/-- By `withFile`, asking for a file that stands in memory changes nothing. -/
theorem withFile_eq_self {s : Session} (h : s.sections? = some s.sections) : s.withFile = s := by
  have hfiles : s.settings.ensureFile s.file = s.settings :=
    congrArg Settings.mk (Table.insert_eq_self h)
  rw [withFile, hfiles]

theorem HasLoaded.loadsNothing {s : Session} (h : s.HasLoaded) : s.LoadsNothing := by
  obtain ⟨m, hm⟩ := Option.ne_none_iff_exists'.1 h.sections?
  have hsections : s.sections? = some s.sections := by rw [sections_of_sections? hm, hm]
  refine ⟨hsections, fun r => ?_, fun task r => ?_⟩
  · rw [load_of_isLoaded r h.isLoaded, withFile_eq_self hsections]
  · rw [loadInBackground, if_pos h.isLoaded, withFile_eq_self hsections]

theorem hasLoaded_finishLoad (s : Session) (result : Except StorageError FileSections) :
    (s.finishLoad result).2.HasLoaded :=
  ⟨rfl, s.sections?_finishLoad result⟩

end Session

/-! ### Later loads -/

/-- The action leaves the sections of the file `f` standing, where an `edit` might throw them away.
-/
def HostAction.KeepsFile (f : SettingsFile) (a : HostAction ε) : Prop :=
  ∀ work, a = .edit work → ∀ s : Settings, s.file? f ≠ none → (leftBy work s).file? f ≠ none

namespace Session

/-- What `editInPlace work` leaves, refused or not. -/
theorem leftBy_editInPlace (work : EStateM ε Settings Bool) (s : Session) :
    (leftBy (editInPlace work) s).file = s.file ∧
      (leftBy (editInPlace work) s).isLoaded = s.isLoaded ∧
      (leftBy (editInPlace work) s).settings = leftBy work s.settings := by
  unfold leftBy
  cases hwork : work s.settings with
  | error e t =>
      rw [editInPlace_error hwork]
      exact ⟨rfl, rfl, rfl⟩
  | ok changed t =>
      rw [editInPlace_ok hwork]
      exact ⟨rfl, rfl, rfl⟩

/-- What `putInPlace x` leaves, refused or not. -/
theorem leftBy_putInPlace (x : Setting) (s : Session) :
    (leftBy (putInPlace x) s).file = s.file ∧
      (leftBy (putInPlace x) s).isLoaded = s.isLoaded ∧
      (leftBy (putInPlace x) s).settings = leftBy (Settings.putInPlace x) s.settings := by
  unfold leftBy
  cases hwork : Settings.putInPlace x s.settings with
  | error e t =>
      rw [putInPlace_error hwork]
      exact ⟨rfl, rfl, rfl⟩
  | ok replaced t =>
      rw [putInPlace_ok hwork]
      exact ⟨rfl, rfl, rfl⟩

end Session

theorem Settings.exists_leftBy_putInPlace (x : Setting) (s : Settings) :
    ∃ m, leftBy (putInPlace x) s = ⟨s.files.insert x.file m⟩ := by
  unfold leftBy putInPlace workOn
  cases FileSections.putInPlace x (s.fileOrNew x.file) with
  | error e m => exact ⟨m, rfl⟩
  | ok replaced m => exact ⟨m, rfl⟩

/-- **One action** of a host that `KeepsFile` leaves a session loaded. -/
theorem hasLoaded_of_lawful {x : Entry ε} (hx : x.Lawful) (h : x.before.HasLoaded)
    (hkeeps : x.action.KeepsFile x.before.file) :
    x.turn.session.file = x.before.file ∧ x.turn.session.HasLoaded := by
  cases hx with
  | reload _ => exact ⟨rfl, h.isLoaded, Settings.file?_insert_ne_none h.sections? _ _⟩
  | load hnot answer => exact ⟨rfl, Session.hasLoaded_finishLoad _ answer⟩
  | edit s work =>
      obtain ⟨hfile, hloaded, hsettings⟩ := s.leftBy_editInPlace work
      refine ⟨hfile, hloaded.trans h.isLoaded, ?_⟩
      rw [Turn.quiet, Session.sections?, hfile, hsettings]
      exact hkeeps work rfl s.settings h.sections?
  | put s x =>
      obtain ⟨hfile, hloaded, hsettings⟩ := s.leftBy_putInPlace x
      obtain ⟨m, hm⟩ := s.settings.exists_leftBy_putInPlace x
      refine ⟨hfile, hloaded.trans h.isLoaded, ?_⟩
      rw [Turn.quiet, Session.sections?, hfile, hsettings, hm]
      exact Settings.file?_insert_ne_none h.sections? x.file m
  | markDirty s => exact ⟨rfl, h.isLoaded, h.sections?⟩
  | restoreDirty s isDirty => exact ⟨rfl, h.isLoaded, h.sections?⟩
  | skip _ => exact ⟨rfl, h⟩
  | save _ answer =>
      cases answer with
      | error e => exact ⟨rfl, h⟩
      | ok u => exact ⟨rfl, h.isLoaded, h.sections?⟩

/-- **A run** of such actions leaves the session loaded at every point. -/
theorem hasLoaded_of_mem_journal (r : Repository (StateM σ)) {s : Session} {disk : σ}
    {as : List (HostAction ε)} (h : s.HasLoaded) (has : ∀ a ∈ as, a.KeepsFile s.file)
    {x : Entry ε} (hx : x ∈ journal r s disk as) : x.turn.session.HasLoaded := by
  induction as generalizing s disk with
  | nil => cases hx
  | cons a as ih =>
      obtain ⟨hfile, hloaded⟩ :=
        hasLoaded_of_lawful (lawful_perform r s disk a) h (has a List.mem_cons_self)
      rcases List.mem_cons.1 hx with rfl | hx
      · exact hloaded
      · exact ih hloaded (fun b hb => hfile ▸ has b (List.mem_cons_of_mem _ hb)) hx

/-! ### The load among the writes -/

/-- **Where the load falls.** The session `s` takes the writes `before`, its file is loaded with
some `result`, and it takes the writes `after`.  Its `valuation` is then what `revise` makes, for
all writes, of the one before and, beneath it, of `loadedValues result`; so for a new session it is
what was loaded.  The load leaves the other files and `isDirty` alone, and tells of its failure and
of nothing else.  Whatever happens `later`, if only it `KeepsFile`, the session `LoadsNothing`. -/
theorem load_falls_anywhere {s : Session} (hs : Reachable (.session s))
    {result : Except StorageError FileSections}
    (hresult : ∀ m, result = .ok m → Reachable (.file m) ∧ m.file = s.file)
    {before after : List FileEdit} (hwrites : ∀ e ∈ before ++ after, e.IsWrite) :
    let loading := before.foldl FileEdit.apply s
    let loaded := loading.finishLoad result
    let t := after.foldl FileEdit.apply loaded.2
    (s.isLoaded = false → ∀ {m : Type → Type} [Monad m] (r : Repository m),
      loading.load r = loading.finishLoad <$> r.load s.file) ∧
    t.valuation =
      (before ++ after).foldl FileEdit.revise (s.valuation.orElse (loadedValues result)) ∧
    (∀ f, f ≠ s.file → loaded.2.settings.file? f = loading.settings.file? f) ∧
    loaded.2.isDirty = loading.isDirty ∧
    (∀ m, result = .ok m → loaded.1 = []) ∧
    (∀ e, result = .error e → loaded.1 = [.settingsNotFound s.file]) ∧
    ∀ (r : Repository (StateM σ)) (disk : σ) (later : List (HostAction ε)),
      (∀ a ∈ later, a.KeepsFile s.file) →
        ∀ u ∈ t :: (journal r t disk later).map (·.turn.session), u.LoadsNothing := by
  intro loading loaded t
  obtain ⟨hfile, hw⟩ := Settings.fileOrNew_spec (wellStored_of_reachable hs) s.file
  obtain ⟨hfile', hloaded, hsound, -, hbefore⟩ := FileEdit.foldl_apply ⟨hfile, hw⟩ before
  obtain ⟨hsound', hload, hother⟩ := Session.valuation_finishLoad hsound result
    fun m hm => ⟨wellStored_of_reachable (hresult m hm).1, (hresult m hm).2.trans hfile'.symm⟩
  obtain ⟨hfile'', hloaded', -, hstands, hafter⟩ := FileEdit.foldl_apply hsound' after
  have hfinish := loading.hasLoaded_finishLoad result
  have ht : t.HasLoaded := ⟨hloaded'.trans hfinish.isLoaded, hstands hfinish.sections?⟩
  refine ⟨fun hnot m _ r => ?_, ?_, fun f hf => hother f (hfile'.symm ▸ hf), rfl,
    fun m hm => ?_, fun e he => ?_, fun r disk later hlater u hu => ?_⟩
  · rw [Session.load, if_neg (Bool.eq_false_iff.1 (hloaded.trans hnot)), hfile']
  · rw [List.foldl_append, FileEdit.foldl_revise_orElse, ← hbefore, ← hload]
    · exact hafter
    · exact fun e he => hwrites e (List.mem_append_left _ he)
  · subst hm
    rfl
  · subst he
    exact congrArg (fun f => [Notice.settingsNotFound f]) hfile'
  · rcases List.mem_cons.1 hu with rfl | hu
    · exact ht.loadsNothing
    · obtain ⟨x, hx, rfl⟩ := List.mem_map.1 hu
      have hkeeps : ∀ a ∈ later, a.KeepsFile t.file := (hfile''.trans hfile').symm ▸ hlater
      exact (hasLoaded_of_mem_journal r ht hkeeps hx).loadsNothing

/-- Two values are written, one before the load and one after it. -/
theorem load_between_writes :
    let m := (Ini.read .config "[Core]\nuse_cpu_jit=1\nregion_value=2\n").sections
    let before := [FileEdit.set "Core" "use_cpu_jit" (.int 0)]
    let after := [FileEdit.trySet "Renderer" "use_vsync" (.int 1)]
    let loading := before.foldl FileEdit.apply (.new .config)
    let t := after.foldl FileEdit.apply (loading.finishLoad (.ok m)).2
    t.valuation = (before ++ after).foldl FileEdit.revise m.valuation ∧
      t.valuation "Core" "use_cpu_jit" = some (.int 0) ∧
      t.valuation "Core" "region_value" = some (.int 2) ∧ t.LoadsNothing := by
  intro m before after loading t
  have hresult : ∀ m', Except.ok m = Except.ok (ε := StorageError) m' →
      Reachable (.file m') ∧ m'.file = .config := by
    rintro _ ⟨⟩
    exact ⟨.read .config _, Ini.file_read .config _⟩
  have hwrites : ∀ e ∈ before ++ after, e.IsWrite := by
    refine List.forall_mem_cons.2 ⟨trivial, List.forall_mem_singleton.2 trivial⟩
  obtain ⟨-, hvaluation, -, -, -, -, hlater⟩ := load_falls_anywhere (ε := Empty) (σ := Unit)
    (.newSession .config) hresult hwrites
  rw [Session.valuation_new, Valuation.empty_orElse] at hvaluation
  refine ⟨hvaluation, by decide +kernel, by decide +kernel, ?_⟩
  exact hlater ⟨fun _ => pure (.ok m), fun _ _ => pure (.ok ())⟩ () [] nofun t List.mem_cons_self

end EmulatorSettings
