import EmulatorSettings.Proofs.Ini.WrittenEntries
import EmulatorSettings.Proofs.Row.Edits
import EmulatorSettings.Proofs.Session.Edits
import EmulatorSettings.Proofs.Session.OnDisk

/-!
# Sessions — visits

A visit opens a session on a settings file, edits some rows, and stops for good.  A key that no row
of the visit edits is read and, if the visit saves, written again; so its text goes from the one in
the file to the one that its value is written as, and stays there from the next visit on.

* `RowEdit.keeps`, `keeps_foldl`: what the edits of rows keep of a session.
* `gives_of_visit`: what one visit does to the text of a key that it leaves alone.
* `gives_of_visits`: what any number of visits does.
-/

namespace EmulatorSettings

/-- An `edit` of the row that is `control`. -/
structure RowEdit where
  control : Control
  edit : Edit
  deriving DecidableEq

/-- The session `s` after an edit of a row, or as it was if the edit was refused. -/
def RowEdit.apply (s : Session) (e : RowEdit) : Session :=
  (s.edit fun u => e.control.edit u e.edit).toOption.elim s (·.2)

/-- The edit `e` is one of another row than the one at `a`, and at an address that can be stored. -/
structure RowEdit.Spares (e : RowEdit) (a : Address) : Prop where
  storable : e.control.address.Storable
  other : e.control.address ≠ a

/-- Opens a session on `file`, makes the `edits`, and stops for good. -/
def Session.visit {m : Type → Type} [Monad m] (r : Repository m) (file : SettingsFile)
    (edits : List RowEdit) : m StopOutcome := do
  let (_, s) ← (new file).load r
  let stop ← (edits.foldl RowEdit.apply s).stop r true
  return stop.outcome

/-- What the file at `path` gives the key `k` of the section `n`. -/
def Tree.Gives (t : Tree) (path n k value : String) : Prop :=
  ∃ text, t.readText path = .ok text ∧ Ini.Gives text n k value

theorem Tree.Gives.unique {t : Tree} {path n k value value' : String}
    (h : t.Gives path n k value) (h' : t.Gives path n k value') : value = value' := by
  obtain ⟨text, htext, hgives⟩ := h
  obtain ⟨text', htext', hgives'⟩ := h'
  obtain rfl := Except.ok.inj (htext.symm.trans htext')
  exact hgives.unique hgives'

/-! ### The edits of rows -/

namespace RowEdit

/-- An edit sets a value that can be read back, or nothing. -/
theorem cases_apply {e : RowEdit} (ha : e.control.address.Storable) (s : Session) :
    e.apply s = s ∨ ∃ v dirty,
      Ini.ReadableEntry e.control.address.key.toList v.written.toList ∧
        e.apply s =
          { s with settings := (e.control.address.set s.settings v).2, isDirty := dirty } := by
  unfold apply
  cases hedit : s.edit fun u => e.control.edit u e.edit with
  | error err => exact .inl rfl
  | ok r =>
      obtain ⟨u, hu, ht⟩ := Session.edit_eq_ok.1 hedit
      obtain ⟨v, hv, hset⟩ := Control.exists_readable_of_edit ha hu
      refine .inr ⟨v, s.isDirty || r.1, hv, ?_⟩
      rw [← hset]
      exact ht

/-- Setting a value in another file leaves the `sections` of the session's own file alone. -/
theorem sections_set_elsewhere {s : Session} {a : Address} (h : a.file ≠ s.file) (v : Value)
    (dirty : Bool) :
    Session.sections { s with settings := (a.set s.settings v).2, isDirty := dirty } =
      s.sections := by
  have hfile : (a.set s.settings v).2.file? s.file = s.settings.file? s.file :=
    s.settings.file?_set_of_ne h.symm a.sectionName a.key v
  rw [Session.sections, Session.sections, Settings.fileOrNew, Settings.fileOrNew, hfile]

/-- **What an edit of a row keeps**: all but the setting at the address of the row, and readable
entries. -/
theorem keeps {s : Session} (hs : s.Sound) {e : RowEdit} (ha : e.control.address.Storable) :
    s.Keeps (e.apply s) (fun n k => e.control.address = ⟨s.file, n, k⟩) True := by
  rcases cases_apply ha s with h | ⟨v, dirty, hv, h⟩
  · rw [h]
    exact .refl hs _ _
  · rw [h]
    have hname := Ini.feed_of_checkName ha.name
    generalize e.control.address = a at hv hname ⊢
    obtain ⟨file, n, k⟩ := a
    by_cases hfile : file = s.file
    · subst hfile
      refine (Session.changedAt_set hs n k v dirty).keeps (.inl rfl) ?_
      intro _ y hy
      rw [← Option.some.inj hy]
      exact ⟨hname, hv⟩
    · have hsections := sections_set_elsewhere (a := ⟨file, n, k⟩) hfile v dirty
      refine ⟨rfl, ⟨?_, ?_⟩, fun n' k' _ => ?_, fun _ hr => ?_⟩
      · rw [hsections]
        exact hs.file_eq
      · rw [hsections]
        exact hs.wellStored
      · rw [hsections]
      · rw [hsections]
        exact hr

/-- What several `edits` keep. -/
theorem keeps_foldl {s : Session} (hs : s.Sound) {edits : List RowEdit}
    (hstorable : ∀ e ∈ edits, e.control.address.Storable) :
    s.Keeps (edits.foldl apply s) (fun n k => ∃ e ∈ edits, e.control.address = ⟨s.file, n, k⟩)
      True := by
  induction edits generalizing s with
  | nil => exact .refl hs _ _
  | cons e edits ih =>
      have hfirst := keeps hs (hstorable e List.mem_cons_self)
      have hrest := ih hfirst.sound fun e' he => hstorable e' (List.mem_cons_of_mem e he)
      refine ⟨hrest.file_eq.trans hfirst.file_eq, hrest.sound, fun n k hn => ?_, fun hc hr => ?_⟩
      · rw [List.foldl_cons, hrest.get?_eq, hfirst.get?_eq]
        · exact fun h => hn ⟨e, List.mem_cons_self, h⟩
        · rintro ⟨e', he, h⟩
          rw [hfirst.file_eq] at h
          exact hn ⟨e', List.mem_cons_of_mem e he, h⟩
      · exact hrest.readable hc (hfirst.readable hc hr)

end RowEdit

/-! ### One visit -/

namespace Session

variable {l : Layout} {file : SettingsFile} {path n k : String} {t t' : Tree}
  {edits : List RowEdit} {outcome : StopOutcome}

/-- The session `s` has just been opened on the tree `t`. -/
structure OpenedOn (s : Session) (t : Tree) (file : SettingsFile) (path : String) : Prop where
  file_eq : s.file = file
  sections_eq : s.sections = t.sections file path

theorem OpenedOn.sound {s : Session} (h : s.OpenedOn t file path) : s.Sound := by
  refine ⟨?_, ?_⟩
  · rw [h.sections_eq, h.file_eq, Tree.file_sections]
  · rw [h.sections_eq]
    exact (t.asRead_sections file path).wellStored

theorem OpenedOn.readable {s : Session} (h : s.OpenedOn t file path) :
    Ini.Readable s.sections := by
  rw [h.sections_eq]
  exact (t.asRead_sections file path).readable

/-- A session that was opened holds what the file `Gives`. -/
theorem OpenedOn.get?_eq {s : Session} (h : s.OpenedOn t file path) {value : String}
    (hgives : t.Gives path n k value) :
    s.sections.get? n k = some ⟨k, n, file, .ofText value⟩ := by
  obtain ⟨text, htext, hvalue⟩ := hgives
  rw [h.sections_eq, Tree.sections, htext]
  exact Ini.get?_read_iff.2 ⟨value, hvalue, rfl⟩

/-- A `load` opens a new session, and leaves the tree `t` as it is. -/
theorem exists_run_load (hpath : l.settingsPath file = .ok path) (t : Tree) :
    ∃ notices s, ((new file).load (.ini Tree.disk l)).run t = ((notices, s), t) ∧
      s.OpenedOn t file path := by
  obtain ⟨result, hrun, hsections⟩ := Repository.exists_run_loadIni hpath t
  have hload : ((new file).load (.ini Tree.disk l)).run t =
      ((new file).finishLoad result, t) := by
    change ((new file).finishLoad <$> Repository.loadIni Tree.disk l file).run t = _
    rw [StateT.run_map]
    exact congrArg (fun p => ((new file).finishLoad p.1, p.2)) hrun
  have hheld : ((new file).finishLoad result).2.Holds (Notice.ofLoad file result).1 :=
    holds_finishLoad (by rw [hsections, Tree.file_sections])
  exact ⟨_, _, hload, rfl, hheld.sections_eq.trans hsections⟩

/-- **What a `visit` is**: a session that was opened, edited and stopped. -/
theorem exists_stop_of_visit (hpath : l.settingsPath file = .ok path)
    (h : (visit (.ini Tree.disk l) file edits).run t = (outcome, t')) :
    ∃ s stop, s.OpenedOn t file path ∧
      ((edits.foldl RowEdit.apply s).stop (.ini Tree.disk l) true).run t = (stop, t') ∧
        stop.outcome = outcome := by
  obtain ⟨notices, s, hload, hopened⟩ := exists_run_load hpath t
  rw [visit, Repository.run_bind_of_run hload] at h
  dsimp only at h
  obtain ⟨stop, t₁, hstop⟩ : ∃ stop t₁,
      ((edits.foldl RowEdit.apply s).stop (.ini Tree.disk l) true).run t = (stop, t₁) :=
    ⟨_, _, rfl⟩
  rw [Repository.run_bind_of_run hstop] at h
  obtain ⟨houtcome, rfl⟩ := Prod.mk.inj h
  exact ⟨s, stop, hopened, hstop, houtcome⟩

/-- **One `visit`**, whatever came of it, leaves a key that it spares with its text `value`, or, if
it saved, with `(Value.ofText value).written`. -/
theorem gives_of_visit (hpath : l.settingsPath file = .ok path)
    (h : (visit (.ini Tree.disk l) file edits).run t = (outcome, t'))
    (hspares : ∀ e ∈ edits, e.Spares ⟨file, n, k⟩) {value : String}
    (hgives : t.Gives path n k value) :
    t'.Gives path n k (if outcome = .saved then (Value.ofText value).written else value) := by
  obtain ⟨s, stop, hopened, hstop, rfl⟩ := exists_stop_of_visit hpath h
  have hkeeps := RowEdit.keeps_foldl hopened.sound fun e he => (hspares e he).storable
  have hheld : (edits.foldl RowEdit.apply s).sections.get? n k =
      some ⟨k, n, file, .ofText value⟩ := by
    rw [hkeeps.get?_eq, hopened.get?_eq hgives]
    rintro ⟨e, he, haddress⟩
    rw [hopened.file_eq] at haddress
    exact (hspares e he).other haddress
  have hpathS : l.settingsPath (edits.foldl RowEdit.apply s).file = .ok path := by
    rw [hkeeps.file_eq, hopened.file_eq, hpath]
  by_cases hsaved : stop.outcome = .saved
  · rw [if_pos hsaved]
    have hwritten := Ini.gives_write hkeeps.sound.wellStored
      (hkeeps.readable trivial hopened.readable) hheld
    exact ⟨_, readText_of_stop hpathS hstop hsaved, hwritten⟩
  · rw [if_neg hsaved]
    obtain ⟨text, htext, hvalue⟩ := hgives
    exact ⟨text, readText_of_stop_unsaved hpathS hstop hsaved htext, hvalue⟩

/-! ### Any number of visits -/

/-- **Any number of `visits`** that spare a key leave its text until one of them saves, and from
then on the text of the value it was read as. -/
theorem gives_of_visits (hpath : l.settingsPath file = .ok path) {visits : List (List RowEdit)}
    {outcomes : List StopOutcome}
    (h : (visits.mapM (visit (.ini Tree.disk l) file)).run t = (outcomes, t'))
    (hspares : ∀ edits ∈ visits, ∀ e ∈ edits, e.Spares ⟨file, n, k⟩) {value : String}
    (hgives : t.Gives path n k value) :
    t'.Gives path n k (if .saved ∈ outcomes then (Value.ofText value).written else value) := by
  induction visits generalizing t value outcomes with
  | nil =>
      obtain ⟨rfl, rfl⟩ := Prod.mk.inj h
      exact hgives
  | cons edits visits ih =>
      obtain ⟨first, t₁, hfirst⟩ : ∃ first t₁,
          (visit (.ini Tree.disk l) file edits).run t = (first, t₁) := ⟨_, _, rfl⟩
      obtain ⟨rest, t₂, hrest⟩ : ∃ rest t₂,
          (visits.mapM (visit (.ini Tree.disk l) file)).run t₁ = (rest, t₂) := ⟨_, _, rfl⟩
      rw [List.mapM_cons, Repository.run_bind_of_run hfirst, Repository.run_bind_of_run hrest] at h
      obtain ⟨rfl, rfl⟩ := Prod.mk.inj h
      have hstep := gives_of_visit hpath hfirst (hspares edits List.mem_cons_self) hgives
      have hrun := ih hrest (fun es hes => hspares es (List.mem_cons_of_mem edits hes)) hstep
      by_cases hsaved : first = .saved
      · -- the value is settled after its first rewriting
        rw [if_pos hsaved, Value.ofText_written_ofText, ite_self] at hrun
        rwa [if_pos (hsaved ▸ List.mem_cons_self)]
      · rw [if_neg hsaved] at hrun
        simpa only [List.mem_cons, Ne.symm hsaved, false_or] using hrun

end Session

end EmulatorSettings
