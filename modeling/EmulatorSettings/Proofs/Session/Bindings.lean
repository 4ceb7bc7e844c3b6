import EmulatorSettings.Proofs.Session.Visits
import Mathlib.Data.Prod.Basic

/-!
# Sessions — a binding on its way through the file

A binding is stored as text, so the visit that binds it writes it as it was typed.  The visits after
it read that text as any other and may take it for a number.  So a row shows the text of the value
that was read, and the next visit that saves puts it in the file.

* `gives_of_bound`: the visit that binds writes the binding.
* `shown_of_gives`: what a row shows of a text in the file.
* `kept_iff_canonical`: the bindings that are kept by everything that comes after.
* `leading_zeros_are_lost`: one that is not.
-/

namespace EmulatorSettings.InputBinding

/-- The edit of `row` that stores `binding`. -/
def bound (row : InputBinding) (binding : String) : RowEdit :=
  ⟨.inputBinding row, .bind binding⟩

/-- The text that `row` shows once a new session has loaded its file from the tree `t`. -/
def shown (row : InputBinding) (l : Layout) (t : Tree) : String :=
  row.text (((Session.new row.address.file).load (.ini Tree.disk l)).run t).1.2.settings

variable {l : Layout} {row : InputBinding} {path binding value : String} {t t₁ t₂ : Tree}

/-! ### The visit that binds -/

/-- A `binding` that `row` accepts is stored as text. -/
theorem changedAt_bound {s : Session} (hs : s.Sound) (haccepts : row.Accepts binding)
    (hfile : s.file = row.address.file) :
    s.ChangedAt ((row.bound binding).apply s) row.address.sectionName row.address.key
      (some ⟨row.address.key, row.address.sectionName, s.file, .text binding⟩) := by
  obtain ⟨hname, hentry⟩ := accepts_iff.1 haccepts
  have hbind : row.bind s.settings binding = .ok (row.address.set s.settings (.text binding)) :=
    bind_eq_ok.2 ⟨hname, hentry, rfl⟩
  have hedit : (s.edit fun u => row.bind u binding) = .ok
      ((row.address.set s.settings (.text binding)).1,
        { s with
          settings := (row.address.set s.settings (.text binding)).2
          isDirty := s.isDirty || (row.address.set s.settings (.text binding)).1 }) :=
    Session.edit_eq_ok.2 ⟨_, hbind, rfl⟩
  have happly := congrArg (fun r => r.toOption.elim s (·.2)) hedit
  change (row.bound binding).apply s = _ at happly
  rw [happly, Address.set, ← hfile]
  exact Session.changedAt_set hs _ _ _ _

/-- A `binding` among other edits is what the key of `row` holds after them, if those in `after`
spare it. -/
theorem foldl_bound {s t : Session} {before after : List RowEdit} (hs : s.Sound)
    (hread : Ini.Readable s.sections) (haccepts : row.Accepts binding)
    (hfile : s.file = row.address.file) (hbefore : ∀ e ∈ before, e.control.address.Storable)
    (hafter : ∀ e ∈ after, e.Spares row.address)
    (ht : (before ++ row.bound binding :: after).foldl RowEdit.apply s = t) :
    t.file = s.file ∧ t.Sound ∧ Ini.Readable t.sections ∧
      t.sections.get? row.address.sectionName row.address.key =
        some ⟨row.address.key, row.address.sectionName, s.file, .text binding⟩ := by
  rw [List.foldl_append, List.foldl_cons] at ht
  subst ht
  have hfirst := RowEdit.keeps_foldl hs hbefore
  have hset := changedAt_bound hfirst.sound haccepts (hfirst.file_eq.trans hfile)
  have hlast := RowEdit.keeps_foldl hset.sound fun e he => (hafter e he).storable
  have hfile' := hset.file_eq.trans hfirst.file_eq
  refine ⟨hlast.file_eq.trans hfile', hlast.sound, hlast.readable trivial ?_, ?_⟩
  · refine hset.readable (fun y hy => ?_) (hfirst.readable trivial hread)
    rw [← Option.some.inj hy]
    exact Ini.readable_of_checked (accepts_iff.1 haccepts)
  · rw [hlast.get?_eq, hset.get?_eq, if_pos ⟨rfl, rfl⟩, hfirst.file_eq]
    rintro ⟨e, he, haddress⟩
    rw [hfile', hfile] at haddress
    exact (hafter e he).other haddress

/-- **A visit that binds**, if it saved, has written the `binding` as it was typed, whatever is
`before` it and whichever other rows `after` it edits. -/
theorem gives_of_bound {before after : List RowEdit}
    (hpath : l.settingsPath row.address.file = .ok path) (haccepts : row.Accepts binding)
    (hbefore : ∀ e ∈ before, e.control.address.Storable)
    (hafter : ∀ e ∈ after, e.Spares row.address)
    (h : (Session.visit (.ini Tree.disk l) row.address.file
      (before ++ row.bound binding :: after)).run t = (.saved, t₁)) :
    t₁.Gives path row.address.sectionName row.address.key binding := by
  obtain ⟨s, stop, hopened, hstop, hsaved⟩ := Session.exists_stop_of_visit hpath h
  obtain ⟨hfile, hsound, hread, hheld⟩ := foldl_bound hopened.sound hopened.readable haccepts
    hopened.file_eq hbefore hafter rfl
  rw [← hopened.file_eq, ← hfile] at hpath
  exact ⟨_, Session.readText_of_stop hpath hstop hsaved,
    Ini.gives_write hsound.wellStored hread hheld⟩

/-! ### The visits after it -/

/-- **What `row` shows** of a text `value` in the file is the text of `Value.ofText value`. -/
theorem shown_of_gives (hpath : l.settingsPath row.address.file = .ok path)
    (h : t.Gives path row.address.sectionName row.address.key value) :
    row.shown l t = (Value.ofText value).written := by
  obtain ⟨notices, s, hload, hopened⟩ := Session.exists_run_load hpath t
  have hget := hopened.get?_eq h
  rw [Session.sections, hopened.file_eq, Settings.get?_fileOrNew] at hget
  rw [shown, hload, text, Address.text?, Address.value?, Address.get?, hget]
  rfl

/-- **The bindings that are kept.** A `binding` is one that `row` accepts, whatever is edited
`before` it and whichever other rows `after` it, and the visit saves.  Then the file gives the key
of `row` that very text.  After any number of further `visits`, saved or not, that edit other rows,
`row.shown` is the binding exactly if it is `Value.Canonical`, and the file still gives it exactly
if it is, or none of the visits saved; otherwise both have `(Value.ofText binding).written`. -/
theorem kept_iff_canonical {before after : List RowEdit} {visits : List (List RowEdit)}
    {outcomes : List StopOutcome}
    (hpath : l.settingsPath row.address.file = .ok path) (haccepts : row.Accepts binding)
    (hbefore : ∀ e ∈ before, e.control.address.Storable)
    (hafter : ∀ e ∈ after, e.Spares row.address)
    (hvisits : ∀ edits ∈ visits, ∀ e ∈ edits, e.Spares row.address)
    (hbound : (Session.visit (.ini Tree.disk l) row.address.file
      (before ++ row.bound binding :: after)).run t = (.saved, t₁))
    (hlater : (visits.mapM (Session.visit (.ini Tree.disk l) row.address.file)).run t₁ =
      (outcomes, t₂)) :
    t₁.Gives path row.address.sectionName row.address.key binding ∧
    row.shown l t₂ = (Value.ofText binding).written ∧
    (row.shown l t₂ = binding ↔ Value.Canonical binding) ∧
    t₂.Gives path row.address.sectionName row.address.key
      (if .saved ∈ outcomes then (Value.ofText binding).written else binding) ∧
    (t₂.Gives path row.address.sectionName row.address.key binding ↔
      .saved ∉ outcomes ∨ Value.Canonical binding) := by
  have hfirst := gives_of_bound hpath haccepts hbefore hafter hbound
  have hlast := Session.gives_of_visits hpath hlater hvisits hfirst
  have hshown : row.shown l t₂ = (Value.ofText binding).written := by
    rw [shown_of_gives hpath hlast]
    split
    · rw [Value.ofText_written_ofText]
    · rfl
  refine ⟨hfirst, hshown, ?_, hlast, ?_⟩
  · rw [hshown]
    exact Value.written_ofText_eq_iff
  · rw [← Value.written_ofText_eq_iff]
    by_cases hsaved : .saved ∈ outcomes
    · rw [if_pos hsaved] at hlast
      constructor
      · intro hgives
        exact .inr (hlast.unique hgives)
      · rintro (hnot | hwritten)
        · exact absurd hsaved hnot
        · rwa [hwritten] at hlast
    · rw [if_neg hsaved] at hlast
      exact ⟨fun _ => .inl hsaved, fun _ => hlast⟩

/-- The user directory `/user` of a new installation. -/
def newFiles : Tree := Tree.empty.put ["user"] .directory

/-- The row of a button. -/
def buttonA : InputBinding := ⟨.config, "Controls", "button_a"⟩

/-- An edit of another row. -/
def setJit (checked : Bool) : RowEdit :=
  ⟨.checkBox ⟨⟨.config, "Core", "use_cpu_jit"⟩, true⟩, .check checked⟩

/-- A visit of the global settings. -/
def visitConfig (edits : List RowEdit) : StateM Tree StopOutcome :=
  Session.visit (.ini Tree.disk ⟨"/user"⟩) .config edits

/-- The first visit of a new installation, which stores `binding` for `buttonA`. -/
def bindVisit (binding : String) : StopOutcome × Tree :=
  (visitConfig [buttonA.bound binding]).run newFiles

/-- A visit after `bindVisit`, which edits another row. -/
def laterVisits (binding : String) : List StopOutcome × Tree :=
  ([[setJit false]].mapM visitConfig).run (bindVisit binding).2

theorem keyboard_binding_is_kept :
    (bindVisit "engine:keyboard,code:65").1 = .saved ∧
      (laterVisits "engine:keyboard,code:65").1 = [.saved] ∧
      buttonA.shown ⟨"/user"⟩ (laterVisits "engine:keyboard,code:65").2 =
        "engine:keyboard,code:65" ∧
      (laterVisits "engine:keyboard,code:65").2.Gives "/user/config/config.ini" "Controls"
        "button_a" "engine:keyboard,code:65" := by
  have hpath : (Layout.mk "/user").settingsPath buttonA.address.file =
      .ok "/user/config/config.ini" := by decide +kernel
  have haccepts : buttonA.Accepts "engine:keyboard,code:65" :=
    accepts_iff.2 ⟨by decide +kernel, by decide +kernel⟩
  have hspares : (setJit false).Spares buttonA.address :=
    ⟨⟨by decide +kernel, by decide +kernel⟩, by decide⟩
  have hcanonical : Value.Canonical "engine:keyboard,code:65" :=
    .text (by decide +kernel) (by decide +kernel)
  have hfirst : (bindVisit "engine:keyboard,code:65").1 = .saved := by decide +kernel
  have hsecond : (laterVisits "engine:keyboard,code:65").1 = [.saved] := by decide +kernel
  have hbound : (visitConfig ([] ++ buttonA.bound "engine:keyboard,code:65" :: [])).run newFiles =
      (.saved, (bindVisit "engine:keyboard,code:65").2) := Prod.fst_eq_iff.1 hfirst
  have hlater : ([[setJit false]].mapM visitConfig).run (bindVisit "engine:keyboard,code:65").2 =
      ([.saved], (laterVisits "engine:keyboard,code:65").2) := Prod.fst_eq_iff.1 hsecond
  obtain ⟨-, -, hshown, -, hgives⟩ := kept_iff_canonical hpath haccepts
    (List.forall_mem_nil _) (List.forall_mem_nil _)
    (List.forall_mem_singleton.2 (List.forall_mem_singleton.2 hspares)) hbound hlater
  exact ⟨hfirst, hsecond, hshown.2 hcanonical, hgives.2 (.inr hcanonical)⟩

/-- **Leading zeros are lost.** The first visit writes `007` as it was typed.  The row of a new
session shows `7`, and a visit that edits another row puts `7` into the file. -/
theorem leading_zeros_are_lost :
    buttonA.Accepts "007" ∧
      (bindVisit "007").1 = .saved ∧
      (bindVisit "007").2.readText "/user/config/config.ini" =
        .ok "[Controls]\nbutton_a=007\n" ∧
      buttonA.shown ⟨"/user"⟩ (bindVisit "007").2 = "7" ∧
      (laterVisits "007").1 = [.saved] ∧
      (laterVisits "007").2.readText "/user/config/config.ini" =
        .ok "[Controls]\nbutton_a=7\n\n[Core]\nuse_cpu_jit=0\n" := by
  refine ⟨accepts_iff.2 ⟨by decide +kernel, by decide +kernel⟩, by decide +kernel,
    by decide +kernel, by decide +kernel, by decide +kernel, by decide +kernel⟩

end EmulatorSettings.InputBinding
