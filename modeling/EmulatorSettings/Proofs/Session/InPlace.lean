import EmulatorSettings.Proofs.Session.Reachable
import EmulatorSettings.Proofs.Store.InPlace

/-!
# Sessions — edits that are refused

An edit works on the settings of a session in place, and the session is due for saving only if it
reports a change.  The edits of rows check what they are given before they touch anything.

* `Session.editInPlace_error`, `editInPlace_ok`, `putInPlace_error`, `putInPlace_ok`: a session
  after an edit, whatever that does to the settings.
* `Session.allOrNothing_edit`, `allOrNothing_put`: work that leaves no trace on the settings leaves
  none on the session.
* `refused_without_trace`: what may be refused in the store, in a row and in a session leaves
  everything as it was.
-/

namespace EmulatorSettings

variable {ε α : Type}

/-! ### Rows -/

namespace Address

/-- Writes the value `v` at the address `a`, and tells whether that changed anything. -/
def setInPlace (a : Address) (v : Value) : EStateM ε Settings Bool :=
  modifyGet fun s => a.set s v

end Address

/-- Stores the number of the entry at `index`. -/
def SingleChoice.selectInPlace (c : SingleChoice) (index : Nat) : EStateM EditError Settings Bool :=
  match c.choices[index]? with
  | none       => throw (.choiceOutOfRange index c.choices.length)
  | some entry => c.address.setInPlace (.int entry.value)

/-- Stores the date-time that `text` denotes. -/
def TimeField.enterInPlace (f : TimeField) (text : String) : EStateM EditError Settings Bool :=
  match DateTime.ofChars? (Text.trim text.toList) with
  | none   => throw (.invalidDateTime text)
  | some t => f.address.setInPlace (.text (String.ofList t.render))

/-- Stores `binding` by `trySetInPlace`. -/
def InputBinding.bindInPlace (b : InputBinding) (binding : String) :
    EStateM EditError Settings Bool :=
  let a := b.address
  (Settings.trySetInPlace a.file a.sectionName a.key (.text binding)).adaptExcept .store

/-- The edits of the settings of all files that may be refused. -/
inductive SettingsEdit where
  | trySet (f : SettingsFile) (n k : String) (v : Value)
  | select (c : SingleChoice) (index : Nat)
  | enter (f : TimeField) (text : String)
  | bind (b : InputBinding) (binding : String)

namespace SettingsEdit

/-- What an edit of the settings `s` answers. -/
def answer (s : Settings) : SettingsEdit → Except EditError (Bool × Settings)
  | trySet f n k v  => (s.trySet f n k v).mapError .store
  | select c index  => c.select s index
  | enter f text    => f.enter s text
  | bind b binding  => b.bind s binding

/-- The edit carried out in place. -/
def inPlace : SettingsEdit → EStateM EditError Settings Bool
  | trySet f n k v => (Settings.trySetInPlace f n k v).adaptExcept .store
  | select c index => c.selectInPlace index
  | enter f text   => f.enterInPlace text
  | bind b binding => b.bindInPlace binding

end SettingsEdit

/-- Errors that `f` tells in other words leave the same trace. -/
theorem AllOrNothing.adaptExcept {δ σ : Type} {work : EStateM ε σ α} {s : σ}
    {answer : Except ε (α × σ)} (h : AllOrNothing work s answer) (f : ε → δ) :
    AllOrNothing (work.adaptExcept f) s (answer.mapError f) := by
  cases hwork : work s with
  | error e t =>
      obtain ⟨rfl, rfl⟩ := h.refused e t hwork
      exact .of_error (e := f e) (by rw [EStateM.adaptExcept, hwork]) rfl
  | ok a t =>
      obtain rfl := h.done a t hwork
      exact .of_ok (a := a) (by rw [EStateM.adaptExcept, hwork]) rfl

/-- **Every `SettingsEdit`** leaves no trace if it is refused, and else what it answers. -/
theorem SettingsEdit.allOrNothing (e : SettingsEdit) (s : Settings) :
    AllOrNothing e.inPlace s (e.answer s) := by
  cases e with
  | trySet f n k v => exact (s.allOrNothing_trySet f n k v).adaptExcept EditError.store
  | select c index =>
      rw [inPlace, answer, SingleChoice.selectInPlace, SingleChoice.select]
      cases c.choices[index]? with
      | none => exact .of_error rfl rfl
      | some entry => exact .change _ s
  | enter f text =>
      rw [inPlace, answer, TimeField.enterInPlace, TimeField.enter]
      cases DateTime.ofChars? (Text.trim text.toList) with
      | none => exact .of_error rfl rfl
      | some t => exact .change _ s
  | bind b binding => exact (s.allOrNothing_trySet _ _ _ _).adaptExcept EditError.store

/-! ### Sessions -/

namespace Session

/-- Does `work` on the settings of a session.  What was done to them stays, also if the work is
refused. -/
def workOn (work : EStateM ε Settings α) : EStateM ε Session α := fun s =>
  match work s.settings with
  | .ok a settings    => .ok a { s with settings := settings }
  | .error e settings => .error e { s with settings := settings }

/-- Edits the settings by `work`, and marks the session dirty if that tells of a change. -/
def editInPlace (work : EStateM ε Settings Bool) : EStateM ε Session Bool := do
  let changed ← workOn work
  if changed then modify markDirty
  return changed

/-- Takes the setting `x` into the file and section it belongs to, and gives the one it replaces. -/
def putInPlace (x : Setting) : EStateM StoreError Session (Option Setting) := do
  let replaced ← workOn (Settings.putInPlace x)
  modify markDirty
  return replaced

theorem workOn_error {work : EStateM ε Settings α} {s : Session} {e : ε} {t : Settings}
    (h : work s.settings = .error e t) : workOn work s = .error e { s with settings := t } := by
  rw [workOn, h]

theorem workOn_ok {work : EStateM ε Settings α} {s : Session} {a : α} {t : Settings}
    (h : work s.settings = .ok a t) : workOn work s = .ok a { s with settings := t } := by
  rw [workOn, h]

theorem editInPlace_error {work : EStateM ε Settings Bool} {s : Session} {e : ε} {t : Settings}
    (h : work s.settings = .error e t) :
    editInPlace work s = .error e { s with settings := t } := by
  change EStateM.bind (workOn work) _ s = _
  rw [EStateM.bind, workOn_error h]

theorem editInPlace_ok {work : EStateM ε Settings Bool} {s : Session} {changed : Bool}
    {t : Settings} (h : work s.settings = .ok changed t) :
    editInPlace work s =
      .ok changed { s with settings := t, isDirty := s.isDirty || changed } := by
  change EStateM.bind (workOn work) _ s = _
  rw [EStateM.bind, workOn_ok h]
  cases changed with
  | false => rw [Bool.or_false]; rfl
  | true => rw [Bool.or_true]; rfl

theorem putInPlace_error {x : Setting} {s : Session} {e : StoreError} {t : Settings}
    (h : Settings.putInPlace x s.settings = .error e t) :
    putInPlace x s = .error e { s with settings := t } := by
  change EStateM.bind (workOn (Settings.putInPlace x)) _ s = _
  rw [EStateM.bind, workOn_error h]

theorem putInPlace_ok {x : Setting} {s : Session} {replaced : Option Setting} {t : Settings}
    (h : Settings.putInPlace x s.settings = .ok replaced t) :
    putInPlace x s = .ok replaced { s with settings := t, isDirty := true } := by
  change EStateM.bind (workOn (Settings.putInPlace x)) _ s = _
  rw [EStateM.bind, workOn_ok h]
  rfl

/-- Work that is `AllOrNothing` on the settings is so on the session. -/
theorem allOrNothing_edit {work : EStateM ε Settings Bool} {s : Session}
    {answer : Settings → Except ε (Bool × Settings)}
    (h : AllOrNothing work s.settings (answer s.settings)) :
    AllOrNothing (editInPlace work) s (s.edit answer) := by
  cases hwork : work s.settings with
  | error e t =>
      obtain ⟨rfl, hanswer⟩ := h.refused e t hwork
      exact .of_error (editInPlace_error hwork) (edit_eq_error.2 hanswer)
  | ok changed t =>
      exact .of_ok (editInPlace_ok hwork) (by rw [edit, h.done changed t hwork]; rfl)

/-- Taking a setting into `WellStored` settings is `AllOrNothing` on the session. -/
theorem allOrNothing_put {s : Session} (hs : s.settings.WellStored) (x : Setting) :
    AllOrNothing (putInPlace x) s (s.put x) := by
  have hput := Settings.allOrNothing_put hs x
  cases hwork : Settings.putInPlace x s.settings with
  | error e t =>
      obtain ⟨rfl, hrefused⟩ := hput.refused e t hwork
      exact .of_error (putInPlace_error hwork) (by rw [put, hrefused]; rfl)
  | ok replaced t =>
      exact .of_ok (putInPlace_ok hwork) (by rw [put, hput.done replaced t hwork]; rfl)

end Session

/-! ### Everything that may be refused -/

/-- **A refusal leaves no trace**: `AllOrNothing` holds of a setting or value that is offered to a
section, of a section, a setting or a name that is offered to a file, of every `SettingsEdit`, and
of the same edit made through a session, whose flags stay as they were.  A `trySet` is refused
exactly for a section name, key or value that cannot be stored, and the name is found first. -/
theorem refused_without_trace {m : FileSections} (hm : Reachable (.file m)) :
    (∀ (c : Section) (x : Setting), AllOrNothing (Section.putInPlace x) c (c.put x)) ∧
    (∀ (c : Section) (k : String) (v : Value),
      AllOrNothing (Section.trySetInPlace k v) c (c.trySet k v)) ∧
    (∀ c : Section, AllOrNothing (FileSections.insertInPlace c) m (m.insert c)) ∧
    (∀ x : Setting, AllOrNothing (FileSections.putInPlace x) m (m.put x)) ∧
    (∀ n : String,
      AllOrNothing (FileSections.tryEnsureInPlace n) m ((m.tryEnsure n).map ((), ·))) ∧
    (∀ (e : SettingsEdit) (s : Settings), AllOrNothing e.inPlace s (e.answer s)) ∧
    (∀ (e : SettingsEdit) (s : Session),
      AllOrNothing (Session.editInPlace e.inPlace) s (s.edit e.answer)) ∧
    ∀ (s : Settings) (f : SettingsFile) (n k : String) (v : Value) (e : StoreError),
      s.trySet f n k v = .error e ↔
        checkName n = .error e ∨ checkName n = .ok () ∧ checkEntry k v = .error e :=
  ⟨Section.allOrNothing_put, Section.allOrNothing_trySet, FileSections.allOrNothing_insert m,
    FileSections.allOrNothing_put (wellStored_of_reachable hm),
    FileSections.allOrNothing_tryEnsure m, SettingsEdit.allOrNothing,
    fun e s => Session.allOrNothing_edit (e.allOrNothing s.settings),
    fun _ _ _ _ _ _ => Settings.trySet_eq_error⟩

/-- A file with one setting, offered a setting of a game. -/
theorem refused_foreign_setting :
    let op : FileSections.Operation := .work "Core" (.set "use_cpu_jit" (.int 1))
    let m := (op.run (.new .config)).2
    let x : Setting := ⟨"use_vsync", "Renderer", .game "demo", .int 1⟩
    (∃ e t, FileSections.putInPlace x m = .error e t ∧ t = m) ∧
      ∃ e, m.put x = .error e := by
  intro op m x
  have hm : Reachable (.file m) := .onFile (.newFile .config) op nofun
  obtain ⟨-, -, -, hput, -⟩ := refused_without_trace hm
  have hrefused : FileSections.putInPlace x m =
      .error (.fileMismatch "use_vsync" "demo.ini" "config.ini") m := rfl
  obtain ⟨ht, he⟩ := (hput x).refused _ _ hrefused
  exact ⟨⟨_, _, hrefused, ht⟩, _, he⟩

end EmulatorSettings
