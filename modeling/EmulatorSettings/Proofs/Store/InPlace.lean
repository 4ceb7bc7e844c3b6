import EmulatorSettings.Proofs.Store.Operations

/-!
# Store — changes made in place

The operations that may be refused, as work on a state that is changed where it lies, one step after
the other.  What was done before such work is refused stays done, so a refusal leaves no trace only
if nothing was touched before it.

* `AllOrNothing`: work that does what a function answers, and leaves the state alone if refused.
* `Section.allOrNothing_put`, `FileSections.allOrNothing_put`, …: the operations of the store are
  such work.
-/

namespace EmulatorSettings

variable {ε σ α β : Type}

/-- The `work` on the state `s` does what `answer` says; where that is a refusal, `s` stays as it
was. -/
structure AllOrNothing (work : EStateM ε σ α) (s : σ) (answer : Except ε (α × σ)) : Prop where
  refused : ∀ e t, work s = .error e t → t = s ∧ answer = .error e
  done : ∀ a t, work s = .ok a t → answer = .ok (a, t)

namespace AllOrNothing

variable {s t : σ} {answer : Except ε (α × σ)}

theorem of_error {work : EStateM ε σ α} {e : ε} (hwork : work s = .error e s)
    (hanswer : answer = .error e) : AllOrNothing work s answer := by
  constructor
  · intro e' t h
    obtain ⟨rfl, rfl⟩ := EStateM.Result.error.inj (hwork.symm.trans h)
    exact ⟨rfl, hanswer⟩
  · intro a t h
    cases hwork.symm.trans h

theorem of_ok {work : EStateM ε σ α} {a : α} (hwork : work s = .ok a t)
    (hanswer : answer = .ok (a, t)) : AllOrNothing work s answer := by
  constructor
  · intro e t' h
    cases hwork.symm.trans h
  · intro a' t' h
    obtain ⟨rfl, rfl⟩ := EStateM.Result.ok.inj (hwork.symm.trans h)
    exact hanswer

/-- Where `answer` is no refusal, `work` ends as it says. -/
theorem eq_ok {work : EStateM ε σ α} {a : α} (h : AllOrNothing work s answer)
    (hanswer : answer = .ok (a, t)) : work s = .ok a t := by
  cases hwork : work s with
  | error e u => cases (h.refused e u hwork).2.symm.trans hanswer
  | ok b u =>
      obtain ⟨rfl, rfl⟩ := Prod.mk.inj (Except.ok.inj ((h.done b u hwork).symm.trans hanswer))
      rfl

/-- A change `f` that cannot be refused. -/
theorem change (f : σ → α × σ) (s : σ) : AllOrNothing (modifyGet f : EStateM ε σ α) s (.ok (f s)) :=
  of_ok rfl rfl

/-- Work that looks at the state first. -/
theorem look {work : σ → EStateM ε σ α} (h : AllOrNothing (work s) s answer) :
    AllOrNothing (do let s ← get; work s) s answer :=
  ⟨h.refused, h.done⟩

/-- A condition `c` under which the work is refused, before anything is touched. -/
theorem guarded {c : Prop} [Decidable c] {e : ε} {work : EStateM ε σ α}
    (h : ¬ c → AllOrNothing work s answer) :
    AllOrNothing (if c then throw e else work) s (if c then .error e else answer) := by
  split
  · exact of_error rfl rfl
  · next hc => exact h hc

/-- A `check` that the work is refused by, before anything is touched. -/
theorem check {check : Except ε β} {work : β → EStateM ε σ α}
    (hrefused : ∀ e, check = .error e → answer = .error e)
    (hwork : ∀ b, check = .ok b → AllOrNothing (work b) s answer) :
    AllOrNothing (do let b ← MonadExcept.ofExcept check; work b) s answer := by
  cases check with
  | error e => exact of_error rfl (hrefused e rfl)
  | ok b => exact ⟨(hwork b rfl).refused, (hwork b rfl).done⟩

/-- A `check` before a change `f`. -/
theorem check_change (check : Except ε β) (f : σ → α × σ) (s : σ) :
    AllOrNothing (do let _ ← MonadExcept.ofExcept check; modifyGet f) s
      (check.map fun _ => f s) := by
  refine .check (fun e he => ?_) fun b hb => ?_
  · rw [he]; rfl
  · rw [hb]; exact .change f s

end AllOrNothing

/-! ### Sections -/

namespace Section

/-- Takes the setting `x` if it belongs here, and gives the one it replaces. -/
def putInPlace (x : Setting) : EStateM StoreError Section (Option Setting) := do
  let s ← get
  if x.sectionName ≠ s.name then throw (.sectionMismatch x.key x.sectionName s.name)
  else if x.file ≠ s.file then throw (.fileMismatch x.key x.file.fileName s.file.fileName)
  else modifyGet fun s => (s.get? x.key, { s with settings := s.settings.insert x.key x })

/-- Gives the key `k` the value `v`, if `checkEntry` passes. -/
def trySetInPlace (k : String) (v : Value) : EStateM StoreError Section Bool := do
  MonadExcept.ofExcept (checkEntry k v)
  modifyGet fun s => s.set k v

theorem allOrNothing_put (s : Section) (x : Setting) : AllOrNothing (putInPlace x) s (s.put x) :=
  .look (.guarded fun _ => .guarded fun _ => .change _ s)

theorem allOrNothing_trySet (s : Section) (k : String) (v : Value) :
    AllOrNothing (trySetInPlace k v) s (s.trySet k v) :=
  .check_change (checkEntry k v) (Section.set · k v) s

end Section

/-! ### The sections of a file -/

namespace FileSections

/-- Does `work` on the section `n`, created empty if there is none yet.  What was done to it stays,
also if the work is refused. -/
def workOn (n : String) (work : EStateM ε Section α) : EStateM ε FileSections α := fun m =>
  match work (m.sectionOrNew n) with
  | .ok a s    => .ok a { m with sections := m.sections.insert n s }
  | .error e s => .error e { m with sections := m.sections.insert n s }

/-- Takes the whole section `s` of this file, and gives the one it replaces. -/
def insertInPlace (s : Section) : EStateM StoreError FileSections (Option Section) := do
  let m ← get
  if s.file ≠ m.file then throw (.fileMismatch s.name s.file.fileName m.file.fileName)
  else modifyGet fun m => (m.section? s.name, m.store s)

/-- Takes the setting `x` of this file into the section it belongs to, and gives the one it
replaces. -/
def putInPlace (x : Setting) : EStateM StoreError FileSections (Option Setting) := do
  let m ← get
  if x.file ≠ m.file then throw (.fileMismatch x.key x.file.fileName m.file.fileName)
  else workOn x.sectionName (Section.putInPlace x)

/-- Creates the section `n`, if `checkName` passes. -/
def tryEnsureInPlace (n : String) : EStateM StoreError FileSections Unit := do
  MonadExcept.ofExcept (checkName n)
  modifyGet fun m => ((), m.ensure n)

theorem allOrNothing_insert (m : FileSections) (s : Section) :
    AllOrNothing (insertInPlace s) m (m.insert s) :=
  .look (.guarded fun _ => .change _ m)

theorem allOrNothing_tryEnsure (m : FileSections) (n : String) :
    AllOrNothing (tryEnsureInPlace n) m ((m.tryEnsure n).map ((), ·)) := by
  rw [tryEnsure, show ∀ c : Except StoreError Unit, (c.map fun () => m.ensure n).map ((), ·) =
    c.map fun _ => ((), m.ensure n) from fun c => by cases c <;> rfl]
  exact .check_change (checkName n) (fun m => ((), m.ensure n)) m

/-- Taking a setting creates its section before `Section.putInPlace` is asked.  It leaves no trace
because a section that stands under its own name does not refuse. -/
theorem allOrNothing_put {m : FileSections} (hm : m.WellStored) (x : Setting) :
    AllOrNothing (putInPlace x) m (m.put x) := by
  refine .look (.guarded fun hfile => ?_)
  have hx : x.file = m.file := Decidable.not_not.1 hfile
  obtain ⟨hn, hf, -⟩ := sectionOrNew_spec hm x.sectionName
  have hput := Section.put_eq_ok_iff.2 ⟨⟨hn.symm, hx.trans hf.symm⟩, rfl⟩
  have hwork := (Section.allOrNothing_put (m.sectionOrNew x.sectionName) x).eq_ok hput
  refine .of_ok (a := (m.sectionOrNew x.sectionName).get? x.key) ?_ (by rw [hput]; rfl)
  rw [workOn, hwork]

end FileSections

/-! ### The settings of all files -/

namespace Settings

/-- Does `work` on the sections of the file `f`, created empty if there are none yet.  What was done
to them stays, also if the work is refused. -/
def workOn (f : SettingsFile) (work : EStateM ε FileSections α) : EStateM ε Settings α := fun s =>
  match work (s.fileOrNew f) with
  | .ok a m    => .ok a ⟨s.files.insert f m⟩
  | .error e m => .error e ⟨s.files.insert f m⟩

/-- Takes the setting `x` into the file and section it belongs to, and gives the one it replaces. -/
def putInPlace (x : Setting) : EStateM StoreError Settings (Option Setting) :=
  workOn x.file (FileSections.putInPlace x)

/-- Gives the key `k` of the section `n` the value `v`, if `checkName` and `checkEntry` pass. -/
def trySetInPlace (f : SettingsFile) (n k : String) (v : Value) :
    EStateM StoreError Settings Bool := do
  MonadExcept.ofExcept (checkName n)
  MonadExcept.ofExcept (checkEntry k v)
  workOn f (FileSections.workOn n (modifyGet fun t => t.set k v))

theorem allOrNothing_trySet (s : Settings) (f : SettingsFile) (n k : String) (v : Value) :
    AllOrNothing (trySetInPlace f n k v) s (s.trySet f n k v) := by
  refine .check (fun e he => ?_) fun _ hn => .check (fun e he => ?_) fun _ hk => ?_
  · rw [trySet, he]; rfl
  · rw [trySet, hn, he]; rfl
  · rw [trySet, hn, hk]
    exact .of_ok rfl rfl

/-- In `WellStored` settings a setting is taken, and not refused halfway. -/
theorem allOrNothing_put {s : Settings} (hs : s.WellStored) (x : Setting) :
    AllOrNothing (putInPlace x) s (s.put x) := by
  obtain ⟨hf, hm⟩ := fileOrNew_spec hs x.file
  obtain ⟨m, hput, -⟩ := FileSections.exists_put hm (x := x) hf.symm
  have hwork := (FileSections.allOrNothing_put hm x).eq_ok hput
  refine .of_ok (t := ⟨s.files.insert x.file m⟩) ?_ (by rw [put, hput]; rfl)
  rw [putInPlace, workOn, hwork]

/-- What `checkName` says of the section name is answered, and else what `checkEntry` says. -/
theorem trySet_eq_error {s : Settings} {f : SettingsFile} {n k : String} {v : Value}
    {e : StoreError} : s.trySet f n k v = .error e ↔
      checkName n = .error e ∨ checkName n = .ok () ∧ checkEntry k v = .error e := by
  unfold trySet
  cases checkName n with
  | error e' => simp [bind, Except.bind]
  | ok u => cases checkEntry k v <;> simp [bind, Except.bind, pure, Except.pure]

end Settings

end EmulatorSettings
