import EmulatorSettings.Proofs.Store.WellStored

/-!
# Store — operations

The operations of the store as data, on a section, on the sections of a file and on the settings of
all files.  Work on a part first creates the part, whether or not the work is then refused.

* `Section.Operation.keeps`, `FileSections.Operation.keeps`: an operation keeps a section or a file
  well stored, and its name and file as they are.
* `Settings.Operation.wellStored_run`: so it does with the settings of all files.
* `Settings.exists_put`: where settings are well stored a setting is never refused.
-/

namespace EmulatorSettings

/-- What an operation answers.  One that replaces or removes settings gives them back. -/
inductive Answer where
  | done
  | absent
  | changed (b : Bool)
  | gave (xs : List Setting)
  | refused (e : StoreError)
  deriving DecidableEq

/-- The answer and what is left after an attempt, which leaves `state` as it was if it is refused.
-/
def Answer.ofAttempt {σ β : Type} (state : σ) (answer : β → Answer) :
    Except StoreError (β × σ) → Answer × σ
  | .ok (b, state) => (answer b, state)
  | .error e       => (.refused e, state)

/-! ### Sections -/

namespace Section

/-- An operation on a section. -/
inductive Operation where
  | put (x : Setting)
  | set (k : String) (v : Value)
  | trySet (k : String) (v : Value)
  | update (k : String) (v : Value)
  | remove (k : String)
  deriving DecidableEq

/-- The answer of an operation, and what becomes of the section `s`. -/
def Operation.run (s : Section) : Operation → Answer × Section
  | put x      => Answer.ofAttempt s (fun replaced => .gave replaced.toList) (s.put x)
  | set k v    => (.changed (s.set k v).1, (s.set k v).2)
  | trySet k v => Answer.ofAttempt s .changed (s.trySet k v)
  | update k v => ((s.update k v).1.elim .absent .changed, (s.update k v).2)
  | remove k   => (.gave (s.remove k).1.toList, (s.remove k).2)

/-- The section `t` has the name and the file of `s`, and is `WellStored`. -/
structure Keeps (s t : Section) : Prop where
  name_eq : t.name = s.name
  file_eq : t.file = s.file
  wellStored : t.WellStored

variable {s : Section}

theorem keeps_refl (h : s.WellStored) : s.Keeps s :=
  ⟨rfl, rfl, h⟩

theorem keeps_set (h : s.WellStored) (k : String) (v : Value) : s.Keeps (s.set k v).2 :=
  ⟨s.name_set k v, s.file_set k v, wellStored_set h k v⟩

/-- By `update`, changing the value under a key that is there is setting it. -/
theorem update_eq (s : Section) (k : String) (v : Value) :
    s.update k v =
      if s.get? k = none then (none, s) else (some (s.set k v).1, (s.set k v).2) := by
  unfold update set
  cases s.get? k <;> rfl

/-- **What the operation `op` keeps** of a section. -/
theorem Operation.keeps (h : s.WellStored) (op : Operation) : s.Keeps (op.run s).2 := by
  cases op with
  | put x =>
      rw [run]
      cases hput : s.put x with
      | error e => exact keeps_refl h
      | ok r =>
          obtain ⟨⟨hn, hf⟩, rfl⟩ := put_eq_ok_iff.1 hput
          exact ⟨rfl, rfl, wellStored_insert h hn hf⟩
  | set k v => exact keeps_set h k v
  | trySet k v =>
      rw [run, Section.trySet]
      cases checkEntry k v with
      | error e => exact keeps_refl h
      | ok u => exact keeps_set h k v
  | update k v =>
      rw [run, update_eq]
      split
      · exact keeps_refl h
      · exact keeps_set h k v
  | remove k => exact ⟨rfl, rfl, wellStored_remove h k⟩

end Section

/-! ### The sections of a file -/

namespace FileSections

/-- An operation on the sections of a file. -/
inductive Operation where
  | ensure (n : String)
  | tryEnsure (n : String)
  | work (n : String) (op : Section.Operation)
  | insert (s : Section)
  | put (x : Setting)
  deriving DecidableEq

/-- All settings of `m`, in the order of sections and keys. -/
def allSettings (m : FileSections) : List Setting :=
  m.sections.values.flatMap fun s => s.settings.values

namespace Operation

/-- The answer of an operation, and what becomes of the sections `m`. -/
def run (m : FileSections) : Operation → Answer × FileSections
  | ensure n    => (.done, m.ensure n)
  | tryEnsure n => Answer.ofAttempt m (fun () => .done) ((m.tryEnsure n).map ((), ·))
  | work n op   => m.modify n fun s => op.run s
  | insert s    =>
    Answer.ofAttempt m (fun replaced => .gave (replaced.elim [] (·.settings.values))) (m.insert s)
  | put x       => Answer.ofAttempt m (fun replaced => .gave replaced.toList) (m.put x)

/-- The section that an operation brings in. -/
def section? : Operation → Option Section
  | insert s => some s
  | _        => none

end Operation

/-- The sections `m'` are of the same file as `m`, and `WellStored`. -/
structure Keeps (m m' : FileSections) : Prop where
  file_eq : m'.file = m.file
  wellStored : m'.WellStored

variable {m : FileSections}

theorem keeps_refl (h : m.WellStored) : m.Keeps m :=
  ⟨rfl, h⟩

theorem keeps_modify {α : Type} (h : m.WellStored) (n : String) {work : Section → α × Section}
    (hwork : ∀ s : Section, s.WellStored → s.Keeps (work s).2) : m.Keeps (m.modify n work).2 :=
  ⟨rfl, wellStored_modify h fun s hs =>
    ⟨(hwork s hs).name_eq, (hwork s hs).file_eq, (hwork s hs).wellStored⟩⟩

theorem keeps_ensure (h : m.WellStored) (n : String) : m.Keeps (m.ensure n) :=
  keeps_modify h n fun _ hs => Section.keeps_refl hs

/-- **What the operation `op` keeps** of the sections of a file, if what it brings in is
`WellStored`. -/
theorem Operation.keeps (h : m.WellStored) (op : Operation)
    (hop : ∀ s ∈ op.section?, s.WellStored) : m.Keeps (op.run m).2 := by
  cases op with
  | ensure n => exact keeps_ensure h n
  | tryEnsure n =>
      rw [run, FileSections.tryEnsure]
      cases checkName n with
      | error e => exact keeps_refl h
      | ok u => exact keeps_ensure h n
  | work n op => exact keeps_modify h n fun s hs => op.keeps hs
  | insert s =>
      rw [run, FileSections.insert]
      split
      · exact keeps_refl h
      · next hfile =>
        exact ⟨rfl, wellStored_insert h ⟨rfl, Decidable.not_not.1 hfile, hop s rfl⟩⟩
  | put x =>
      rw [run]
      by_cases hx : x.file = m.file
      · obtain ⟨m', hput, hf, hm', -⟩ := exists_put h hx
        rw [hput]
        exact ⟨hf, hm'⟩
      · rw [FileSections.put, if_pos hx]
        exact keeps_refl h

end FileSections

/-! ### The settings of all files -/

namespace Settings

/-- An operation on the settings of all files. -/
inductive Operation where
  | clear
  | insertFile (m : FileSections)
  | ensureFile (f : SettingsFile)
  | trySet (f : SettingsFile) (n k : String) (v : Value)
  | put (x : Setting)
  | work (f : SettingsFile) (op : FileSections.Operation)
  deriving DecidableEq

namespace Operation

/-- The answer of an operation, and what becomes of the settings `s`. -/
def run (s : Settings) : Operation → Answer × Settings
  | clear          => (.done, .empty)
  | insertFile m   =>
    (.gave ((s.insertFile m).1.elim [] FileSections.allSettings), (s.insertFile m).2)
  | ensureFile f   => (.done, s.ensureFile f)
  | trySet f n k v => Answer.ofAttempt s .changed (s.trySet f n k v)
  | put x          => Answer.ofAttempt s (fun replaced => .gave replaced.toList) (s.put x)
  | work f op      => s.modifyFile f fun m => op.run m

/-- The sections of a file that an operation brings in. -/
def file? : Operation → Option FileSections
  | insertFile m => some m
  | _            => none

/-- The section that an operation brings in. -/
def section? : Operation → Option Section
  | work _ op => op.section?
  | _         => none

/-- The answers of several operations by `run`, and the settings after them. -/
def runAll (s : Settings) : List Operation → List Answer × Settings
  | []        => ([], s)
  | op :: ops =>
    let (answer, s) := op.run s
    let (answers, s) := runAll s ops
    (answer :: answers, s)

end Operation

/-- The sections of every file stand under their own file and are `WellStored`. -/
def WellStored (s : Settings) : Prop :=
  ∀ f m, s.file? f = some m → m.file = f ∧ m.WellStored

theorem wellStored_empty : empty.WellStored :=
  fun _ _ h => by cases h

variable {s : Settings}

theorem fileOrNew_spec (h : s.WellStored) (f : SettingsFile) :
    (s.fileOrNew f).file = f ∧ (s.fileOrNew f).WellStored := by
  unfold fileOrNew
  cases hm : s.file? f with
  | none => exact ⟨rfl, FileSections.wellStored_new f⟩
  | some m => exact h f m hm

theorem wellStored_insert (h : s.WellStored) {f : SettingsFile} {m : FileSections}
    (hm : m.file = f ∧ m.WellStored) : WellStored ⟨s.files.insert f m⟩ := by
  intro f' m' hm'
  rw [file?, Table.get?_insert] at hm'
  split at hm'
  · next hf => exact Option.some.inj hm' ▸ hf ▸ hm
  · exact h f' m' hm'

theorem wellStored_modifyFile {α : Type} (h : s.WellStored) (f : SettingsFile)
    {work : FileSections → α × FileSections}
    (hwork : ∀ m : FileSections, m.WellStored → m.Keeps (work m).2) :
    (s.modifyFile f work).2.WellStored := by
  obtain ⟨hf, hm⟩ := fileOrNew_spec h f
  have hkeeps := hwork _ hm
  exact wellStored_insert h ⟨hkeeps.file_eq.trans hf, hkeeps.wellStored⟩

theorem wellStored_set (h : s.WellStored) (f : SettingsFile) (n k : String) (v : Value) :
    (s.set f n k v).2.WellStored :=
  wellStored_modifyFile h f fun _ hm => FileSections.keeps_modify hm n fun _ ht =>
    Section.keeps_set ht k v

theorem get?_fileOrNew (s : Settings) (f : SettingsFile) (n k : String) :
    (s.fileOrNew f).get? n k = s.get? f n k := by
  unfold fileOrNew get? section?
  cases s.file? f <;> rfl

/-- **A `put` is never refused**: the setting `x` goes into its file, under its section and key. -/
theorem exists_put (h : s.WellStored) (x : Setting) :
    ∃ m, s.put x = .ok (s.get? x.file x.sectionName x.key, ⟨s.files.insert x.file m⟩) ∧
      m.file = x.file ∧ m.WellStored ∧ ∀ n k,
        m.get? n k = if n = x.sectionName ∧ k = x.key then some x else s.get? x.file n k := by
  obtain ⟨hf, hm⟩ := fileOrNew_spec h x.file
  obtain ⟨m, hput, hfile, hm', hget⟩ := FileSections.exists_put hm (x := x) hf.symm
  simp only [get?_fileOrNew] at hput hget
  refine ⟨m, ?_, hfile.trans hf, hm', hget⟩
  rw [put, hput]
  rfl

/-- **An operation `op` keeps settings `WellStored`**, if what it brings in is. -/
theorem Operation.wellStored_run (h : s.WellStored) (op : Operation)
    (hfile : ∀ m ∈ op.file?, m.WellStored) (hsection : ∀ t ∈ op.section?, t.WellStored) :
    (op.run s).2.WellStored := by
  cases op with
  | clear => exact wellStored_empty
  | insertFile m => exact wellStored_insert h ⟨rfl, hfile m rfl⟩
  | ensureFile f =>
      change (s.modifyFile f fun m => ((), m)).2.WellStored
      exact wellStored_modifyFile h f fun _ hm => FileSections.keeps_refl hm
  | trySet f n k v =>
      rw [run]
      cases htry : s.trySet f n k v with
      | error e => exact h
      | ok r =>
          obtain ⟨-, -, rfl⟩ := (trySet_eq_ok f).1 htry
          exact wellStored_set h f n k v
  | put x =>
      obtain ⟨m, hput, hf, hm, -⟩ := exists_put h x
      rw [run, hput]
      exact wellStored_insert h ⟨hf, hm⟩
  | work f op => exact wellStored_modifyFile h f fun _ hm => op.keeps hm hsection

end Settings

end EmulatorSettings
