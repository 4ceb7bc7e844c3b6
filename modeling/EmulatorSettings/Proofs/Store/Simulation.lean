import EmulatorSettings.Proofs.Store.Flat

/-!
# Store — the operations on the flat map

Every operation of the store has a counterpart on the flat map that knows nothing of sections and
files: the last write to an address wins, a section or a file that is brought in takes the place of
everything at its addresses.

* `Flat.run`: the counterparts.
* `sectionStep_run`, `fileStep_run`, `flat_run`: an operation on a section, on a file and on all
  files answers what its counterpart answers, and leaves behind what that leaves behind.
* `flat_runAll`: so do several of them, one after the other.
-/

namespace EmulatorSettings

/-! ### Operations on the flat map -/

namespace Flat

/-- The setting at the address `a` with the value `v`. -/
def setting (a : Address) (v : Value) : Setting :=
  ⟨a.key, a.sectionName, a.file, v⟩

/-- All settings of the flat map, in the order of their addresses. -/
def settings (t : Flat) : List Setting :=
  t.entries.map fun e => setting e.1 e.2

/-- The setting at the address `a`, if there is one. -/
def setting? (t : Flat) (a : Address) : Option Setting :=
  (t.get? a).map (setting a)

/-- A setting that stands where it belongs is the `setting?` of the flat map. -/
theorem setting?_eq {t : Flat} {a : Address} {x? : Option Setting}
    (h : t.get? a = x?.map (·.value))
    (hx : ∀ x, x? = some x → x.key = a.key ∧ x.sectionName = a.sectionName ∧ x.file = a.file) :
    t.setting? a = x? := by
  rw [setting?, h]
  cases x? with
  | none => rfl
  | some x =>
      obtain ⟨hk, hn, hf⟩ := hx x rfl
      rw [Option.map_some, Option.map_some, setting, ← hk, ← hn, ← hf]

/-- Puts the value `v` at the address `a`, and gives what was there. -/
def put (t : Flat) (a : Address) (v : Value) : Answer × Flat :=
  (.gave (t.setting? a).toList, t.insert a v)

/-- Puts the value `v` at the address `a`, and tells whether another one was there, or none. -/
def set (t : Flat) (a : Address) (v : Value) : Answer × Flat :=
  (.changed (!(t.get? a).any (·.equals v)), t.insert a v)

/-- Takes away what is at the address `a`. -/
def remove (t : Flat) (a : Address) : Answer × Flat :=
  (.gave (t.setting? a).toList, t.erase a)

/-- Puts the values `new` in the place of everything at the addresses that satisfy `p`. -/
def replace (t : Flat) (p : Address → Bool) (new : Flat) : Answer × Flat :=
  (.gave (settings (t.restrict p)), new.onTopOf (t.restrict fun a => !p a))

/-- What stood at the addresses is given back by `replace`. -/
theorem fst_replace {t old : Flat} {p : Address → Bool}
    (hold : ∀ a, old.get? a = if p a then t.get? a else none) (new : Flat) :
    (t.replace p new).1 = .gave (settings old) := by
  have hpart : t.restrict p = old := Table.ext_get? fun a => by rw [Table.get?_restrict, hold]
  rw [replace, hpart]

/-- After `replace` the `new` values stand at the addresses of `p`, and what stood elsewhere stays.
-/
theorem get?_replace (t : Flat) (p : Address → Bool) {new : Flat}
    (hnew : ∀ a, ¬ p a = true → new.get? a = none) (a : Address) :
    (t.replace p new).2.get? a = if p a then new.get? a else t.get? a := by
  rw [replace, Table.get?_onTopOf, Table.get?_restrict]
  by_cases ha : p a = true
  · simp [ha]
  · simp [ha, hnew a ha]

/-- Goes on with `go` if the `check` is passed. -/
def checked (t : Flat) (check : Except StoreError Unit) (go : Answer × Flat) : Answer × Flat :=
  match check with
  | .ok ()   => go
  | .error e => (.refused e, t)

/-- The counterpart of `Section.Operation.run`, for the section `n` of the file `f`. -/
def runSection (f : SettingsFile) (n : String) (t : Flat) : Section.Operation → Answer × Flat
  | .put x      =>
    if x.sectionName ≠ n then (.refused (.sectionMismatch x.key x.sectionName n), t)
    else if x.file ≠ f then (.refused (.fileMismatch x.key x.file.fileName f.fileName), t)
    else t.put ⟨f, n, x.key⟩ x.value
  | .set k v    => t.set ⟨f, n, k⟩ v
  | .trySet k v => t.checked (checkEntry k v) (t.set ⟨f, n, k⟩ v)
  | .update k v => if t.get? ⟨f, n, k⟩ = none then (.absent, t) else t.set ⟨f, n, k⟩ v
  | .remove k   => t.remove ⟨f, n, k⟩

/-- The counterpart of `FileSections.Operation.run`, for the file `f`. -/
def runFile (f : SettingsFile) (t : Flat) : FileSections.Operation → Answer × Flat
  | .ensure _    => (.done, t)
  | .tryEnsure n => t.checked (checkName n) (.done, t)
  | .work n op   => t.runSection f n op
  | .insert s    =>
    if s.file ≠ f then (.refused (.fileMismatch s.name s.file.fileName f.fileName), t)
    else t.replace (fun a => a.file = f ∧ a.sectionName = s.name) (s.flat f s.name)
  | .put x       =>
    if x.file ≠ f then (.refused (.fileMismatch x.key x.file.fileName f.fileName), t)
    else t.put ⟨f, x.sectionName, x.key⟩ x.value

/-- The counterpart of `Settings.Operation.run`. -/
def run (t : Flat) : Settings.Operation → Answer × Flat
  | .clear          => (.done, .empty)
  | .insertFile m   => t.replace (fun a => a.file = m.file) (m.flat m.file)
  | .ensureFile _   => (.done, t)
  | .trySet f n k v =>
    t.checked (checkName n) (t.checked (checkEntry k v) (t.set ⟨f, n, k⟩ v))
  | .put x          => t.put ⟨x.file, x.sectionName, x.key⟩ x.value
  | .work f op      => t.runFile f op

/-- The answers of several operations by `run`, and the map after them. -/
def runAll (t : Flat) : List Settings.Operation → List Answer × Flat
  | []        => ([], t)
  | op :: ops =>
    let (answer, t) := t.run op
    let (answers, t) := runAll t ops
    (answer :: answers, t)

end Flat

/-! ### One section -/

/-- What an operation on a section did, `r`, and its counterpart on the flat map `t`, `q`: they
answer the same, the map holds at the addresses under `f` and `n` what the section holds, and the
same as before at all others. -/
structure SectionStep (t : Flat) (f : SettingsFile) (n : String) (r : Answer × Section)
    (q : Answer × Flat) : Prop where
  answer_eq : q.1 = r.1
  get?_at : ∀ k, q.2.get? ⟨f, n, k⟩ = (r.2.get? k).map (·.value)
  get?_elsewhere : ∀ a, ¬ (a.file = f ∧ a.sectionName = n) → q.2.get? a = t.get? a

section SectionStep

variable {t : Flat} {f : SettingsFile} {n : String} {s : Section}

/-- An operation that leaves the section as it was. -/
theorem SectionStep.stay (h : ∀ k, t.get? ⟨f, n, k⟩ = (s.get? k).map (·.value)) (answer : Answer) :
    SectionStep t f n (answer, s) (answer, t) :=
  ⟨rfl, h, fun _ _ => rfl⟩

/-- An operation that changes what stands under the key `k`. -/
theorem SectionStep.of_key {s' : Section} {t' : Flat} {k : String} {x : Option Setting}
    (h : ∀ k, t.get? ⟨f, n, k⟩ = (s.get? k).map (·.value))
    (hs : ∀ k', s'.get? k' = if k' = k then x else s.get? k')
    (ht : ∀ a, t'.get? a = if a = ⟨f, n, k⟩ then x.map (·.value) else t.get? a)
    {answer answer' : Answer} (hanswer : answer' = answer) :
    SectionStep t f n (answer, s') (answer', t') := by
  refine ⟨hanswer, fun k' => ?_, fun a ha => ?_⟩
  · rw [ht, hs, h]
    by_cases hk : k' = k
    · simp [hk]
    · simp [hk]
  · rw [ht, if_neg]
    rintro rfl
    exact ha ⟨rfl, rfl⟩

theorem SectionStep.set (hs : s.WellStored)
    (h : ∀ k, t.get? ⟨f, n, k⟩ = (s.get? k).map (·.value)) (k : String) (v : Value) :
    SectionStep t f n (.changed (s.set k v).1, (s.set k v).2) (t.set ⟨f, n, k⟩ v) := by
  refine .of_key h (Section.get?_set_of_wellStored hs k · v) (Table.get?_insert t _ · v) ?_
  rw [h, Section.set]
  cases s.get? k <;> rfl

theorem setting?_section (hs : s.WellStored) (hn : s.name = n) (hf : s.file = f)
    (h : ∀ k, t.get? ⟨f, n, k⟩ = (s.get? k).map (·.value)) (k : String) :
    t.setting? ⟨f, n, k⟩ = s.get? k :=
  Flat.setting?_eq (h k) fun x hx => hn ▸ hf ▸ hs k x hx

/-- **An operation on a section** and `runSection` do the same. -/
theorem sectionStep_run (hs : s.WellStored) (hn : s.name = n) (hf : s.file = f)
    (h : ∀ k, t.get? ⟨f, n, k⟩ = (s.get? k).map (·.value)) (op : Section.Operation) :
    SectionStep t f n (op.run s) (t.runSection f n op) := by
  cases op with
  | put x =>
      subst hn hf
      rw [Section.Operation.run, Flat.runSection, Section.put]
      split
      · exact .stay h _
      · split
        · exact .stay h _
        · have hget : ∀ k', Section.get? { s with settings := s.settings.insert x.key x } k' =
              if k' = x.key then some x else s.get? k' := fun k' => Table.get?_insert _ _ k' x
          refine .of_key h hget (Table.get?_insert t _ · x.value) ?_
          rw [setting?_section hs rfl rfl h]
  | set k v => exact .set hs h k v
  | trySet k v =>
      rw [Section.Operation.run, Flat.runSection, Section.trySet]
      cases checkEntry k v with
      | error e => exact .stay h _
      | ok u => exact .set hs h k v
  | update k v =>
      rw [Section.Operation.run, Flat.runSection, Section.update_eq]
      by_cases hk : s.get? k = none
      · rw [if_pos hk, if_pos ((h k).trans (by rw [hk]; rfl))]
        exact .stay h _
      · have ht : t.get? ⟨f, n, k⟩ ≠ none := by
          rw [h k]
          exact fun hnone => hk (Option.map_eq_none_iff.1 hnone)
        rw [if_neg hk, if_neg ht]
        exact .set hs h k v
  | remove k =>
      refine .of_key (x := none) h (Section.get?_remove s k) (Table.get?_erase t _) ?_
      rw [setting?_section hs hn hf h]
      rfl

end SectionStep

/-! ### One file -/

/-- What an operation on the sections of a file did, `r`, and its counterpart on the flat map `t`,
`q`: they answer the same, the map holds at the addresses under `f` what the sections hold, and the
same as before at all others. -/
structure FileStep (t : Flat) (f : SettingsFile) (r : Answer × FileSections)
    (q : Answer × Flat) : Prop where
  answer_eq : q.1 = r.1
  get?_at : ∀ n k, q.2.get? ⟨f, n, k⟩ = (r.2.get? n k).map (·.value)
  get?_elsewhere : ∀ a : Address, a.file ≠ f → q.2.get? a = t.get? a

section FileStep

variable {t : Flat} {f : SettingsFile} {m : FileSections}

/-- An operation that leaves all look-ups in the file as they were. -/
theorem FileStep.stay (h : ∀ n k, t.get? ⟨f, n, k⟩ = (m.get? n k).map (·.value))
    {m' : FileSections} (hm : ∀ n k, m'.get? n k = m.get? n k) (answer : Answer) :
    FileStep t f (answer, m') (answer, t) :=
  ⟨rfl, fun n k => by rw [h, hm], fun _ _ => rfl⟩

/-- Making sure by `ensure` that a section is there changes no look-up. -/
theorem FileSections.get?_ensure (m : FileSections) (n n' k : String) :
    (m.ensure n).get? n' k = m.get? n' k := by
  rw [ensure, get?_modify, get?_sectionOrNew]
  split
  · next hn => rw [hn]
  · rfl

/-- Work on one section that does what its counterpart does. -/
theorem FileStep.of_section (h : ∀ n k, t.get? ⟨f, n, k⟩ = (m.get? n k).map (·.value)) {n : String}
    {work : Section → Answer × Section} {q : Answer × Flat}
    (hwork : SectionStep t f n (work (m.sectionOrNew n)) q) : FileStep t f (m.modify n work) q := by
  refine ⟨hwork.answer_eq, fun n' k => ?_, fun a ha => hwork.get?_elsewhere a fun hc => ha hc.1⟩
  rw [FileSections.get?_modify]
  by_cases hn : n' = n
  · rw [if_pos hn, hn]
    exact hwork.get?_at k
  · rw [if_neg hn, hwork.get?_elsewhere _ fun hc => hn hc.2]
    exact h n' k

/-- The settings of a section stand in its `flat` map as they stand in the section. -/
theorem Section.settings_flat {s : Section} (hs : s.WellStored) (hf : s.file = f) {n : String}
    (hn : s.name = n) : Flat.settings (s.flat f n) = s.settings.values := by
  rw [Flat.settings, flat, List.map_map, Table.values]
  refine List.map_congr_left fun e he => ?_
  obtain ⟨hk, hxn, hxf⟩ := hs e.1 e.2 (Table.mem_entries_iff.1 he)
  subst hn hf
  rw [Function.comp_apply, Flat.setting, ← hk, ← hxn, ← hxf]

/-- A whole section takes the place of the one of its name, by `store` as by `replace`. -/
theorem FileStep.store (hm : m.WellStored) (hf : m.file = f)
    (h : ∀ n k, t.get? ⟨f, n, k⟩ = (m.get? n k).map (·.value)) (s : Section) :
    FileStep t f (.gave ((m.section? s.name).elim [] (·.settings.values)), m.store s)
      (t.replace (fun a => a.file = f ∧ a.sectionName = s.name) (s.flat f s.name)) := by
  obtain ⟨hn, hfile, hw⟩ := FileSections.sectionOrNew_spec hm s.name
  have hold : ∀ a, ((m.sectionOrNew s.name).flat f s.name).get? a =
      if decide (a.file = f ∧ a.sectionName = s.name) then t.get? a else none := by
    intro a
    rw [Section.get?_flat, FileSections.get?_sectionOrNew]
    by_cases ha : a.file = f ∧ a.sectionName = s.name
    · obtain ⟨rfl, han⟩ := ha
      rw [if_pos ⟨rfl, han⟩, if_pos (decide_eq_true ⟨rfl, han⟩), ← han, ← h]
    · rw [if_neg ha, if_neg fun hd => ha (of_decide_eq_true hd)]
  have hnew : ∀ a : Address, ¬ decide (a.file = f ∧ a.sectionName = s.name) = true →
      (s.flat f s.name).get? a = none := fun a ha => by
    rw [Section.get?_flat, if_neg fun hc => ha (decide_eq_true hc)]
  have hget := Flat.get?_replace t _ hnew
  refine ⟨?_, fun n k => ?_, fun a ha => ?_⟩
  · rw [Flat.fst_replace hold, Section.settings_flat hw (hfile.trans hf) hn,
      FileSections.sectionOrNew]
    cases m.section? s.name <;> rfl
  · rw [hget, FileSections.store, FileSections.get?_insert, Section.get?_flat]
    by_cases hk : n = s.name
    · simp [hk]
    · simp [hk, h]
  · rw [hget, if_neg fun hd => ha (of_decide_eq_true hd).1]

/-- **An operation on the sections of a file** and `runFile` do the same. -/
theorem fileStep_run (hm : m.WellStored) (hf : m.file = f)
    (h : ∀ n k, t.get? ⟨f, n, k⟩ = (m.get? n k).map (·.value)) (op : FileSections.Operation) :
    FileStep t f (op.run m) (t.runFile f op) := by
  cases op with
  | ensure n => exact .stay h (m.get?_ensure n) _
  | tryEnsure n =>
      rw [FileSections.Operation.run, Flat.runFile, FileSections.tryEnsure]
      cases checkName n with
      | error e => exact .stay h (fun _ _ => rfl) _
      | ok u => exact .stay h (m.get?_ensure n) _
  | work n op =>
      obtain ⟨hn, hfile, hs⟩ := FileSections.sectionOrNew_spec hm n
      have hget : ∀ k, t.get? ⟨f, n, k⟩ = ((m.sectionOrNew n).get? k).map (·.value) := fun k => by
        rw [FileSections.get?_sectionOrNew, h]
      rw [FileSections.Operation.run, Flat.runFile]
      refine .of_section h ?_
      exact sectionStep_run hs hn (hfile.trans hf) hget op
  | insert s =>
      rw [FileSections.Operation.run, Flat.runFile, FileSections.insert, hf]
      split
      · exact .stay h (fun _ _ => rfl) _
      · exact .store hm hf h s
  | put x =>
      rw [FileSections.Operation.run, Flat.runFile]
      by_cases hx : x.file = f
      · obtain ⟨m', hput, -, -, hget⟩ := FileSections.exists_put hm (hx.trans hf.symm)
        subst hx
        rw [hput, if_neg fun hne => hne rfl]
        refine ⟨?_, fun n k => ?_, fun a ha => ?_⟩
        · have hold : t.setting? ⟨x.file, x.sectionName, x.key⟩ = m.get? x.sectionName x.key :=
            Flat.setting?_eq (h _ _) fun y hy => hf ▸ FileSections.identity_of_get? hm hy
          rw [Flat.put, hold]
          rfl
        · refine (Table.get?_insert t _ _ _).trans ?_
          simp only [Answer.ofAttempt, hget, Address.mk.injEq, true_and]
          split
          · rfl
          · exact h n k
        · refine Table.get?_insert_of_ne t _ ?_
          rintro rfl
          exact ha rfl
      · rw [FileSections.put, hf, if_pos hx, if_pos hx]
        exact .stay h (fun _ _ => rfl) _

end FileStep

/-! ### All files -/

section AllFiles

variable {s : Settings}

/-- The sections of the file `f` hold what the `flat` map holds at its addresses. -/
theorem Settings.get?_flat_file (s : Settings) (f : SettingsFile) (n k : String) :
    s.flat.get? ⟨f, n, k⟩ = ((s.fileOrNew f).get? n k).map (·.value) := by
  rw [get?_flat, get?_fileOrNew]

/-- What `get?` finds is what the `flat` map has at the address. -/
theorem Settings.setting?_flat (hs : s.WellStored) (f : SettingsFile) (n k : String) :
    s.flat.setting? ⟨f, n, k⟩ = s.get? f n k := by
  obtain ⟨hf, hm⟩ := fileOrNew_spec hs f
  rw [← get?_fileOrNew]
  exact Flat.setting?_eq (s.get?_flat_file f n k) fun x hx =>
    hf ▸ FileSections.identity_of_get? hm hx

/-- The settings of a file stand in its `flat` map as they stand in `allSettings`. -/
theorem FileSections.settings_flat {m : FileSections} (hm : m.WellStored) {f : SettingsFile}
    (hf : m.file = f) : Flat.settings (m.flat f) = m.allSettings := by
  rw [Flat.settings, flat, List.map_flatMap, allSettings, Table.values, List.flatMap_map]
  refine List.flatMap_congr fun e he => ?_
  obtain ⟨hn, hfile, hs⟩ := hm e.1 e.2 (Table.mem_entries_iff.1 he)
  exact Section.settings_flat hs (hfile.trans hf) hn

/-- Other sections `m` for the file `f` change the `flat` map at the addresses of `f`. -/
theorem Settings.get?_flat_insert (s : Settings) (f : SettingsFile) (m : FileSections)
    (a : Address) : (Settings.mk (s.files.insert f m)).flat.get? a =
      if a.file = f then (m.get? a.sectionName a.key).map (·.value) else s.flat.get? a := by
  rw [get?_flat, get?_flat, get?, section?, file?, Table.get?_insert]
  split
  · rfl
  · rfl

/-- Work on one file that does what its counterpart does. -/
theorem eq_of_fileStep {f : SettingsFile} {work : FileSections → Answer × FileSections}
    {q : Answer × Flat} (hwork : FileStep s.flat f (work (s.fileOrNew f)) q) :
    q = ((s.modifyFile f work).1, (s.modifyFile f work).2.flat) := by
  refine Prod.ext hwork.answer_eq (Table.ext_get? fun a => ?_)
  rw [Settings.modifyFile, Settings.get?_flat_insert]
  split
  · next ha =>
    subst ha
    exact hwork.get?_at _ _
  · next ha => exact hwork.get?_elsewhere a ha

/-- The sections `m` of a whole file take the place of those of the same file. -/
theorem flat_insertFile (hs : s.WellStored) (m : FileSections) :
    s.flat.replace (fun a => a.file = m.file) (m.flat m.file) =
      (.gave ((s.insertFile m).1.elim [] FileSections.allSettings), (s.insertFile m).2.flat) := by
  obtain ⟨hf, hw⟩ := Settings.fileOrNew_spec hs m.file
  have hold : ∀ a, ((s.fileOrNew m.file).flat m.file).get? a =
      if decide (a.file = m.file) then s.flat.get? a else none := by
    intro a
    rw [FileSections.get?_flat]
    by_cases ha : a.file = m.file
    · rw [if_pos ha, if_pos (decide_eq_true ha), ← ha, ← Settings.get?_flat_file]
    · rw [if_neg ha, if_neg fun hd => ha (of_decide_eq_true hd)]
  have hnew : ∀ a : Address, ¬ decide (a.file = m.file) = true →
      (m.flat m.file).get? a = none := fun a ha => by
    rw [FileSections.get?_flat, if_neg fun hc => ha (decide_eq_true hc)]
  refine Prod.ext ?_ (Table.ext_get? fun a => ?_)
  · rw [Flat.fst_replace hold, FileSections.settings_flat hw hf, Settings.insertFile,
      Settings.fileOrNew]
    cases s.file? m.file <;> rfl
  · rw [Flat.get?_replace s.flat _ hnew, Settings.insertFile, Settings.get?_flat_insert,
      FileSections.get?_flat]
    by_cases ha : a.file = m.file
    · simp [ha]
    · simp [ha]

/-- Work on the sections of the file `f`, by `modifyFile` as by `runFile`. -/
theorem flat_work (hs : s.WellStored) (f : SettingsFile) (op : FileSections.Operation) :
    s.flat.runFile f op =
      ((s.modifyFile f fun m => op.run m).1, (s.modifyFile f fun m => op.run m).2.flat) := by
  obtain ⟨hf, hm⟩ := Settings.fileOrNew_spec hs f
  refine eq_of_fileStep ?_
  exact fileStep_run hm hf (s.get?_flat_file f) op

/-- **An operation `op`** on the settings of all files and `Flat.run`: they answer the same, and
leave the same behind. -/
theorem flat_run (hs : s.WellStored) (op : Settings.Operation) :
    s.flat.run op = ((op.run s).1, (op.run s).2.flat) := by
  cases op with
  | clear => rfl
  | insertFile m => exact flat_insertFile hs m
  | ensureFile f =>
      have hstay : FileStep s.flat f (.done, s.fileOrNew f) (.done, s.flat) :=
        .stay (s.get?_flat_file f) (fun _ _ => rfl) _
      change _ = ((s.modifyFile f fun m => (Answer.done, m)).1,
        (s.modifyFile f fun m => (Answer.done, m)).2.flat)
      exact eq_of_fileStep hstay
  | trySet f n k v =>
      rw [Settings.Operation.run, Flat.run, Settings.trySet]
      cases checkName n with
      | error e => rfl
      | ok u =>
          cases checkEntry k v with
          | error e => rfl
          | ok u => exact flat_work hs f (.work n (.set k v))
  | put x =>
      obtain ⟨hf, hm⟩ := Settings.fileOrNew_spec hs x.file
      obtain ⟨m, hput, -, -⟩ := FileSections.exists_put hm hf.symm
      have hwork := flat_work hs x.file (.put x)
      rw [Flat.runFile, if_neg fun hne => hne rfl] at hwork
      rw [Flat.run, hwork, Settings.Operation.run, Settings.put, Settings.modifyFile,
        FileSections.Operation.run, hput]
      rfl
  | work f op => exact flat_work hs f op

/-- **Several operations `ops`.** On the nested maps and on the flat one they answer the same, and
leave the same behind. -/
theorem flat_runAll (hs : s.WellStored) (ops : List Settings.Operation)
    (hfile : ∀ op ∈ ops, ∀ m ∈ op.file?, m.WellStored)
    (hsection : ∀ op ∈ ops, ∀ t ∈ op.section?, t.WellStored) :
    s.flat.runAll ops =
        ((Settings.Operation.runAll s ops).1, (Settings.Operation.runAll s ops).2.flat) ∧
      (Settings.Operation.runAll s ops).2.WellStored := by
  induction ops generalizing s with
  | nil => exact ⟨rfl, hs⟩
  | cons op ops ih =>
      have hrun := op.wellStored_run hs (hfile op List.mem_cons_self)
        (hsection op List.mem_cons_self)
      obtain ⟨hall, hkept⟩ := ih hrun (fun o ho => hfile o (List.mem_cons_of_mem _ ho))
        (fun o ho => hsection o (List.mem_cons_of_mem _ ho))
      refine ⟨?_, hkept⟩
      rw [Flat.runAll, flat_run hs]
      simp only [hall]
      rfl

end AllFiles

end EmulatorSettings
