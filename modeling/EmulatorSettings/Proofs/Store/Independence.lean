import EmulatorSettings.Proofs.Store.Operations
import EmulatorSettings.Proofs.Store.Reporting
import EmulatorSettings.Row.Controls

/-!
# Store — settings are independent

Setting a key creates what it needs on the way, in its section and in its file, and still touches
one setting only.

* `Address.get?_set_of_ne`: what stands elsewhere stays as it is.
* `Address.set_again`: the same value set once more changes nothing.
* `Address.set_comm`: settings at different addresses may be set in either order.
-/

namespace EmulatorSettings

/-! ### Tables -/

namespace Table

variable {κ α : Type} [Ord κ] [Std.LawfulEqOrd κ] [Std.TransOrd κ] [DecidableEq κ]

theorem insert_insert (t : Table κ α) (k : κ) (a b : α) :
    (t.insert k a).insert k b = t.insert k b := by
  refine ext_get? fun k' => ?_
  simp only [get?_insert]
  split
  · rfl
  · rfl

theorem insert_comm (t : Table κ α) {k k' : κ} (h : k ≠ k') (a b : α) :
    (t.insert k a).insert k' b = (t.insert k' b).insert k a := by
  refine ext_get? fun k'' => ?_
  simp only [get?_insert]
  by_cases hk : k'' = k
  · rw [if_pos hk, if_pos hk, if_neg (hk ▸ h)]
  · rw [if_neg hk, if_neg hk]

end Table

/-! ### Sections -/

namespace Section

/-- The setting that the key `k` holds once it is set to `v`. -/
def held (s : Section) (k : String) (v : Value) : Setting :=
  (s.get? k).elim ⟨k, s.name, s.file, v⟩ fun x => { x with value := v }

theorem snd_set (s : Section) (k : String) (v : Value) :
    (s.set k v).2 = { s with settings := s.settings.insert k (s.held k v) } := by
  unfold set held
  cases s.get? k <;> rfl

theorem value_held (s : Section) (k : String) (v : Value) : (s.held k v).value = v := by
  unfold held
  cases s.get? k <;> rfl

theorem get?_set_held (s : Section) (k k' : String) (v : Value) :
    (s.set k v).2.get? k' = if k' = k then some (s.held k v) else s.get? k' := by
  rw [snd_set]
  exact Table.get?_insert _ _ _ _

theorem held_set_of_ne (s : Section) {k k' : String} (h : k' ≠ k) (v w : Value) :
    (s.set k v).2.held k' w = s.held k' w := by
  rw [held, held, get?_set_held, if_neg h, name_set, file_set]

theorem set_comm (s : Section) {k k' : String} (h : k ≠ k') (v w : Value) :
    ((s.set k v).2.set k' w).2 = ((s.set k' w).2.set k v).2 := by
  rw [snd_set _ k', held_set_of_ne s h.symm, snd_set _ k, snd_set (s.set k' w).2,
    held_set_of_ne s h, snd_set s k']
  exact congrArg (Section.mk s.name s.file) (Table.insert_comm _ h _ _)

end Section

/-! ### The sections of a file -/

namespace FileSections

variable {α β : Type} (m : FileSections)

theorem sectionOrNew_modify (n n' : String) (work : Section → α × Section) :
    (m.modify n work).2.sectionOrNew n' =
      if n' = n then (work (m.sectionOrNew n)).2 else m.sectionOrNew n' := by
  rw [sectionOrNew, section?_modify, file_modify]
  split
  · rfl
  · rfl

/-- The `next` work on a section after `work` on the same section. -/
theorem snd_modify_modify (n : String) (work : Section → α × Section)
    (next : Section → β × Section) :
    ((m.modify n work).2.modify n next).2 = (m.modify n fun s => next (work s).2).2 := by
  rw [snd_modify (m.modify n work).2, sectionOrNew_modify, if_pos rfl, snd_modify, snd_modify]
  exact congrArg (FileSections.mk m.file) (Table.insert_insert _ _ _ _)

/-- Work on different sections, by `modify`, may be done in either order. -/
theorem snd_modify_comm {n n' : String} (h : n ≠ n') (work : Section → α × Section)
    (other : Section → β × Section) :
    ((m.modify n work).2.modify n' other).2 = ((m.modify n' other).2.modify n work).2 := by
  rw [snd_modify (m.modify n work).2, sectionOrNew_modify, if_neg h.symm,
    snd_modify (m.modify n' other).2, sectionOrNew_modify, if_neg h, snd_modify, snd_modify]
  exact congrArg (FileSections.mk m.file) (Table.insert_comm _ h _ _)

theorem set_comm {n n' k k' : String} (h : ¬ (n = n' ∧ k = k')) (v w : Value) :
    ((m.set n k v).2.set n' k' w).2 = ((m.set n' k' w).2.set n k v).2 := by
  by_cases hn : n = n'
  · subst hn
    have hk : k ≠ k' := fun hk => h ⟨rfl, hk⟩
    rw [set, set, set, set, snd_modify_modify, snd_modify_modify, snd_modify, snd_modify,
      Section.set_comm _ hk]
  · exact m.snd_modify_comm hn _ _

theorem get?_set_of_ne {n n' k k' : String} (h : ¬ (n' = n ∧ k' = k)) (v : Value) :
    (m.set n k v).2.get? n' k' = m.get? n' k' := by
  rw [set, get?_modify, Section.get?_set_held, get?_sectionOrNew]
  by_cases hn : n' = n
  · subst hn
    rw [if_pos rfl, if_neg fun hk => h ⟨rfl, hk⟩]
  · rw [if_neg hn]

theorem get?_set_self (n k : String) (v : Value) :
    (m.set n k v).2.get? n k = some ((m.sectionOrNew n).held k v) := by
  rw [set, get?_modify, if_pos rfl, Section.get?_set_held, if_pos rfl]

end FileSections

/-! ### The settings of all files -/

namespace Settings

variable {α β : Type} (s : Settings)

theorem fileOrNew_set (f f' : SettingsFile) (n k : String) (v : Value) :
    (s.set f n k v).2.fileOrNew f' =
      if f' = f then ((s.fileOrNew f).set n k v).2 else s.fileOrNew f' := by
  by_cases hf : f' = f
  · subst hf
    rw [if_pos rfl, fileOrNew_of_file? (s.file?_set _ n k v)]
  · rw [if_neg hf, fileOrNew, file?_set_of_ne s hf, ← fileOrNew]

theorem snd_set (f : SettingsFile) (n k : String) (v : Value) :
    (s.set f n k v).2 = ⟨s.files.insert f ((s.fileOrNew f).set n k v).2⟩ := rfl

theorem set_comm {f f' : SettingsFile} {n n' k k' : String}
    (h : ¬ (f = f' ∧ n = n' ∧ k = k')) (v w : Value) :
    ((s.set f n k v).2.set f' n' k' w).2 = ((s.set f' n' k' w).2.set f n k v).2 := by
  rw [snd_set (s.set f n k v).2, fileOrNew_set, snd_set (s.set f' n' k' w).2, fileOrNew_set,
    snd_set, snd_set]
  by_cases hf : f = f'
  · subst hf
    have hnk : ¬ (n = n' ∧ k = k') := fun hnk => h ⟨rfl, hnk⟩
    rw [if_pos rfl, if_pos rfl, Table.insert_insert, Table.insert_insert,
      FileSections.set_comm _ hnk]
  · rw [if_neg (Ne.symm hf), if_neg hf, Table.insert_comm _ hf]

end Settings

/-! ### Addresses -/

namespace Address

variable (a : Address) (s : Settings)

theorem get?_eq : a.get? s = (s.fileOrNew a.file).get? a.sectionName a.key :=
  (s.get?_fileOrNew a.file a.sectionName a.key).symm

/-- **What stands at another address `b`** stays as it is. -/
theorem get?_set_of_ne {b : Address} (h : b ≠ a) (v : Value) :
    b.get? (a.set s v).2 = b.get? s := by
  obtain ⟨f, n, k⟩ := a
  obtain ⟨f', n', k'⟩ := b
  rw [get?_eq, get?_eq, set, Settings.fileOrNew_set]
  split
  · next hf =>
    obtain rfl : f' = f := hf
    refine FileSections.get?_set_of_ne _ (fun hnk => h ?_) v
    obtain ⟨rfl, rfl⟩ : n' = n ∧ k' = k := hnk
    rfl
  · rfl

theorem value?_set_of_ne {b : Address} (h : b ≠ a) (v : Value) :
    b.value? (a.set s v).2 = b.value? s := by
  rw [value?, get?_set_of_ne a s h, ← value?]

/-- The value `v` that was set at `a` is there. -/
theorem value?_set (v : Value) : a.value? (a.set s v).2 = some v := by
  rw [value?, get?_eq, set, Settings.fileOrNew_set, if_pos rfl, FileSections.get?_set_self,
    Option.map_some, Section.value_held]

/-- A change is reported unless the value that is there `equals` the new one. -/
theorem fst_set (v : Value) :
    (a.set s v).1 = (a.value? s).elim true fun w => !w.equals v := by
  rw [value?, get?_eq]
  refine (FileSections.fst_set _ a.sectionName a.key v).trans ?_
  cases (s.fileOrNew a.file).get? a.sectionName a.key <;> rfl

/-- **The same value set once more** changes nothing, and is reported as no change unless it is NaN.
-/
theorem set_again {v : Value} (h : v ≠ .float .nan) :
    a.set (a.set s v).2 v = (false, (a.set s v).2) := by
  refine Prod.ext ?_ ?_
  · rw [fst_set, value?_set, Option.elim_some, Value.equals_iff_alike.2 (.inl ⟨rfl, h⟩)]
    rfl
  · have hget := FileSections.get?_set_self (s.fileOrNew a.file) a.sectionName a.key v
    have hself := FileSections.set_value_self hget
    rw [Section.value_held] at hself
    change ((a.set s v).2.set a.file a.sectionName a.key v).2 = _
    rw [Settings.snd_set, set, Settings.fileOrNew_set, if_pos rfl, hself, Settings.snd_set]
    exact congrArg Settings.mk (Table.insert_insert _ _ _ _)

/-- **Settings at different addresses** `a` and `b` may be set in either order. -/
theorem set_comm {b : Address} (h : a ≠ b) (v w : Value) :
    (b.set (a.set s v).2 w).2 = (a.set (b.set s w).2 v).2 := by
  refine s.set_comm (fun heq => h ?_) v w
  obtain ⟨f, n, k⟩ := a
  obtain ⟨f', n', k'⟩ := b
  obtain ⟨rfl, rfl, rfl⟩ := heq
  rfl

/-- Setting at `b` reports what it would report if nothing had been set at `a`. -/
theorem fst_set_set {b : Address} (h : b ≠ a) (v w : Value) :
    (b.set (a.set s v).2 w).1 = (b.set s w).1 := by
  rw [fst_set, fst_set, value?_set_of_ne a s h]

end Address

end EmulatorSettings
