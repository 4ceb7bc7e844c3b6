import EmulatorSettings.Proofs.Store.WellStored
import EmulatorSettings.Proofs.Table.Building
import EmulatorSettings.Session.Basic

/-!
# Sessions — loading

* `get?_overlay`, `get?_merged`: under each section and key stands what was edited, or else what
  was loaded.
* `sections_finishLoad`: so it is after a load, whenever it comes.
* `sections?_finishLoad`: a session that was loaded has its file.
* `finishLoad_error`: a load that fails counts as one of a file without sections.
-/

namespace EmulatorSettings

/-! ### Settings on top of others -/

namespace FileSections

/-- Setting the keys of a section `n` one after the other, in the order of a table. -/
theorem get?_foldl_set {l : List (String × Setting)}
    (hsorted : l.Pairwise fun a b => compare a.1 b.1 = .lt) (hkey : ∀ e ∈ l, e.2.key = e.1)
    (n : String) {m : FileSections} (hm : m.WellStored) :
    let m' := l.foldl (fun m e => (m.set n e.2.key e.2.value).2) m
    m'.file = m.file ∧ m'.WellStored ∧ ∀ n' k,
      m'.get? n' k = if n' = n then
        ((Table.find k l).map fun x => ⟨k, n, m.file, x.value⟩).or (m.get? n k)
        else m.get? n' k := by
  induction l generalizing m with
  | nil =>
      refine ⟨rfl, hm, fun n' k => ?_⟩
      split
      · next hn => rw [hn]; rfl
      · rfl
  | cons e r ih =>
      obtain ⟨k₀, x⟩ := e
      obtain rfl : x.key = k₀ := hkey (k₀, x) List.mem_cons_self
      obtain ⟨hfile, hw, hget⟩ := ih (List.pairwise_cons.1 hsorted).2
        (fun e he => hkey e (List.mem_cons_of_mem _ he)) (wellStored_set hm n x.key x.value)
      refine ⟨hfile, hw, fun n' k => ?_⟩
      rw [List.foldl_cons, hget, get?_set hm, get?_set hm, file_set]
      by_cases hn : n' = n
      · subst hn
        rw [if_pos rfl, if_pos rfl]
        by_cases hk : k = x.key
        · -- no later entry has this key, so nothing overwrites what was set for it
          subst hk
          rw [Table.find_eq_none_of_head hsorted, if_pos ⟨rfl, rfl⟩, Table.find,
            if_pos Std.compare_self]
          rfl
        · rw [if_neg fun hc => hk hc.2, Table.find,
            if_neg fun he => hk (Std.LawfulEqOrd.eq_of_compare he)]
      · rw [if_neg hn, if_neg hn, if_neg fun hc => hn hc.1]

/-- Setting the keys of the section `s`, each to the value it has there. -/
theorem get?_foldl_set_values {s : Section} (hs : s.WellStored) {m : FileSections}
    (hm : m.WellStored) :
    let m' := s.settings.values.foldl (fun m x => (m.set s.name x.key x.value).2) m
    m'.file = m.file ∧ m'.WellStored ∧ ∀ n k,
      m'.get? n k = if n = s.name then
        ((s.get? k).map fun x => ⟨k, s.name, m.file, x.value⟩).or (m.get? s.name k)
        else m.get? n k := by
  have hkey : ∀ e ∈ s.settings.entries, e.2.key = e.1 := fun e he =>
    (hs e.1 e.2 (Table.mem_entries_iff.1 he)).1
  rw [Table.values, List.foldl_map]
  exact get?_foldl_set s.settings.sorted hkey s.name hm

/-- Setting the keys of several sections, in the order of a table. -/
theorem get?_foldl_sections {l : List (String × Section)}
    (hsorted : l.Pairwise fun a b => compare a.1 b.1 = .lt)
    (hl : ∀ e ∈ l, e.2.name = e.1 ∧ e.2.WellStored) {m : FileSections} (hm : m.WellStored) :
    let m' := l.foldl (fun m e =>
      e.2.settings.values.foldl (fun m x => (m.set e.2.name x.key x.value).2) m) m
    m'.file = m.file ∧ m'.WellStored ∧ ∀ n k,
      m'.get? n k = (((Table.find n l).bind fun s => s.get? k).map
        fun x => ⟨k, n, m.file, x.value⟩).or (m.get? n k) := by
  induction l generalizing m with
  | nil => exact ⟨rfl, hm, fun _ _ => rfl⟩
  | cons e r ih =>
      obtain ⟨n₀, s⟩ := e
      obtain ⟨hname, hs⟩ := hl (n₀, s) List.mem_cons_self
      obtain rfl : s.name = n₀ := hname
      obtain ⟨hfile₁, hw₁, hget₁⟩ := get?_foldl_set_values hs hm
      obtain ⟨hfile, hw, hget⟩ := ih (List.pairwise_cons.1 hsorted).2
        (fun e he => hl e (List.mem_cons_of_mem _ he)) hw₁
      refine ⟨hfile.trans hfile₁, hw, fun n k => ?_⟩
      rw [List.foldl_cons, hget, hfile₁, hget₁]
      by_cases hn : n = s.name
      · subst hn
        rw [Table.find_eq_none_of_head hsorted, if_pos rfl, Table.find, if_pos Std.compare_self]
        rfl
      · rw [if_neg hn, Table.find, if_neg fun he => hn (Std.LawfulEqOrd.eq_of_compare he)]

end FileSections

namespace Session

/-! ### The file of a session -/

theorem sections_of_sections? {s : Session} {m : FileSections} (h : s.sections? = some m) :
    s.sections = m :=
  Settings.fileOrNew_of_file? h

theorem sections?_withFile (s : Session) : s.withFile.sections? = some s.sections :=
  s.settings.file?_modifyFile_self s.file fun m => ((), m)

theorem sections_withFile (s : Session) : s.withFile.sections = s.sections :=
  sections_of_sections? s.sections?_withFile

theorem sections?_finishLoad (s : Session) (result : Except StorageError FileSections) :
    (s.finishLoad result).2.sections? ≠ none := fun hnone =>
  Option.some_ne_none _ ((sections?_withFile _).symm.trans hnone)

/-! ### What a load leads to -/

/-- **Edits over what was loaded.** In `overlay sections edited` stands, under each section and key,
what was `edited`, or else what is in `sections`. -/
theorem get?_overlay {sections edited : FileSections} (hs : sections.WellStored)
    (he : edited.WellStored) (hfile : edited.file = sections.file) :
    (overlay sections edited).file = sections.file ∧ (overlay sections edited).WellStored ∧
      ∀ n k, (overlay sections edited).get? n k = (edited.get? n k).or (sections.get? n k) := by
  have hl : ∀ e ∈ edited.sections.entries, e.2.name = e.1 ∧ e.2.WellStored := by
    intro e hmem
    obtain ⟨hname, -, hw⟩ := he e.1 e.2 (Table.mem_entries_iff.1 hmem)
    exact ⟨hname, hw⟩
  obtain ⟨hfile', hw, hget⟩ := FileSections.get?_foldl_sections edited.sections.sorted hl hs
  rw [overlay, Table.values, List.foldl_map]
  refine ⟨hfile', hw, fun n k => ?_⟩
  rw [hget]
  congr 1
  change (edited.get? n k).map _ = edited.get? n k
  cases hx : edited.get? n k with
  | none => rfl
  | some x =>
      obtain ⟨hk, hn, hf⟩ := FileSections.identity_of_get? he hx
      rw [Option.map_some, ← hk, ← hn, ← hfile, ← hf]

/-- What `merged` holds under each section and key, whether or not something was edited before. -/
theorem get?_merged {s : Session} {loaded : FileSections} (hw : loaded.WellStored)
    (hloaded : loaded.file = s.file) (hs : s.sections.WellStored)
    (hfile : s.sections.file = s.file) :
    (s.merged loaded).file = s.file ∧ (s.merged loaded).WellStored ∧
      ∀ n k, (s.merged loaded).get? n k = (s.sections.get? n k).or (loaded.get? n k) := by
  unfold merged
  cases hsections : s.sections? with
  | none =>
      have hnew : s.sections = .new s.file := by
        rw [sections, Settings.fileOrNew, show s.settings.file? s.file = none from hsections]
        rfl
      refine ⟨hloaded, hw, fun n k => ?_⟩
      rw [hnew]
      rfl
  | some edited =>
      have hedited := sections_of_sections? hsections
      rw [hedited] at hs hfile
      obtain ⟨hf, hw', hget⟩ := get?_overlay hw hs (hfile.trans hloaded.symm)
      refine ⟨hf.trans hloaded, hw', fun n k => ?_⟩
      rw [hedited]
      exact hget n k

/-- **After `finishLoad (.ok loaded)`** the sections are `s.merged loaded`, if these are of the
session's file. -/
theorem sections_finishLoad {s : Session} {loaded : FileSections}
    (hfile : (s.merged loaded).file = s.file) :
    (s.finishLoad (.ok loaded)).2.sections = s.merged loaded := by
  have hinsert : (s.settings.insertFile (s.merged loaded)).2.file? s.file =
      some (s.merged loaded) := by
    rw [← hfile]
    exact Table.get?_insert_self _ _ _
  exact (Settings.fileOrNew_ensureFile _ _).trans (Settings.fileOrNew_of_file? hinsert)

/-- Under each section and key stands what was edited, or else what is in `loaded`. -/
theorem get?_finishLoad {s : Session} {loaded : FileSections} (hw : loaded.WellStored)
    (hloaded : loaded.file = s.file) (hs : s.sections.WellStored)
    (hfile : s.sections.file = s.file) :
    (s.finishLoad (.ok loaded)).2.sections.file = s.file ∧
      (s.finishLoad (.ok loaded)).2.sections.WellStored ∧
      ∀ n k, (s.finishLoad (.ok loaded)).2.sections.get? n k =
        (s.sections.get? n k).or (loaded.get? n k) := by
  have hmerged := get?_merged hw hloaded hs hfile
  rwa [sections_finishLoad hmerged.1]

/-- A load that fails is told, and is otherwise the load of a file without sections. -/
theorem finishLoad_error (s : Session) (e : StorageError) :
    s.finishLoad (.error e) =
      ([.settingsNotFound s.file], (s.finishLoad (.ok (.new s.file))).2) := rfl

end Session

end EmulatorSettings
