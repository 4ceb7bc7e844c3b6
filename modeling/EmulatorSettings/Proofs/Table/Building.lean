import EmulatorSettings.Table.Basic
import Mathlib.Data.List.Basic
import Mathlib.Data.List.Sort

/-!
# Tables in key order — selecting and rebuilding

* `exists_values_of_get?`: the place of one entry among the values.
* `get?_filterValues`: a table restricted to some of its values.
* `ext_get?`: a table is determined by its look-ups.
* `mapValues_eq_self`: a table whose values are replaced by themselves.
* `foldl_insert_values`: inserting the values of a table one after the other, each under its own
  key, builds the table again.
* `foldl_insert_get?`: what a key holds after several insertions over a table.
-/

namespace EmulatorSettings.Table

variable {κ : Type} [Ord κ] {α β : Type}

/-- The table `t` with only the values that satisfy `p`. -/
def filterValues (p : α → Bool) (t : Table κ α) : Table κ α :=
  ⟨t.entries.filter fun e => p e.2, t.sorted.filter _⟩

theorem values_filterValues (p : α → Bool) (t : Table κ α) :
    (t.filterValues p).values = t.values.filter p :=
  List.filter_map.symm

theorem filterValues_filterValues (p : α → Bool) (t : Table κ α) :
    (t.filterValues p).filterValues p = t.filterValues p := by
  refine ext_entries ?_
  simp only [filterValues, List.filter_filter, Bool.and_self]

theorem values_mapValues (f : α → β) (t : Table κ α) : (t.mapValues f).values = t.values.map f := by
  rw [values, values, mapValues, List.map_map, List.map_map]
  rfl

theorem mapValues_mapValues {γ : Type} (f : α → β) (g : β → γ) (t : Table κ α) :
    (t.mapValues f).mapValues g = t.mapValues (g ∘ f) :=
  ext_entries List.map_map

variable [Std.LawfulEqOrd κ]

theorem mem_values_iff {t : Table κ α} {a : α} : a ∈ t.values ↔ ∃ k, t.get? k = some a := by
  simp only [← mem_entries_iff, values, List.mem_map, Prod.exists, exists_eq_right]

/-- What stands under `k` has its place among the `values`, and none after it stands under `k`. -/
theorem exists_values_of_get? {t : Table κ α} {k : κ} {a : α} (h : t.get? k = some a) :
    ∃ before after, t.values = before ++ a :: after ∧
      ∀ b ∈ after, ∃ k', t.get? k' = some b ∧ k' ≠ k := by
  obtain ⟨before, after, hentries⟩ := List.append_of_mem (mem_entries_iff.2 h)
  have hsorted := t.sorted
  rw [hentries, List.pairwise_append, List.pairwise_cons] at hsorted
  refine ⟨before.map (·.2), after.map (·.2), ?_, fun b hb => ?_⟩
  · rw [values, hentries, List.map_append, List.map_cons]
  · obtain ⟨⟨k', b⟩, he, rfl⟩ := List.mem_map.1 hb
    refine ⟨k', mem_entries_iff.1 ?_, ?_⟩
    · rw [hentries]
      exact List.mem_append_right before (List.mem_cons_of_mem _ he)
    · rintro rfl
      have hlt := hsorted.2.1.1 _ he
      rw [Std.compare_self] at hlt
      cases hlt

theorem get?_filterValues (p : α → Bool) (t : Table κ α) (k : κ) :
    (t.filterValues p).get? k = (t.get? k).filter p := by
  refine Option.ext fun v => ?_
  rw [← mem_entries_iff, Option.filter_eq_some_iff, ← mem_entries_iff]
  exact List.mem_filter

/-- **Extensionality.**  A table is determined by `get?`: the entries are the pairs that `get?`
gives, and a list in strictly increasing key order is determined by its members. -/
theorem ext_get? [Std.TransOrd κ] {t u : Table κ α} (h : ∀ k, t.get? k = u.get? k) : t = u := by
  have hirrefl : ∀ e : κ × α, compare e.1 e.1 ≠ .lt := fun e he =>
    absurd (Std.compare_self.symm.trans he) (by decide)
  have : Std.Irrefl fun a b : κ × α => compare a.1 b.1 = .lt := ⟨hirrefl⟩
  have : Std.Antisymm fun a b : κ × α => compare a.1 b.1 = .lt :=
    ⟨fun a _ hab hba => absurd (Std.TransCmp.lt_trans hab hba) (hirrefl a)⟩
  refine ext_entries (t.sorted.eq_of_mem_iff u.sorted fun e => ?_)
  rw [← Prod.mk.eta (p := e), mem_entries_iff, mem_entries_iff, h]

/-- By `mapValues`, replacing every value by itself changes nothing. -/
theorem mapValues_eq_self [Std.TransOrd κ] {f : α → α} {t : Table κ α}
    (h : ∀ k a, t.get? k = some a → f a = a) : t.mapValues f = t := by
  refine ext_get? fun k => ?_
  rw [get?_mapValues]
  cases ha : t.get? k with
  | none => rfl
  | some a => exact congrArg some (h k a ha)

/-- No key of a strictly increasing list of entries stands twice. -/
theorem find_eq_none_of_head {k : κ} {v : α} {l : List (κ × α)}
    (h : ((k, v) :: l).Pairwise fun a b => compare a.1 b.1 = .lt) : find k l = none := by
  rw [List.pairwise_cons] at h
  refine Option.eq_none_iff_forall_ne_some.2 fun w hw => ?_
  have hlt := h.1 _ ((find_eq_some_iff h.2).1 hw)
  rw [Std.compare_self] at hlt
  cases hlt

variable [Std.TransOrd κ]

theorem foldl_insert_find [DecidableEq κ] {l : List (κ × α)}
    (h : l.Pairwise fun a b => compare a.1 b.1 = .lt) (t : Table κ α) (k : κ) :
    (l.foldl (fun u e => u.insert e.1 e.2) t).get? k = (find k l).or (t.get? k) := by
  induction l generalizing t with
  | nil => rfl
  | cons e r ih =>
      obtain ⟨k', v⟩ := e
      rw [List.foldl_cons, ih (List.pairwise_cons.1 h).2, get?_insert]
      by_cases hk : k = k'
      · subst hk
        rw [find_eq_none_of_head h, find, if_pos rfl, if_pos Std.compare_self]
        rfl
      · rw [find, if_neg hk, if_neg fun he => hk (Std.LawfulEqOrd.eq_of_compare he)]

variable {t : Table κ α} {key : α → κ}

/-- **Several insertions.** The values of `t`, each of which knows its key by `key`, are put over
the table `u`: what is found under `k` is the new value there, or else the old one. -/
theorem foldl_insert_get? [DecidableEq κ] (hkey : ∀ k a, t.get? k = some a → key a = k)
    (f : α → β) (u : Table κ β) (k : κ) :
    (t.values.foldl (fun u a => u.insert (key a) (f a)) u).get? k =
      ((t.get? k).map f).or (u.get? k) := by
  have hfold : t.values.foldl (fun u a => u.insert (key a) (f a)) u =
      (t.mapValues f).entries.foldl (fun u e => u.insert e.1 e.2) u := by
    rw [values, mapValues, List.foldl_map, List.foldl_map]
    refine List.foldl_ext _ _ _ fun u e he => ?_
    rw [hkey e.1 e.2 (mem_entries_iff.1 he)]
  rw [hfold, foldl_insert_find (t.mapValues f).sorted u, ← get?_mapValues]
  rfl

/-- **Rebuilding.** From `empty`, the insertions give `t.mapValues f`. -/
theorem foldl_insert_values [DecidableEq κ] (hkey : ∀ k a, t.get? k = some a → key a = k)
    (f : α → β) :
    t.values.foldl (fun u a => u.insert (key a) (f a)) (empty : Table κ β) = t.mapValues f := by
  refine ext_get? fun k => ?_
  rw [foldl_insert_get? hkey, get?_mapValues, get?_empty, Option.or_none]

end EmulatorSettings.Table
