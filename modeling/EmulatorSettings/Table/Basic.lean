/-!
# Tables in key order

A `Table κ α` is a finite map from keys to values that is walked in increasing key order.  The
entries are kept strictly increasing, so a key stands at most once and a table is determined by its
look-ups `get?`.

* `get?_insert`, `get?_erase`: what each operation does to the look-ups.
* `mem_entries_iff`: the entries are exactly what the look-ups give.
* `exists_values_insert`: a key that is there keeps its place among the values when it is set.
-/

namespace EmulatorSettings

/-- A finite map whose `entries` stand in strictly increasing key order. -/
structure Table (κ : Type) [Ord κ] (α : Type) where
  entries : List (κ × α)
  sorted : entries.Pairwise fun a b => compare a.1 b.1 = .lt

namespace Table

variable {κ : Type} [Ord κ] {α β : Type}

/-- Tables with the same `entries` are equal, as the order is a proof. -/
theorem ext_entries {t u : Table κ α} (h : t.entries = u.entries) : t = u := by
  cases t; cases u; simp_all

instance [DecidableEq κ] [DecidableEq α] : DecidableEq (Table κ α) := fun t u =>
  decidable_of_iff (t.entries = u.entries) ⟨ext_entries, fun h => h ▸ rfl⟩

/-- The table without entries. -/
def empty : Table κ α := ⟨[], .nil⟩

instance : Inhabited (Table κ α) := ⟨empty⟩

/-- The first value under `k` in a list of entries. -/
def find (k : κ) : List (κ × α) → Option α
  | []           => none
  | (k', v) :: r => if compare k k' = .eq then some v else find k r

/-- The value under `k` in `t`. -/
def get? (t : Table κ α) (k : κ) : Option α :=
  find k t.entries

/-- Whether there is a value under `k` in `t`. -/
def contains (t : Table κ α) (k : κ) : Bool :=
  (t.get? k).isSome

/-- Puts `v` under `k` at the place its key gives it, over the value there if there is one. -/
def insertEntry (k : κ) (v : α) : List (κ × α) → List (κ × α)
  | []            => [(k, v)]
  | (k', v') :: r =>
    match compare k k' with
    | .lt => (k, v) :: (k', v') :: r
    | .eq => (k, v) :: r
    | .gt => (k', v') :: insertEntry k v r

/-- Besides `(k, v)` there is nothing new in `insertEntry k v l`. -/
theorem mem_insertEntry {k : κ} {v : α} {e : κ × α} {l : List (κ × α)}
    (h : e ∈ insertEntry k v l) : e = (k, v) ∨ e ∈ l := by
  fun_induction insertEntry k v l <;> grind

/-- The order is kept by `insertEntry`. -/
theorem insertEntry_sorted [Std.TransOrd κ] (k : κ) (v : α) {l : List (κ × α)}
    (h : l.Pairwise fun a b => compare a.1 b.1 = .lt) :
    (insertEntry k v l).Pairwise fun a b => compare a.1 b.1 = .lt := by
  fun_induction insertEntry k v l with
  | case1 => simp
  | case2 k' v' r hlt =>
    rw [List.pairwise_cons] at h ⊢
    refine ⟨fun e he => ?_, List.pairwise_cons.2 h⟩
    rcases List.mem_cons.1 he with rfl | he
    · exact hlt
    · exact Std.TransCmp.lt_trans hlt (h.1 e he)
  | case3 k' v' r heq =>
    rw [List.pairwise_cons] at h ⊢
    exact ⟨fun e he => Std.TransCmp.lt_of_eq_of_lt heq (h.1 e he), h.2⟩
  | case4 k' v' r hgt ih =>
    rw [List.pairwise_cons] at h ⊢
    refine ⟨fun e he => ?_, ih h.2⟩
    rcases mem_insertEntry he with rfl | he
    · exact Std.OrientedCmp.gt_iff_lt.1 hgt
    · exact h.1 e he

/-- The table `t` with `v` under `k`. -/
def insert [Std.TransOrd κ] (t : Table κ α) (k : κ) (v : α) : Table κ α :=
  ⟨insertEntry k v t.entries, insertEntry_sorted k v t.sorted⟩

/-- The table `t` without `k`. -/
def erase (t : Table κ α) (k : κ) : Table κ α :=
  ⟨t.entries.filter fun e => compare k e.1 ≠ .eq, t.sorted.filter _⟩

/-- The keys of `t` in increasing order. -/
def keys (t : Table κ α) : List κ :=
  t.entries.map (·.1)

/-- The values of `t` in the order of their keys. -/
def values (t : Table κ α) : List α :=
  t.entries.map (·.2)

/-- The number of `entries`. -/
def size (t : Table κ α) : Nat :=
  t.entries.length

/-- Whether `t` has no entry. -/
def isEmpty (t : Table κ α) : Bool :=
  t.entries.isEmpty

/-- The table `t` with every value `a` replaced by `f a`. -/
def mapValues (f : α → β) (t : Table κ α) : Table κ β :=
  ⟨t.entries.map fun e => (e.1, f e.2), t.sorted.map _ fun _ _ h => h⟩

/-! ### Laws -/

@[simp] theorem get?_empty (k : κ) : (empty : Table κ α).get? k = none := rfl

variable [Std.LawfulEqOrd κ]

/-- In increasing key order `find k l` gives the only value under `k`. -/
theorem find_eq_some_iff {k : κ} {v : α} {l : List (κ × α)}
    (h : l.Pairwise fun a b => compare a.1 b.1 = .lt) : find k l = some v ↔ (k, v) ∈ l := by
  induction l with
  | nil => simp [find]
  | cons e r ih =>
    obtain ⟨k', v'⟩ := e
    rw [List.pairwise_cons] at h
    by_cases hk : k = k'
    · subst hk
      have hn : (k, v) ∉ r := fun hm => by
        have := h.1 _ hm
        simp [Std.compare_self] at this
      simp [find, hn, eq_comm]
    · simp [find, hk, ih h.2]

/-- The look-ups `t.get?` give exactly the entries of `t`. -/
theorem mem_entries_iff {t : Table κ α} {k : κ} {v : α} :
    (k, v) ∈ t.entries ↔ t.get? k = some v :=
  (find_eq_some_iff t.sorted).symm

/-- After `insertEntry k v` the look-up of `k` finds `v`, and any other key what it found before. -/
theorem find_insertEntry [DecidableEq κ] (k k' : κ) (v : α) (l : List (κ × α)) :
    find k' (insertEntry k v l) = if k' = k then some v else find k' l := by
  fun_induction insertEntry k v l with
  | case1 => simp [find]
  | case2 k₁ v₁ r hlt => simp [find]
  | case3 k₁ v₁ r heq =>
    obtain rfl := Std.LawfulEqOrd.eq_of_compare heq
    simp only [find, Std.LawfulEqCmp.compare_eq_iff_eq]
    split <;> rfl
  | case4 k₁ v₁ r hgt ih =>
    have hne : k ≠ k₁ := fun h => by simp [h, Std.compare_self] at hgt
    simp only [find, Std.LawfulEqCmp.compare_eq_iff_eq, ih]
    by_cases h : k' = k
    · subst h; simp [hne]
    · simp [h]

/-- The table `t.insert k v` has `v` under `k` and agrees with `t` everywhere else. -/
theorem get?_insert [Std.TransOrd κ] [DecidableEq κ] (t : Table κ α) (k k' : κ) (v : α) :
    (t.insert k v).get? k' = if k' = k then some v else t.get? k' :=
  find_insertEntry k k' v t.entries

@[simp] theorem get?_insert_self [Std.TransOrd κ] (t : Table κ α) (k : κ) (v : α) :
    (t.insert k v).get? k = some v := by
  classical simp [get?_insert]

theorem get?_insert_of_ne [Std.TransOrd κ] (t : Table κ α) {k k' : κ} (v : α) (h : k' ≠ k) :
    (t.insert k v).get? k' = t.get? k' := by
  classical simp [get?_insert, h]

/-- Without the entries under `k`, only the look-up of `k` changes. -/
theorem find_filter_ne [DecidableEq κ] (k k' : κ) (l : List (κ × α)) :
    find k' (l.filter fun e => compare k e.1 ≠ .eq) = if k' = k then none else find k' l := by
  induction l with
  | nil => simp [find]
  | cons e r ih =>
    obtain ⟨k₁, v₁⟩ := e
    by_cases h : k = k₁
    · subst h
      by_cases h' : k' = k <;> simp_all [find]
    · by_cases h' : k' = k <;> simp_all [find]

/-- The table `t.erase k` has nothing under `k` and agrees with `t` everywhere else. -/
theorem get?_erase [DecidableEq κ] (t : Table κ α) (k k' : κ) :
    (t.erase k).get? k' = if k' = k then none else t.get? k' :=
  find_filter_ne k k' t.entries

/-- Looking up and applying `f` commute. -/
theorem find_map (f : α → β) (k : κ) (l : List (κ × α)) :
    find k (l.map fun e => (e.1, f e.2)) = (find k l).map f := by
  induction l with
  | nil => rfl
  | cons e r ih => by_cases h : k = e.1 <;> simp_all [find]

/-- Under each key, `t.mapValues f` has the image of what `t` has there. -/
@[simp] theorem get?_mapValues (f : α → β) (t : Table κ α) (k : κ) :
    (t.mapValues f).get? k = (t.get? k).map f :=
  find_map f k t.entries

/-- A table is empty exactly when no look-up finds anything. -/
theorem isEmpty_iff {t : Table κ α} : t.isEmpty = true ↔ ∀ k, t.get? k = none := by
  constructor
  · intro h k
    rw [isEmpty, List.isEmpty_iff] at h
    rw [get?, h]
    rfl
  · intro h
    rw [isEmpty, List.isEmpty_iff]
    refine List.eq_nil_iff_forall_not_mem.2 fun e he => ?_
    have := mem_entries_iff.1 (show (e.1, e.2) ∈ t.entries from he)
    simp [h] at this

/-! ### The place of one entry -/

/-- The value `b` takes the place of `a`, between the same entries. -/
theorem insertEntry_append [Std.TransOrd κ] {k : κ} {a : α} {before after : List (κ × α)}
    (h : (before ++ (k, a) :: after).Pairwise fun a b => compare a.1 b.1 = .lt) (b : α) :
    insertEntry k b (before ++ (k, a) :: after) = before ++ (k, b) :: after := by
  induction before with
  | nil =>
      rw [List.nil_append, insertEntry, Std.compare_self]
      rfl
  | cons e before ih =>
      rw [List.cons_append, List.pairwise_cons] at h
      have hlt : compare e.1 k = .lt :=
        h.1 (k, a) (List.mem_append_right before List.mem_cons_self)
      rw [List.cons_append, insertEntry, Std.OrientedCmp.gt_iff_lt.2 hlt]
      exact congrArg (e :: ·) (ih h.2)

/-- A key `k` that is there keeps its place among the values when it is set. -/
theorem exists_values_insert [Std.TransOrd κ] {t : Table κ α} {k : κ} {a : α}
    (h : t.get? k = some a) :
    ∃ before after, t.values = before ++ a :: after ∧
      ∀ b, (t.insert k b).values = before ++ b :: after := by
  obtain ⟨before, after, hentries⟩ := List.append_of_mem (mem_entries_iff.2 h)
  refine ⟨before.map (·.2), after.map (·.2), ?_, fun b => ?_⟩
  · rw [values, hentries, List.map_append, List.map_cons]
  · have hsorted := t.sorted
    rw [hentries] at hsorted
    rw [values, insert]
    dsimp only
    rw [hentries, insertEntry_append hsorted, List.map_append, List.map_cons]

end Table

end EmulatorSettings
