import EmulatorSettings.Proofs.Disk.OtherFiles
import Mathlib.Data.List.Induction

/-!
# Disk — directories on the way

What making directories and writing a file change in a tree, place by place, and what that means for
the paths that could not be followed before.

* `extends_createDirectories`, `extends_write`: directories are made where nothing was, at places
  that the path leads through, and a file is written where the path leads.
* `Extends.readText`, `Extends.readText_of_no_up`: what could be read can still be read, and by a
  path that does not go up nothing else can.
-/

namespace EmulatorSettings.Tree

variable {t t' t'' : Tree} {place place' : List String} {path name : String}

/-! ### Trees whose nodes are in directories -/

/-- Whatever `node?` finds at `place ++ [name]` is in a directory:
`t.node? place = some .directory`. -/
def Closed (t : Tree) : Prop :=
  ∀ place name n, t.node? (place ++ [name]) = some n → t.node? place = some .directory

theorem closed_empty : empty.Closed := by
  intro place name n h
  have hroot : place ++ [name] ≠ [] := by simp
  rw [node?, if_neg hroot] at h
  cases h

/-- A `put` keeps a tree `Closed` if it puts into a directory, and over no directory unless `n` is
one itself. -/
theorem closed_put (ht : t.Closed) (hplace : t.node? place = some .directory) {n : Node}
    (hn : n = .directory ∨ t.node? (place ++ [name]) ≠ some .directory) :
    (t.put (place ++ [name]) n).Closed := by
  have hroot : place ++ [name] ≠ [] := by simp
  intro q name' m hm
  have hq : t.node? q = some .directory := by
    rw [node?_put t n hroot] at hm
    split at hm
    · next heq =>
      rw [(List.append_inj' heq rfl).1]
      exact hplace
    · exact ht q name' m hm
  rw [node?_put t n hroot]
  split
  · next heq =>
    rcases hn with rfl | hn
    · rfl
    · exact absurd (heq ▸ hq) hn
  · exact hq

/-- Above everything in a `Closed` tree are directories. -/
theorem Closed.above (ht : t.Closed) {p r : List String} (hr : r ≠ []) {n : Node}
    (h : t.node? (p ++ r) = some n) : t.node? p = some .directory := by
  induction r using List.reverseRecOn generalizing n with
  | nil => exact absurd rfl hr
  | append_singleton r name ih =>
      rw [← List.append_assoc] at h
      have hdirectory := ht _ _ _ h
      by_cases hnil : r = []
      · rwa [hnil, List.append_nil] at hdirectory
      · exact ih hnil hdirectory

/-! ### Steps -/

/-- **A `step` by `name`** stays, goes up for `..`, or leads to `place ++ [name]`. -/
theorem cases_step (h : t.step place name = .ok place') :
    place' = place ∨ name = ".." ∧ place' = place.dropLast ∨ place' = place ++ [name] := by
  rw [step, node?_of_step h] at h
  dsimp only at h
  split at h
  · exact .inl (Except.ok.inj h).symm
  · split at h
    · next hname => exact .inr (.inl ⟨hname, (Except.ok.inj h).symm⟩)
    · split at h
      · cases h
      · exact .inr (.inr (Except.ok.inj h).symm)

/-- In a `Closed` tree only a step down leads to a `place'` that is no directory. -/
theorem eq_of_step_of_node? (ht : t.Closed) (h : t.step place name = .ok place')
    (hplace' : t.node? place' ≠ some .directory) : place' = place ++ [name] := by
  have hplace := node?_of_step h
  rcases cases_step h with rfl | ⟨-, rfl⟩ | hdown
  · exact absurd hplace hplace'
  · rcases List.eq_nil_or_concat place with rfl | ⟨q, x, rfl⟩
    · exact absurd hplace hplace'
    · rw [List.concat_eq_append, List.dropLast_concat] at hplace'
      rw [List.concat_eq_append] at hplace
      exact absurd (ht _ _ _ hplace) hplace'
  · exact hdown

/-- Where none of the `names` is `..`, `follow` leads down: `place <+: place'`. -/
theorem isPrefix_of_follow {names : List String} (hup : ".." ∉ names)
    (h : t.follow place names = .ok place') : place <+: place' := by
  induction names generalizing place with
  | nil =>
      obtain rfl := Except.ok.inj h
      exact List.prefix_rfl
  | cons name r ih =>
      obtain ⟨p, hstep, hrest⟩ := bind_eq_ok h
      have hr := ih (fun hm => hup (List.mem_cons_of_mem _ hm)) hrest
      rcases cases_step hstep with rfl | ⟨rfl, -⟩ | rfl
      · exact hr
      · exact absurd List.mem_cons_self hup
      · exact (List.prefix_append place [name]).trans hr

/-- **Where `names` without `..` lead down to a node `n`** in `t'`, they can be followed in every
`Closed` tree `t` with that node. -/
theorem follow_of_node? (ht : t.Closed) {names : List String} (hup : ".." ∉ names) {n : Node}
    (hn : t.node? place' = some n) (hn' : t'.node? place' = some n)
    (h : t'.follow place names = .ok place') : t.follow place names = .ok place' := by
  induction names generalizing place with
  | nil => exact h
  | cons name r ih =>
      obtain ⟨p, hstep, hrest⟩ := bind_eq_ok h
      -- the place of this step is the end, or above it: a directory in either case
      have hdirectory : t.node? place = some .directory := by
        obtain ⟨rest, rfl⟩ := isPrefix_of_follow hup h
        by_cases hnil : rest = []
        · rw [hnil, List.append_nil] at hn hn'
          rw [hn, ← hn', node?_of_step hstep]
        · exact ht.above hnil hn
      have hstep' : t.step place name = .ok p := by
        rw [step, node?_of_step hstep] at hstep
        rw [step, hdirectory]
        exact hstep
      rw [follow, hstep']
      exact ih (fun hm => hup (List.mem_cons_of_mem _ hm)) hrest

/-! ### Trees with more directories and other files -/

/-- The `path` leads through `place`: some first part `ns` of its `Path.steps` ends there. -/
def Passes (t : Tree) (path : String) (place : List String) : Prop :=
  ∃ start ns ms, t.start path = .ok start ∧ Path.steps path = ns ++ ms ∧
    t.follow start ns = .ok place

theorem KeepsDirectories.passes (h : t.KeepsDirectories t') (hp : t.Passes path place) :
    t'.Passes path place := by
  obtain ⟨start, ns, ms, hstart, hsteps, hfollow⟩ := hp
  exact ⟨start, ns, ms, (h.start_eq path).trans hstart, hsteps, h.follow hfollow⟩

/-- A `path` without `..` `Passes` through places above the one that `locate` answers. -/
theorem Passes.isPrefix (hp : t.Passes path place) (hup : ".." ∉ Path.steps path)
    (h : t.locate path = .ok place') : place <+: place' := by
  obtain ⟨start, ns, ms, hstart, hsteps, hfollow⟩ := hp
  rw [locate, hstart, hsteps] at h
  change t.follow start (ns ++ ms) = .ok place' at h
  rw [follow_append, hfollow] at h
  rw [hsteps] at hup
  exact isPrefix_of_follow (fun hm => hup (List.mem_append_right ns hm)) h

/-- The tree `t'` has the directories of `t` and files where `t` has files.  Apart from the places
`own` it differs only by directories on the `way`, where nothing was. -/
structure Extends (own way : List String → Prop) (t t' : Tree) : Prop where
  keepsDirectories : t.KeepsDirectories t'
  file : ∀ place c, t.node? place = some (.file c) → ∃ c', t'.node? place = some (.file c')
  elsewhere : ∀ place, t'.node? place = t.node? place ∨ own place ∨
    t.node? place = none ∧ t'.node? place = some .directory ∧ way place
  closed : t.Closed → t'.Closed

namespace Extends

variable {own own' way way' : List String → Prop}

theorem refl (own way : List String → Prop) (t : Tree) : t.Extends own way t :=
  ⟨.refl t, fun _ c h => ⟨c, h⟩, fun _ => .inl rfl, id⟩

theorem mono (h : t.Extends own way t') (ho : ∀ place, own place → own' place)
    (hw : ∀ place, way place → way' place) : t.Extends own' way' t' := by
  refine ⟨h.keepsDirectories, h.file, fun place => ?_, h.closed⟩
  obtain heq | hown | ⟨hnone, hdirectory, hway⟩ := h.elsewhere place
  · exact .inl heq
  · exact .inr (.inl (ho place hown))
  · exact .inr (.inr ⟨hnone, hdirectory, hw place hway⟩)

theorem trans (h : t.Extends own way t') (h' : t'.Extends own way t'') :
    t.Extends own way t'' := by
  refine ⟨h.keepsDirectories.trans h'.keepsDirectories, fun place c hc => ?_, fun place => ?_,
    fun ht => h'.closed (h.closed ht)⟩
  · obtain ⟨c₁, hc₁⟩ := h.file place c hc
    exact h'.file place c₁ hc₁
  obtain heq | hown | ⟨hnone, hdirectory, hway⟩ := h.elsewhere place
  · obtain heq' | hown' | ⟨hnone', hdirectory', hway'⟩ := h'.elsewhere place
    · exact .inl (heq'.trans heq)
    · exact .inr (.inl hown')
    · exact .inr (.inr ⟨heq ▸ hnone', hdirectory', hway'⟩)
  · exact .inr (.inl hown)
  · -- a directory that was made is still there
    exact .inr (.inr ⟨hnone, h'.keepsDirectories.directory place hdirectory, hway⟩)

/-- Outside of `own` the files of `t` and `t'` are the same. -/
theorem node?_eq_file_iff (h : t.Extends own way t') (hplace : ¬ own place) {c : Contents} :
    t'.node? place = some (.file c) ↔ t.node? place = some (.file c) := by
  obtain heq | hown | ⟨hnone, hdirectory, -⟩ := h.elsewhere place
  · rw [heq]
  · exact absurd hown hplace
  · rw [hnone, hdirectory]
    exact ⟨nofun, nofun⟩

/-- **What `readText path` gives** in `t` it gives in `t'`, unless the `path` leads to a place of
`own`. -/
theorem readText (h : t.Extends own way t')
    (howner : ∀ place, t'.locate path = .ok place → ¬ own place) {s : String}
    (hread : t.readText path = .ok s) : t'.readText path = .ok s := by
  obtain ⟨place, hplace, hnode⟩ := exists_of_readText hread
  have hplace' := h.keepsDirectories.locate hplace
  exact readText_of_locate hplace' ((h.node?_eq_file_iff (howner place hplace')).2 hnode)

/-- Where `names` can be followed in `t'` only, `t` answers `notFound`: a directory on the way is
missing. -/
theorem eq_notFound_of_follow (h : t.Extends own way t') {names : List String} {e : DiskError}
    (hfollow : t'.follow place names = .ok place') (herror : t.follow place names = .error e) :
    e = .notFound := by
  induction names generalizing place with
  | nil => cases herror
  | cons name r ih =>
      obtain ⟨p, hstep, hrest⟩ := bind_eq_ok hfollow
      have hnode := node?_of_step hstep
      rw [follow, step] at herror
      cases hn : t.node? place with
      | none =>
          rw [hn] at herror
          exact (Except.error.inj herror).symm
      | some n =>
          cases n with
          | file c =>
              obtain ⟨c', hc'⟩ := h.file place c hn
              rw [hnode] at hc'
              cases hc'
          | directory =>
              rw [step, hnode] at hstep
              rw [hn] at herror
              dsimp only at hstep herror
              rw [hstep] at herror
              exact ih hrest herror

/-- **A text that can be read in `t'` only** lay in `t` before, behind a directory that was missing.
-/
theorem of_readText (h : t.Extends own way t')
    (howner : ∀ place, t'.locate path = .ok place → ¬ own place) {s : String}
    (hread : t'.readText path = .ok s) :
    t.readText path = .ok s ∨ t.locate path = .error .notFound ∧
      ∃ place, t'.locate path = .ok place ∧ t.node? place = some (.file (.text s)) := by
  obtain ⟨place, hplace, hnode⟩ := exists_of_readText hread
  have hnode' := (h.node?_eq_file_iff (howner place hplace)).1 hnode
  obtain ⟨start, hstart, hfollow⟩ := bind_eq_ok hplace
  rw [h.keepsDirectories.start_eq] at hstart
  cases hlocate : t.locate path with
  | ok p =>
      have hp := h.keepsDirectories.locate hlocate
      obtain rfl := Except.ok.inj (hplace.symm.trans hp)
      exact .inl (readText_of_locate hlocate hnode')
  | error e =>
      rw [locate, hstart] at hlocate
      rw [h.eq_notFound_of_follow hfollow hlocate]
      exact .inr ⟨rfl, place, hplace, hnode'⟩

/-- By a `path` without `..` nothing can be read in `t'` that could not be read in `t`. -/
theorem readText_of_no_up (h : t.Extends own way t') (ht : t.Closed)
    (howner : ∀ place, t'.locate path = .ok place → ¬ own place)
    (hup : ".." ∉ Path.steps path) {s : String} (hread : t'.readText path = .ok s) :
    t.readText path = .ok s := by
  obtain hdone | ⟨hlocate, place, hplace, hnode⟩ := h.of_readText howner hread
  · exact hdone
  · obtain ⟨start, hstart, hfollow⟩ := bind_eq_ok hplace
    rw [h.keepsDirectories.start_eq] at hstart
    have hnode' := (h.node?_eq_file_iff (howner place hplace)).2 hnode
    rw [locate, hstart] at hlocate
    cases hlocate.symm.trans (follow_of_node? ht hup hnode hnode' hfollow)

end Extends

/-! ### Making directories -/

/-- A directory put to a `place'` where nothing is makes a tree that `Extends` `t` on the way
`(· = place')`. -/
theorem extends_put_directory (hstep : t.step place name = .ok place')
    (hnone : t.node? place' = none) :
    t.Extends (fun _ => False) (· = place') (t.put place' .directory) := by
  have hroot : place' ≠ [] := fun hroot => by
    rw [hroot] at hnone
    cases hnone
  refine ⟨keepsDirectories_put .directory (by simp [hnone]), fun q c hc => ⟨c, ?_⟩, fun q => ?_,
    fun ht => ?_⟩
  · rw [node?_put t _ hroot, if_neg, hc]
    rintro rfl
    rw [hnone] at hc
    cases hc
  · rw [node?_put t _ hroot]
    split
    · next hq => exact .inr (.inr ⟨hq ▸ hnone, rfl, hq⟩)
    · exact .inl rfl
  · rw [eq_of_step_of_node? ht hstep (by simp [hnone])]
    exact closed_put ht (node?_of_step hstep) (.inl rfl)

/-- Calling `makeAlong` with `names` changes nothing but the places that the first parts `ns` of
`names` lead to. -/
theorem extends_makeAlong (names : List String) (t : Tree) (made : Bool) (place : List String) :
    t.Extends (fun _ => False)
      (fun q => ∃ ns ms, names = ns ++ ms ∧
        (t.makeAlong made place names).2.follow place ns = .ok q)
      (t.makeAlong made place names).2 := by
  induction names generalizing t made place with
  | nil => exact .refl _ _ t
  | cons name r ih =>
      rw [makeAlong]
      cases hstep : t.step place name with
      | error e => exact .refl _ _ t
      | ok p =>
          dsimp only
          -- what some steps of the rest lead to is led to by this step and those
          have hway : ∀ {made : Bool} {t₁ : Tree}, t.KeepsDirectories t₁ → ∀ q,
              (∃ ns ms, r = ns ++ ms ∧ (t₁.makeAlong made p r).2.follow p ns = .ok q) →
              ∃ ns ms, name :: r = ns ++ ms ∧
                (t₁.makeAlong made p r).2.follow place ns = .ok q := by
            rintro made t₁ hkeeps q ⟨ns, ms, rfl, hfollow⟩
            refine ⟨name :: ns, ms, rfl, ?_⟩
            rw [follow, (hkeeps.trans (ih t₁ made p).keepsDirectories).step hstep]
            exact hfollow
          split
          · exact (ih t made p).mono (fun _ h => h) (hway (.refl t))
          · exact .refl _ _ t
          · next hnone =>
            have hput := extends_put_directory hstep hnone
            refine (hput.mono (fun _ h => h) ?_).trans
              ((ih _ true p).mono (fun _ h => h) (hway hput.keepsDirectories))
            rintro _ rfl
            exact hway hput.keepsDirectories _ ⟨[], r, rfl, rfl⟩

/-- **Calling `createDirectories path`** changes nothing but the places that the `path` `Passes`. -/
theorem extends_createDirectories (t : Tree) (path : String) :
    t.Extends (fun _ => False) ((t.createDirectories path).2.Passes path)
      (t.createDirectories path).2 := by
  unfold createDirectories
  split
  · exact .refl _ _ t
  · split
    · exact .refl _ _ t
    · next start hstart =>
      have hmake := extends_makeAlong (Path.steps path) t false start
      refine hmake.mono (fun _ h => h) ?_
      rintro q ⟨ns, ms, hsteps, hfollow⟩
      exact ⟨start, ns, ms, (hmake.keepsDirectories.start_eq path).trans hstart, hsteps, hfollow⟩

/-! ### Writing a file -/

/-- **Writing to `Path.join base name`** changes nothing but the place that this path leads to. -/
theorem extends_write {base : String} {c : Contents} (hname : Path.IsFileName name)
    (h : t.write (Path.join base name) c = .ok t') :
    t.Extends (fun q => t'.locate (Path.join base name) = .ok q) (fun _ => False) t' := by
  obtain ⟨target, htarget, hdirectory, rfl⟩ := exists_put_of_write h
  have hput := keepsDirectories_put (.file c) hdirectory
  have hroot : target ≠ [] := fun hroot => hdirectory (by rw [hroot]; rfl)
  refine ⟨hput, fun q c' hc' => ?_, fun q => ?_, fun ht => ?_⟩
  · rw [node?_put t _ hroot]
    split
    · exact ⟨c, rfl⟩
    · exact ⟨c', hc'⟩
  · by_cases hq : q = target
    · exact .inr (.inl (hq ▸ hput.locate htarget))
    · rw [node?_put t _ hroot, if_neg hq]
      exact .inl rfl
  · obtain ⟨origin, -, hfollow⟩ := bind_eq_ok htarget
    rw [Path.steps_join hname, follow_append] at hfollow
    obtain ⟨d, -, hfollow⟩ := bind_eq_ok hfollow
    obtain ⟨p, hstep, hp⟩ := bind_eq_ok hfollow
    obtain rfl := Except.ok.inj hp
    obtain rfl := eq_of_step hstep hname
    exact closed_put ht (node?_of_step hstep) (.inr hdirectory)

end EmulatorSettings.Tree
