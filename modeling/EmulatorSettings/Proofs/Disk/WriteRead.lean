import EmulatorSettings.Disk.Tree

/-!
# Disk — reading what was written

* `KeepsDirectories.follow`: what can be followed in a tree can be followed wherever its directories
  are.
* `keepsDirectories_put`: a file that is put down is in nobody's way, as long as it is not put over
  a directory.
* `readText_of_write`: a file that was written as text is read as that text.
-/

namespace EmulatorSettings.Tree

theorem bind_eq_ok {ε α β : Type} {x : Except ε α} {f : α → Except ε β} {b : β}
    (h : (x >>= f) = .ok b) : ∃ a, x = .ok a ∧ f a = .ok b := by
  cases x with
  | error e => cases h
  | ok a => exact ⟨a, rfl, h⟩

/-- Every `step` is taken from a directory. -/
theorem node?_of_step {t : Tree} {place place' : List String} {name : String}
    (h : t.step place name = .ok place') : t.node? place = some .directory := by
  unfold step at h
  split at h
  · cases h
  · cases h
  · assumption

/-! ### Directories that stay -/

/-- Every directory of `t` is one in `t'` too, and the `workingDirectory` is the same. -/
structure KeepsDirectories (t t' : Tree) : Prop where
  workingDirectory_eq : t'.workingDirectory = t.workingDirectory
  directory : ∀ place, t.node? place = some .directory → t'.node? place = some .directory

namespace KeepsDirectories

variable {t t' t'' : Tree} {place place' : List String} {name path : String}

theorem refl (t : Tree) : t.KeepsDirectories t :=
  ⟨rfl, fun _ h => h⟩

theorem trans (h : t.KeepsDirectories t') (h' : t'.KeepsDirectories t'') :
    t.KeepsDirectories t'' :=
  ⟨h'.workingDirectory_eq.trans h.workingDirectory_eq,
    fun place hp => h'.directory place (h.directory place hp)⟩

theorem step (h : t.KeepsDirectories t') (hstep : t.step place name = .ok place') :
    t'.step place name = .ok place' := by
  have hnode := node?_of_step hstep
  rw [Tree.step, hnode] at hstep
  rw [Tree.step, h.directory _ hnode]
  exact hstep

/-- **Whatever `names` could be followed** in `t` can be followed in a tree that `KeepsDirectories`.
-/
theorem follow (h : t.KeepsDirectories t') {names : List String}
    (hfollow : t.follow place names = .ok place') : t'.follow place names = .ok place' := by
  induction names generalizing place with
  | nil => exact hfollow
  | cons name r ih =>
      obtain ⟨p, hstep, hrest⟩ := bind_eq_ok hfollow
      rw [Tree.follow, h.step hstep]
      exact ih hrest

theorem origin_eq (h : t.KeepsDirectories t') (path : String) : t'.origin path = t.origin path := by
  rw [origin, origin, h.workingDirectory_eq]

theorem start_eq (h : t.KeepsDirectories t') (path : String) : t'.start path = t.start path := by
  rw [start, start, h.origin_eq]

theorem locate (h : t.KeepsDirectories t') (hlocate : t.locate path = .ok place) :
    t'.locate path = .ok place := by
  obtain ⟨p, hstart, hfollow⟩ := bind_eq_ok hlocate
  rw [Tree.locate, h.start_eq, hstart]
  exact h.follow hfollow

end KeepsDirectories

/-- **A `put` of a node `n`** takes no directory away, as long as none is at `target`. -/
theorem keepsDirectories_put {t : Tree} {target : List String} (n : Node)
    (ht : t.node? target ≠ some .directory) : t.KeepsDirectories (t.put target n) := by
  have hroot : target ≠ [] := fun hroot => ht (by rw [hroot]; rfl)
  refine ⟨rfl, fun place hplace => ?_⟩
  have hne : place ≠ target := fun heq => ht (heq ▸ hplace)
  rw [node?_put t n hroot, if_neg hne, hplace]

/-! ### Writing and reading -/

theorem readText_of_locate {t : Tree} {path s : String} {place : List String}
    (hplace : t.locate path = .ok place) (hnode : t.node? place = some (.file (.text s))) :
    t.readText path = .ok s := by
  rw [readText, hplace]
  simp only [bind, Except.bind, hnode]

/-- A `write` that succeeds is a `put` of the file at the end of the `path`, where no directory is.
-/
theorem exists_put_of_write {t t' : Tree} {path : String} {c : Contents}
    (h : t.write path c = .ok t') :
    ∃ place, t.locate path = .ok place ∧ t.node? place ≠ some .directory ∧
      t' = t.put place (.file c) := by
  obtain ⟨start, hstart, h⟩ := bind_eq_ok h
  split at h
  · -- a path that asks for a directory is never written to
    obtain ⟨_, -, h⟩ := bind_eq_ok h
    cases h
  · next hslash =>
    obtain ⟨place, hfollow, h⟩ := bind_eq_ok h
    split at h
    · cases h
    · next hplace =>
      have hlocate : t.locate path = .ok place := by
        rw [locate, hstart, Path.steps, if_neg hslash]
        exact hfollow
      exact ⟨place, hlocate, hplace, (Except.ok.inj h).symm⟩

/-- **What `write` has written** as text, `readText` reads. -/
theorem readText_of_write {t t' : Tree} {path s : String}
    (h : t.write path (.text s) = .ok t') : t'.readText path = .ok s := by
  obtain ⟨place, hlocate, hplace, rfl⟩ := exists_put_of_write h
  have hroot : place ≠ [] := fun hroot => hplace (by rw [hroot]; rfl)
  refine readText_of_locate ((keepsDirectories_put _ hplace).locate hlocate) ?_
  rw [node?_put t _ hroot, if_pos rfl]

end EmulatorSettings.Tree
