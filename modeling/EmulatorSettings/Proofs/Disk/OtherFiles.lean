import EmulatorSettings.Proofs.Disk.Joining
import EmulatorSettings.Proofs.Disk.WriteRead

/-!
# Disk — files that are not written

Making directories and writing a file leave what other files hold.  That two paths lead to different
places is seen from their last names: wherever the steps before lead, the last one leads to
something of that name.

* `exists_place_of_locate`: a path that was joined with the name of a file leads to a place of that
  name.
* `grows_createDirectories`, `Grows.readText`: making directories takes nothing away, so a text that
  can be read can still be read.
* `readText_of_write_elsewhere`: a write leaves the files of other names as they are.
-/

namespace EmulatorSettings

namespace Tree

variable {t t' t'' : Tree} {place place' : List String} {path name : String}

/-! ### The last step of a path -/

theorem follow_append (t : Tree) (place : List String) (ns ms : List String) :
    t.follow place (ns ++ ms) = t.follow place ns >>= fun p => t.follow p ms := by
  induction ns generalizing place with
  | nil => rfl
  | cons n ns ih =>
      rw [List.cons_append, follow, follow]
      cases t.step place n with
      | error e => rfl
      | ok p => exact ih p

theorem eq_of_step (h : t.step place name = .ok place') (hname : Path.IsFileName name) :
    place' = place ++ [name] := by
  unfold step at h
  rw [if_neg hname.ne_here, if_neg hname.ne_above] at h
  split at h
  · cases h
  · cases h
  · split at h
    · cases h
    · exact (Except.ok.inj h).symm

/-- **A path `Path.join base name`** leads to a place whose last name is `name`. -/
theorem exists_place_of_locate (hname : Path.IsFileName name) {base : String}
    (h : t.locate (Path.join base name) = .ok place) : ∃ q, place = q ++ [name] := by
  obtain ⟨origin, -, h⟩ := bind_eq_ok h
  rw [Path.steps_join hname, follow_append] at h
  obtain ⟨q, -, h⟩ := bind_eq_ok h
  obtain ⟨p, hstep, hp⟩ := bind_eq_ok h
  obtain rfl := Except.ok.inj hp
  exact ⟨q, eq_of_step hstep hname⟩

/-- Where `Path.join base name` starts, a nonempty `base` starts too. -/
theorem start_of_join (hname : Path.IsFileName name) {base : String} (hbase : base ≠ "")
    (h : t.start (Path.join base name) = .ok place) : t.start base = .ok place := by
  obtain ⟨s, hs⟩ := Path.exists_join_eq_append hname base
  have habsolute := Path.isAbsolute_join hname base
  rw [hs] at h habsolute
  obtain ⟨p, horigin, hp⟩ := bind_eq_ok h
  have horigin' : t.origin base = .ok p := by
    rw [origin] at horigin ⊢
    split at horigin
    · cases horigin
    · next hnull =>
      have hnull' : ¬ base.toList.contains '\x00' = true := fun hm => hnull <| by
        rw [List.contains_iff_mem] at hm ⊢
        rw [String.toList_append]
        exact List.mem_append_left _ hm
      rw [if_neg hnull', if_neg hbase, ← habsolute]
      split at horigin
      · cases horigin
      · exact horigin
  rw [start, horigin']
  split at hp
  · cases hp
  · next hlong =>
    rw [String.utf8ByteSize_append] at hlong
    exact (if_neg fun hlong' => hlong (Nat.le_add_right_of_le hlong')).trans hp

/-- **The directory of `Path.join base name`** is where `base` leads to: the path ends at
`d ++ [name]`. -/
theorem exists_directory_of_locate (hname : Path.IsFileName name) {base : String}
    (hbase : base ≠ "") (hslash : Path.endsInSlash base = false)
    (h : t.locate (Path.join base name) = .ok place) :
    ∃ d, t.locate base = .ok d ∧ t.node? d = some .directory ∧ place = d ++ [name] := by
  obtain ⟨origin, hstart, h⟩ := bind_eq_ok h
  rw [Path.steps_join hname, follow_append] at h
  obtain ⟨d, hfollow, h⟩ := bind_eq_ok h
  obtain ⟨p, hstep, hp⟩ := bind_eq_ok h
  obtain rfl := Except.ok.inj hp
  refine ⟨d, ?_, node?_of_step hstep, eq_of_step hstep hname⟩
  rw [locate, start_of_join hname hbase hstart, Path.steps, hslash]
  exact hfollow

/-! ### Trees with more in them -/

/-- Whatever `node?` finds in `t` it finds in `t'`, which has the same `workingDirectory`. -/
structure Grows (t t' : Tree) : Prop where
  workingDirectory_eq : t'.workingDirectory = t.workingDirectory
  node?_eq : ∀ place n, t.node? place = some n → t'.node? place = some n

theorem Grows.refl (t : Tree) : t.Grows t :=
  ⟨rfl, fun _ _ h => h⟩

theorem Grows.trans (h : t.Grows t') (h' : t'.Grows t'') : t.Grows t'' :=
  ⟨h'.workingDirectory_eq.trans h.workingDirectory_eq,
    fun place n hn => h'.node?_eq place n (h.node?_eq place n hn)⟩

/-- A tree `Grows` when something is `put` where nothing was. -/
theorem grows_put (h : t.node? place = none) (n : Node) : t.Grows (t.put place n) := by
  refine ⟨rfl, fun p m hm => ?_⟩
  have hroot : place ≠ [] := fun hroot => by
    rw [hroot] at h
    cases h
  rw [node?_put t n hroot, if_neg, hm]
  rintro rfl
  rw [h] at hm
  cases hm

theorem Grows.keepsDirectories (h : t.Grows t') : t.KeepsDirectories t' :=
  ⟨h.workingDirectory_eq, fun place => h.node?_eq place .directory⟩

/-- A text that `readText` gives lies in a file at the end of the `path`. -/
theorem exists_of_readText {s : String} (h : t.readText path = .ok s) :
    ∃ place, t.locate path = .ok place ∧ t.node? place = some (.file (.text s)) := by
  obtain ⟨place, hplace, h⟩ := bind_eq_ok h
  refine ⟨place, hplace, ?_⟩
  split at h
  · cases h
  · cases h
  · next hnode => rw [hnode, Except.ok.inj h]
  · cases h

/-- **A text that `readText path` gives** is still given when the tree `Grows`. -/
theorem Grows.readText (h : t.Grows t') {s : String} (hread : t.readText path = .ok s) :
    t'.readText path = .ok s := by
  obtain ⟨place, hplace, hnode⟩ := exists_of_readText hread
  exact readText_of_locate (h.keepsDirectories.locate hplace) (h.node?_eq _ _ hnode)

/-- Calling `makeAlong` takes nothing away, also if it fails on the way. -/
theorem grows_makeAlong (names : List String) (t : Tree) (made : Bool) (place : List String) :
    t.Grows (t.makeAlong made place names).2 := by
  induction names generalizing t made place with
  | nil => exact .refl t
  | cons name r ih =>
      rw [makeAlong]
      split
      · exact .refl t
      · split
        · exact ih t made _
        · exact .refl t
        · next hnone => exact (grows_put hnone .directory).trans (ih _ true _)

theorem grows_createDirectories (t : Tree) (path : String) :
    t.Grows (t.createDirectories path).2 := by
  unfold createDirectories
  split
  · exact .refl t
  · split
    · exact .refl t
    · exact grows_makeAlong _ t false _

/-! ### Writing another file -/

/-- **A `write` to a file called `name`** leaves the files of every other name `name'` as they are.
-/
theorem readText_of_write_elsewhere {base base' name' : String} {c : Contents} {s : String}
    (hname : Path.IsFileName name) (hname' : Path.IsFileName name') (hne : name' ≠ name)
    (hwrite : t.write (Path.join base name) c = .ok t')
    (hread : t.readText (Path.join base' name') = .ok s) :
    t'.readText (Path.join base' name') = .ok s := by
  obtain ⟨target, htarget, hdirectory, rfl⟩ := exists_put_of_write hwrite
  obtain ⟨place, hplace, hnode⟩ := exists_of_readText hread
  obtain ⟨q, rfl⟩ := exists_place_of_locate hname htarget
  obtain ⟨q', rfl⟩ := exists_place_of_locate hname' hplace
  have hplaces : q' ++ [name'] ≠ q ++ [name] := fun heq =>
    hne (List.cons.inj (List.append_inj_right' heq rfl)).1
  have hroot : q ++ [name] ≠ [] := by simp
  refine readText_of_locate ((keepsDirectories_put _ hdirectory).locate hplace) ?_
  rw [node?_put t _ hroot, if_neg hplaces, hnode]

end Tree

end EmulatorSettings
