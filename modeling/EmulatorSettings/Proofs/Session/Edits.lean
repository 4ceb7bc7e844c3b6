import EmulatorSettings.Proofs.Ini.Readable
import EmulatorSettings.Session.Basic

/-!
# Sessions — edits

What the edits of a session do to the sections of its file, whether they are refused or not.

* `Session.edit_eq_ok`: what an accepted edit leads to.
* `Session.changedAt_set`, `changedAt_remove`, `exists_put`: what an edit does to the look-ups.
* `FileEdit.keeps`: an edit changes what stands under the key it touches, and nothing else; and it
  leaves entries that can be read, if what it stores is checked.
-/

namespace EmulatorSettings

/-- An edit of the file of a session: a setting that is put, a key that is given a value, unchecked
by `set` or checked by `trySet`, or a key that is removed. -/
inductive FileEdit where
  | put (n k : String) (v : Value)
  | set (n k : String) (v : Value)
  | trySet (n k : String) (v : Value)
  | remove (n k : String)

namespace FileEdit

/-- The session `s` after an edit, or why that was refused. -/
def run (s : Session) : FileEdit → Except StoreError Session
  | put n k v    => (s.put ⟨k, n, s.file, v⟩).map (·.2)
  | set n k v    => (s.edit fun t => .ok (t.set s.file n k v)).map (·.2)
  | trySet n k v => (s.edit fun t => t.trySet s.file n k v).map (·.2)
  | remove n k   =>
    (s.edit fun t =>
      let (removed, t) := t.remove s.file n k
      .ok (removed.isSome, t)).map (·.2)

/-- The session `s` after the edit `e`, or as it was if that was refused. -/
def apply (s : Session) (e : FileEdit) : Session :=
  (e.run s).toOption.getD s

/-- Whether an edit writes or removes the key `k` of the section `n`.  A refused one does neither,
and removing a key that is not there removes nothing. -/
def Touches (s : Session) (n k : String) : FileEdit → Prop
  | put n' k' _    => n = n' ∧ k = k'
  | set n' k' _    => n = n' ∧ k = k'
  | trySet n' k' v => (n = n' ∧ k = k') ∧ checkName n' = .ok () ∧ checkEntry k' v = .ok ()
  | remove n' k'   => (n = n' ∧ k = k') ∧ s.sections.get? n k ≠ none

/-- An edit that stores nothing but what passes `checkName` and `checkEntry`. -/
def Checked : FileEdit → Prop
  | put n k v  => checkName n = .ok () ∧ checkEntry k v = .ok ()
  | set n k v  => checkName n = .ok () ∧ checkEntry k v = .ok ()
  | trySet ..  => True
  | remove ..  => True

end FileEdit

/-! ### What one edit does -/

/-- The `sections` in memory belong to the `file` of the session, and are `WellStored`. -/
structure Session.Sound (s : Session) : Prop where
  file_eq : s.sections.file = s.file
  wellStored : s.sections.WellStored

/-- The session `t` is `s` with `x`, a setting or none, under `n` and `k`. -/
structure Session.ChangedAt (s t : Session) (n k : String) (x : Option Setting) : Prop where
  file_eq : t.file = s.file
  isLoaded_eq : t.isLoaded = s.isLoaded
  sound : t.Sound
  get?_eq : ∀ n' k', t.sections.get? n' k' =
    if n' = n ∧ k' = k then x else s.sections.get? n' k'

namespace Session

theorem edit_eq_ok {ε : Type} {s t : Session} {work : Settings → Except ε (Bool × Settings)}
    {changed : Bool} :
    s.edit work = .ok (changed, t) ↔ ∃ u, work s.settings = .ok (changed, u) ∧
      t = { s with settings := u, isDirty := s.isDirty || changed } := by
  unfold edit
  cases work s.settings with
  | error e => simp [Except.map]
  | ok r =>
      obtain ⟨reported, u⟩ := r
      simp only [Except.map, Except.ok.injEq, Prod.mk.injEq]
      constructor
      · rintro ⟨rfl, rfl⟩
        exact ⟨u, ⟨rfl, rfl⟩, rfl⟩
      · rintro ⟨_, ⟨rfl, rfl⟩, rfl⟩
        exact ⟨rfl, rfl⟩

/-- An edit that leaves the session with sections `m` in which one setting is changed. -/
theorem changedAt_of_file? {s : Session} {settings : Settings} {m : FileSections}
    (h : settings.file? s.file = some m) (dirty : Bool) (hfile : m.file = s.file)
    (hm : m.WellStored) {n k : String} {x : Option Setting}
    (hget : ∀ n' k', m.get? n' k' = if n' = n ∧ k' = k then x else s.sections.get? n' k') :
    s.ChangedAt { s with settings := settings, isDirty := dirty } n k x := by
  have hsections : sections { s with settings := settings, isDirty := dirty } = m :=
    Settings.fileOrNew_of_file? h
  refine ⟨rfl, rfl, ⟨?_, ?_⟩, ?_⟩
  · rw [hsections, hfile]
  · rwa [hsections]
  · rwa [hsections]

theorem changedAt_set {s : Session} (hs : s.Sound) (n k : String) (v : Value) (dirty : Bool) :
    s.ChangedAt { s with settings := (s.settings.set s.file n k v).2, isDirty := dirty } n k
      (some ⟨k, n, s.file, v⟩) := by
  have hget := FileSections.get?_set hs.wellStored n k v
  rw [hs.file_eq] at hget
  exact changedAt_of_file? (s.settings.file?_set s.file n k v) dirty hs.file_eq
    (FileSections.wellStored_set hs.wellStored n k v) hget

theorem changedAt_remove {s : Session} (hs : s.Sound) (n k : String) (dirty : Bool) :
    s.ChangedAt { s with settings := (s.settings.remove s.file n k).2, isDirty := dirty } n k
      none :=
  changedAt_of_file? (s.settings.file?_remove s.file n k) dirty hs.file_eq
    (FileSections.wellStored_remove hs.wellStored n k) (FileSections.get?_remove s.sections n k)

/-- A setting of the session's own file is always taken by `put`. -/
theorem exists_put {s : Session} (hs : s.Sound) (n k : String) (v : Value) :
    ∃ replaced t, s.put ⟨k, n, s.file, v⟩ = .ok (replaced, t) ∧
      s.ChangedAt t n k (some ⟨k, n, s.file, v⟩) := by
  obtain ⟨m, hput, hfile, hm, hget⟩ :=
    FileSections.exists_put hs.wellStored (x := ⟨k, n, s.file, v⟩) hs.file_eq.symm
  have hsettings : s.settings.put ⟨k, n, s.file, v⟩ =
      .ok (s.sections.get? n k, ⟨s.settings.files.insert s.file m⟩) := by
    rw [Settings.put]
    exact congrArg (Except.map _) hput
  refine ⟨s.sections.get? n k, _, congrArg (Except.map _) hsettings, ?_⟩
  exact changedAt_of_file? (Table.get?_insert_self _ _ _) true (hfile.trans hs.file_eq) hm hget

namespace ChangedAt

variable {s t : Session} {n k : String} {x : Option Setting}

theorem readable (h : s.ChangedAt t n k x)
    (hx : ∀ y ∈ x, '\n' ∉ n.toList ∧ Ini.ReadableEntry k.toList y.value.written.toList)
    (hs : Ini.Readable s.sections) : Ini.Readable t.sections := by
  intro n' k' y hy
  rw [h.get?_eq] at hy
  split at hy
  · next hat =>
      obtain ⟨rfl, rfl⟩ := hat
      exact hx y hy
  · exact hs n' k' y hy

end ChangedAt

/-- What the session `t` keeps of `s`: its file, what `Touches` leaves out, and readable entries if
`Checked` holds. -/
structure Keeps (s t : Session) (Touches : String → String → Prop) (Checked : Prop) : Prop where
  file_eq : t.file = s.file
  sound : t.Sound
  get?_eq : ∀ n k, ¬ Touches n k → t.sections.get? n k = s.sections.get? n k
  readable : Checked → Ini.Readable s.sections → Ini.Readable t.sections

theorem Keeps.refl {s : Session} (hs : s.Sound) (Touches : String → String → Prop)
    (Checked : Prop) : s.Keeps s Touches Checked :=
  ⟨rfl, hs, fun _ _ _ => rfl, fun _ h => h⟩

/-- A change under `n` and `k` keeps the rest, unless that key was touched. -/
theorem ChangedAt.keeps {s t : Session} {n k : String} {x : Option Setting}
    (h : s.ChangedAt t n k x) {Touches : String → String → Prop} {Checked : Prop}
    (htouches : Touches n k ∨ x = s.sections.get? n k)
    (hreadable : Checked → ∀ y ∈ x,
      '\n' ∉ n.toList ∧ Ini.ReadableEntry k.toList y.value.written.toList) :
    s.Keeps t Touches Checked := by
  refine ⟨h.file_eq, h.sound, fun n' k' hn => ?_, fun hc => h.readable (hreadable hc)⟩
  rw [h.get?_eq]
  split
  · next hat =>
      obtain ⟨rfl, rfl⟩ := hat
      exact htouches.resolve_left hn
  · rfl

end Session

namespace FileEdit

/-- A `trySet` is a `set` if the value passes the checks. -/
theorem apply_trySet_of_checked {s : Session} {n k : String} {v : Value}
    (hn : checkName n = .ok ()) (hk : checkEntry k v = .ok ()) :
    (trySet n k v).apply s = (set n k v).apply s := by
  have htry := (Settings.trySet_eq_ok (s := s.settings) s.file).2 ⟨hn, hk, rfl⟩
  rw [apply, run, Session.edit, htry]
  rfl

theorem apply_trySet_of_not_checked {s : Session} {n k : String} {v : Value}
    (h : ¬ (checkName n = .ok () ∧ checkEntry k v = .ok ())) : (trySet n k v).apply s = s := by
  rw [apply, run, Session.edit]
  cases htry : s.settings.trySet s.file n k v with
  | error e => rfl
  | ok r =>
      obtain ⟨hn, hk, -⟩ := (Settings.trySet_eq_ok s.file).1 htry
      exact absurd ⟨hn, hk⟩ h

/-- **What an edit keeps**: all that it does not touch. -/
theorem keeps {s : Session} (hs : s.Sound) (e : FileEdit) :
    (e.apply s).isLoaded = s.isLoaded ∧ s.Keeps (e.apply s) (e.Touches s) e.Checked := by
  cases e with
  | put n k v =>
      obtain ⟨replaced, t, hput, h⟩ := Session.exists_put hs n k v
      have happly : (put n k v).apply s = t := by rw [apply, run, hput]; rfl
      rw [happly]
      exact ⟨h.isLoaded_eq, h.keeps (.inl ⟨rfl, rfl⟩)
        fun hc y hy => Option.some.inj hy ▸ Ini.readable_of_checked hc⟩
  | set n k v =>
      have h := Session.changedAt_set hs n k v (s.isDirty || (s.settings.set s.file n k v).1)
      exact ⟨rfl, h.keeps (.inl ⟨rfl, rfl⟩)
        fun hc y hy => Option.some.inj hy ▸ Ini.readable_of_checked hc⟩
  | trySet n k v =>
      by_cases hpass : checkName n = .ok () ∧ checkEntry k v = .ok ()
      · rw [apply_trySet_of_checked hpass.1 hpass.2]
        have h := Session.changedAt_set hs n k v (s.isDirty || (s.settings.set s.file n k v).1)
        exact ⟨rfl, h.keeps (.inl ⟨⟨rfl, rfl⟩, hpass⟩)
          fun _ y hy => Option.some.inj hy ▸ Ini.readable_of_checked hpass⟩
      · -- a refused edit touches nothing
        rw [apply_trySet_of_not_checked hpass]
        exact ⟨rfl, .refl hs _ _⟩
  | remove n k =>
      have h := Session.changedAt_remove hs n k
        (s.isDirty || (s.settings.remove s.file n k).1.isSome)
      refine ⟨rfl, h.keeps ?_ fun _ _ hy => by cases hy⟩
      by_cases hget : s.sections.get? n k = none
      · exact .inr hget.symm
      · exact .inl ⟨⟨rfl, rfl⟩, hget⟩

end FileEdit

end EmulatorSettings
