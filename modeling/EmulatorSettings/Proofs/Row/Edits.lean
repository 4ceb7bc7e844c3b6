import EmulatorSettings.Proofs.Row.Presentable

/-!
# Rows — edits

* `InputBinding.accepts_iff`: the bindings that are accepted.
* `Control.exists_stores`: every edit that is accepted, of whatever control, sets one value at the
  address of the control, and nothing but the value that was there matters for which one.
* `Control.wellStored_edit`: so it leaves settings well stored.
* `Control.exists_readable_of_edit`: at an address that can be stored the value can be read back.
-/

namespace EmulatorSettings

/-- A `binding` is accepted by `bind`, whatever the settings are. -/
def InputBinding.Accepts (b : InputBinding) (binding : String) : Prop :=
  ∃ s r, b.bind s binding = .ok r

/-- What `bind` sets for a `binding` that is accepted. -/
theorem InputBinding.bind_eq_ok {b : InputBinding} {s : Settings} {binding : String}
    {r : Bool × Settings} :
    b.bind s binding = .ok r ↔ checkName b.address.sectionName = .ok () ∧
      checkEntry b.address.key (.text binding) = .ok () ∧
        r = b.address.set s (.text binding) := by
  unfold bind
  cases htry : s.trySet b.address.file b.address.sectionName b.address.key (.text binding) with
  | error e =>
      refine ⟨nofun, ?_⟩
      rintro ⟨hname, hentry, -⟩
      rw [(Settings.trySet_eq_ok _).2 ⟨hname, hentry, rfl⟩] at htry
      cases htry
  | ok r' =>
      obtain ⟨hname, hentry, rfl⟩ := (Settings.trySet_eq_ok _).1 htry
      constructor
      · intro h
        exact ⟨hname, hentry, (Except.ok.inj h).symm⟩
      · rintro ⟨-, -, rfl⟩
        rfl

/-- **The bindings that are accepted** are those that pass `checkName` and `checkEntry`. -/
theorem InputBinding.accepts_iff {b : InputBinding} {binding : String} :
    b.Accepts binding ↔ checkName b.address.sectionName = .ok () ∧
      checkEntry b.address.key (.text binding) = .ok () := by
  constructor
  · rintro ⟨s, r, h⟩
    obtain ⟨hname, hentry, -⟩ := bind_eq_ok.1 h
    exact ⟨hname, hentry⟩
  · rintro ⟨hname, hentry⟩
    exact ⟨.empty, _, bind_eq_ok.2 ⟨hname, hentry, rfl⟩⟩

/-! ### What a slider stores -/

namespace Binary32

theorem ofRatio_ne_nan (negative : Bool) (num den : Nat) : ofRatio negative num den ≠ nan := by
  unfold ofRatio
  split
  · nofun
  · nofun

theorem scale_ne_nan {x : Binary32} (h : x ≠ nan) (num den : Nat) : x.scale num den ≠ nan := by
  cases x with
  | nan => exact absurd rfl h
  | infinity s => nofun
  | finite s n => exact ofRatio_ne_nan _ _ _

end Binary32

namespace Slider

/-- A slider stores over its own `stored` value what it stored before. -/
theorem stored_stored (l : Slider) (present : Option Value) (p : Int32) :
    l.stored (some (l.stored present p)) p = l.stored present p := by
  unfold stored
  cases l.storage with
  | fraction => rfl
  | integer =>
      cases present with
      | none => rfl
      | some v => cases v <;> rfl

theorem stored_ne_nan (l : Slider) (present : Option Value) (p : Int32) :
    l.stored present p ≠ .float .nan := by
  have hwhole := Binary32.ofRatio_ne_nan (p.toInt < 0) p.toInt.natAbs 1
  intro h
  unfold stored at h
  split at h
  · exact Binary32.scale_ne_nan hwhole 1 100 (Value.float.inj h)
  · exact hwhole (Value.float.inj h)
  · cases h

end Slider

/-! ### Accepted edits -/

namespace Control

open Ini (Presentable ReadableEntry)

variable {s : Settings} {c : Control} {e : Edit} {r : Bool × Settings}

/-- The edit `e` of the control `c` is accepted whatever the settings are, and stores what `store`
makes of the value that is there.  Stored over itself that value stays the same, it is never NaN,
and its text is presentable or was checked. -/
structure Stores (c : Control) (e : Edit) (store : Option Value → Value) : Prop where
  edit_eq : ∀ s, c.edit s e = .ok (c.address.set s (store (c.address.value? s)))
  settled : ∀ present, store (some (store present)) = store present
  ne_nan : ∀ present, store present ≠ .float .nan
  readable : ∀ present, Presentable (store present).written.toList ∨
    checkEntry c.address.key (store present) = .ok ()

/-- An edit that stores the same value `v` over everything. -/
theorem stores_const {v : Value} (hv : v ≠ .float .nan)
    (hread : Presentable v.written.toList ∨ checkEntry c.address.key v = .ok ())
    (h : ∀ s, c.edit s e = .ok (c.address.set s v)) : c.Stores e fun _ => v :=
  ⟨h, fun _ => rfl, fun _ => hv, fun _ => hread⟩

/-- **Every edit that is accepted** `Stores` by some function. -/
theorem exists_stores (h : c.edit s e = .ok r) : ∃ store, c.Stores e store := by
  unfold edit at h
  split at h
  · next b checked =>
    exact ⟨_, stores_const (by nofun) (.inl (Value.presentable_int _)) fun _ => rfl⟩
  · next l p =>
    -- only a slider looks at the kind of what is there
    unfold Slider.move at h
    split at h
    · next q hq =>
      refine ⟨fun present => l.stored present q, fun u => ?_, fun present => ?_, fun present => ?_,
        fun present => ?_⟩
      · rw [edit, Slider.move, hq]
        rfl
      · exact l.stored_stored present q
      · exact l.stored_ne_nan present q
      · exact .inl (l.presentable_stored present q)
    · cases h
  · next c index =>
    unfold SingleChoice.select at h
    split at h
    · next entry hentry =>
      refine ⟨_, stores_const (by nofun) (.inl (Value.presentable_int entry.value)) fun u => ?_⟩
      rw [edit, SingleChoice.select, hentry]
      rfl
    · cases h
  · next f text =>
    unfold TimeField.enter at h
    split at h
    · next t ht =>
      refine ⟨_, stores_const (by nofun) (.inl t.presentable_value) fun u => ?_⟩
      rw [edit, TimeField.enter, ht]
      rfl
    · cases h
  · next f t => exact ⟨_, stores_const (by nofun) (.inl t.presentable_value) fun _ => rfl⟩
  · next b binding =>
    -- a binding is the one text from outside
    obtain ⟨hname, hentry, -⟩ := InputBinding.bind_eq_ok.1 h
    exact ⟨_, stores_const (by nofun) (.inr hentry) fun u =>
      InputBinding.bind_eq_ok.2 ⟨hname, hentry, rfl⟩⟩
  · cases h

/-- An edit that is accepted sets a value `v` at the address of `c`, whose text is presentable or
was checked. -/
theorem exists_set_of_edit (h : c.edit s e = .ok r) :
    ∃ v, r = c.address.set s v ∧
      (Presentable v.written.toList ∨ checkEntry c.address.key v = .ok ()) := by
  obtain ⟨store, hstores⟩ := exists_stores h
  exact ⟨_, Except.ok.inj (h.symm.trans (hstores.edit_eq s)), hstores.readable _⟩

theorem wellStored_edit (hs : s.WellStored) (h : c.edit s e = .ok r) : r.2.WellStored := by
  obtain ⟨v, rfl, -⟩ := exists_set_of_edit h
  exact Settings.wellStored_set hs _ _ _ _

/-- At an address that can be stored, the value `v` that an accepted edit sets makes a
`ReadableEntry`. -/
theorem exists_readable_of_edit (ha : c.address.Storable) (h : c.edit s e = .ok r) :
    ∃ v, ReadableEntry c.address.key.toList v.written.toList ∧ r = c.address.set s v := by
  obtain ⟨v, hset, hpresentable | hchecked⟩ := exists_set_of_edit h
  · exact ⟨v, ha.entry hpresentable, hset⟩
  · exact ⟨v, Ini.readable_of_checkEntry hchecked, hset⟩

end Control

end EmulatorSettings
