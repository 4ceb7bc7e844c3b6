import EmulatorSettings.Proofs.Row.Edits

/-!
# Rows — edits are local, settled and independent

Whatever the control, an accepted edit sets one value at the address of the control, and nothing but
the value that was there matters for which one.

* `Control.Stores.again`, `Control.Stores.comm`: so it may be repeated, and may change places with
  an edit of another setting.
* `SingleChoice.selectedIndex?_eq_some_iff`: which entry is shown as selected.
* `Control.edits_independent`: an edit leaves everything else alone, is no change when it is
  repeated, shows what was chosen, and does not depend on the order.
-/

namespace EmulatorSettings

/-! ### Edits in a row -/

namespace Control.Stores

variable {c d : Control} {e f : Edit} {store other : Option Value → Value}

/-- The edit `e` once more changes nothing. -/
theorem again (h : c.Stores e store) (s : Settings) :
    let r := c.address.set s (store (c.address.value? s))
    c.edit r.2 e = .ok (false, r.2) := by
  dsimp only
  rw [h.edit_eq, Address.value?_set, h.settled, Address.set_again _ _ (h.ne_nan _)]

/-- The edits `e` and `f` of different settings lead to the same settings in either order, and
report the same. -/
theorem comm (hc : c.Stores e store) (hd : d.Stores f other) (hne : c.address ≠ d.address)
    (s : Settings) :
    ∃ r₁ r₂ q₁ q₂, c.edit s e = .ok r₁ ∧ d.edit r₁.2 f = .ok r₂ ∧
      d.edit s f = .ok q₁ ∧ c.edit q₁.2 e = .ok q₂ ∧ r₂.2 = q₂.2 ∧ r₁.1 = q₂.1 ∧ r₂.1 = q₁.1 := by
  refine ⟨_, _, _, _, hc.edit_eq s, hd.edit_eq _, hd.edit_eq s, hc.edit_eq _, ?_, ?_, ?_⟩
  · rw [Address.value?_set_of_ne _ _ hne.symm, Address.value?_set_of_ne _ _ hne,
      Address.set_comm _ _ hne]
  · rw [Address.value?_set_of_ne _ _ hne, Address.fst_set_set _ _ hne]
  · rw [Address.value?_set_of_ne _ _ hne.symm, Address.fst_set_set _ _ hne.symm]

end Control.Stores

/-! ### What is shown afterwards -/

theorem CheckBox.isChecked_check (b : CheckBox) (s : Settings) (checked : Bool) :
    b.isChecked (b.check s checked).2 = checked := by
  rw [isChecked, check, Address.int?, Address.value?_set]
  cases checked <;> rfl

namespace SingleChoice

/-- The index `i` is that of the first of the `choices` with the number `n`. -/
def IsFirst (choices : List Choice) (n : Int32) (i : Nat) : Prop :=
  (∃ entry, choices[i]? = some entry ∧ entry.value = n) ∧
    ∀ j < i, ∀ entry, choices[j]? = some entry → entry.value ≠ n

theorem selectedValue_set (c : SingleChoice) (s : Settings) (n : Int32) :
    c.selectedValue (c.address.set s (.int n)).2 = n := by
  rw [selectedValue, Address.int?, Address.value?_set]
  rfl

/-- **Which entry is shown as selected** by `selectedIndex?`: the first one with the stored number.
-/
theorem selectedIndex?_eq_some_iff {c : SingleChoice} {s : Settings} {i : Nat} :
    c.selectedIndex? s = some i ↔ IsFirst c.choices (c.selectedValue s) i := by
  rw [selectedIndex?, List.findIdx?_eq_some_iff_getElem]
  constructor
  · rintro ⟨hi, hvalue, hbefore⟩
    refine ⟨⟨_, List.getElem?_eq_getElem hi, beq_iff_eq.1 hvalue⟩, fun j hj entry hentry => ?_⟩
    obtain ⟨_, rfl⟩ := List.getElem?_eq_some_iff.1 hentry
    exact fun heq => hbefore j hj (beq_iff_eq.2 heq)
  · rintro ⟨⟨entry, hentry, hvalue⟩, hbefore⟩
    obtain ⟨hi, rfl⟩ := List.getElem?_eq_some_iff.1 hentry
    refine ⟨hi, beq_iff_eq.2 hvalue, fun j hj heq => ?_⟩
    exact hbefore j hj _ (List.getElem?_eq_getElem _) (beq_iff_eq.1 heq)

/-- Where some entry has the stored number, `selectedIndex?` finds one. -/
theorem exists_selectedIndex? {c : SingleChoice} {s : Settings} {i : Nat} {entry : Choice}
    (hentry : c.choices[i]? = some entry) (hvalue : c.selectedValue s = entry.value) :
    ∃ j, c.selectedIndex? s = some j := by
  refine Option.ne_none_iff_exists'.1 fun hnone => ?_
  have hfalse := List.findIdx?_eq_none_iff.1 hnone entry (List.mem_of_getElem? hentry)
  rw [hvalue, beq_self_eq_true] at hfalse
  cases hfalse

/-- Where the numbers are distinct, the first entry with a number is the only one. -/
theorem IsFirst.unique {choices : List Choice} (hdistinct : (choices.map (·.value)).Nodup)
    {entry : Choice} {i j : Nat} (hentry : choices[i]? = some entry)
    (h : IsFirst choices entry.value j) : j = i := by
  obtain ⟨⟨first, hfirst, hvalue⟩, -⟩ := h
  have hvalues : (choices.map (·.value))[j]? = (choices.map (·.value))[i]? := by
    rw [List.getElem?_map, List.getElem?_map, hfirst, hentry, Option.map_some, Option.map_some,
      hvalue]
  obtain ⟨hj, -⟩ := List.getElem?_eq_some_iff.1 hfirst
  refine (List.getElem?_inj ?_ hdistinct).1 hvalues
  rwa [List.length_map]

end SingleChoice

namespace Slider

/-- Where `l.least ≤ l.greatest`, there is a position for every `p`. -/
theorem exists_clamp {l : Slider} (h : l.least ≤ l.greatest) (p : Int32) :
    ∃ q, l.clamp p = some q := by
  unfold clamp
  rw [if_neg (Int32.not_lt.2 h)]
  split
  · exact ⟨_, rfl⟩
  · split
    · exact ⟨_, rfl⟩
    · exact ⟨_, rfl⟩

theorem move_of_clamp {l : Slider} {p q : Int32} (h : l.clamp p = some q) (s : Settings) :
    l.move s p = .ok (l.address.set s (l.stored (l.address.value? s) q)) := by
  rw [move, h]

end Slider

/-! ### Every control -/

namespace Control

/-- **Edits are local, settled and independent.** For every control at every address, all settings
and all edits: an edit that `edit` accepts leaves every other setting and every other file as they
are, and carried out again it is accepted, reports no change and changes nothing.  A check box shows
what `check` set, and a single choice the number that was selected, at the first entry with that
number, whatever was stored before; an entry of the list can always be selected, and a slider with
`l.least ≤ l.greatest` can always be moved.  Two accepted edits at different addresses are accepted
in either order, with the same settings after them and the same reports. -/
theorem edits_independent :
    (∀ (c : Control) (e : Edit) (s : Settings) (r : Bool × Settings), c.edit s e = .ok r →
      (∀ a, a ≠ c.address → a.get? r.2 = a.get? s) ∧
      (∀ f, f ≠ c.address.file → r.2.file? f = s.file? f ∧
        Ini.write (r.2.fileOrNew f) = Ini.write (s.fileOrNew f)) ∧
      c.edit r.2 e = .ok (false, r.2)) ∧
    (∀ (b : CheckBox) (s : Settings) (checked : Bool),
      b.isChecked (b.check s checked).2 = checked) ∧
    (∀ (c : SingleChoice) (s : Settings) (i : Nat) (entry : Choice),
      c.choices[i]? = some entry → ∃ r j, c.select s i = .ok r ∧
        c.selectedValue r.2 = entry.value ∧ c.selectedIndex? r.2 = some j ∧
        SingleChoice.IsFirst c.choices entry.value j ∧
        ((c.choices.map (·.value)).Nodup → j = i)) ∧
    (∀ (l : Slider) (s : Settings) (p : Int32), l.least ≤ l.greatest →
      ∃ r, l.move s p = .ok r) ∧
    ∀ (c d : Control) (e f : Edit) (s : Settings) (r₁ r₂ : Bool × Settings),
      c.address ≠ d.address → c.edit s e = .ok r₁ → d.edit r₁.2 f = .ok r₂ →
      ∃ q₁ q₂, d.edit s f = .ok q₁ ∧ c.edit q₁.2 e = .ok q₂ ∧
        r₂.2 = q₂.2 ∧ r₁.1 = q₂.1 ∧ r₂.1 = q₁.1 := by
  refine ⟨fun c e s r hr => ?_, CheckBox.isChecked_check, fun c s i entry hentry => ?_,
    fun l s p hbounds => ?_, fun c d e f s r₁ r₂ hne hr₁ hr₂ => ?_⟩
  · obtain ⟨store, hstores⟩ := exists_stores hr
    obtain rfl := Except.ok.inj ((hstores.edit_eq s).symm.trans hr)
    refine ⟨fun a ha => Address.get?_set_of_ne _ _ ha _, fun f hf => ?_, hstores.again s⟩
    have hfile := s.file?_set_of_ne hf c.address.sectionName c.address.key
      (store (c.address.value? s))
    refine ⟨hfile, congrArg Ini.write ?_⟩
    exact congrArg (fun m : Option FileSections => m.getD (.new f)) hfile
  · have hselect : c.select s i = .ok (c.address.set s (.int entry.value)) := by
      rw [SingleChoice.select, hentry]
    have hvalue := c.selectedValue_set s entry.value
    obtain ⟨j, hj⟩ := SingleChoice.exists_selectedIndex? hentry hvalue
    have hfirst := SingleChoice.selectedIndex?_eq_some_iff.1 hj
    rw [hvalue] at hfirst
    exact ⟨_, j, hselect, hvalue, hj, hfirst, fun hdistinct => hfirst.unique hdistinct hentry⟩
  · obtain ⟨q, hq⟩ := Slider.exists_clamp hbounds p
    exact ⟨_, Slider.move_of_clamp hq s⟩
  · obtain ⟨store, hc⟩ := exists_stores hr₁
    obtain ⟨other, hd⟩ := exists_stores hr₂
    obtain ⟨_, _, q₁, q₂, h₁, h₂, hq₁, hq₂, hsame⟩ := hc.comm hd hne s
    obtain rfl := Except.ok.inj (h₁.symm.trans hr₁)
    obtain rfl := Except.ok.inj (h₂.symm.trans hr₂)
    exact ⟨q₁, q₂, hq₁, hq₂, hsame⟩

/-- Settings that hold a text where a slider looks for its position. -/
def loudSettings : Settings :=
  (Settings.empty.set .config "Audio" "volume" (.text "loud")).2

/-- A check box and a slider of one file, and a list with two entries for one number. -/
theorem edits_independent_of_loud :
    let box : Control := .checkBox ⟨⟨.config, "Core", "use_cpu_jit"⟩, true⟩
    let volume : Slider := ⟨⟨.config, "Audio", "volume"⟩, 0, 100, 100, "%", .fraction⟩
    let slider : Control := .slider volume
    let regions : SingleChoice :=
      ⟨⟨.config, "System", "region_value"⟩, [⟨"JPN", 0⟩, ⟨"USA", 1⟩, ⟨"CAN", 1⟩], -1⟩
    (∃ r₁ r₂ q₁ q₂, box.edit loudSettings (.check false) = .ok r₁ ∧
      slider.edit r₁.2 (.move 150) = .ok r₂ ∧ slider.edit loudSettings (.move 150) = .ok q₁ ∧
      box.edit q₁.2 (.check false) = .ok q₂ ∧ r₂.2 = q₂.2 ∧ r₁.1 = q₂.1 ∧ r₂.1 = q₁.1 ∧
      slider.edit r₂.2 (.move 150) = .ok (false, r₂.2)) ∧
    ∃ r j, regions.select loudSettings 2 = .ok r ∧ regions.selectedIndex? r.2 = some j ∧
      SingleChoice.IsFirst regions.choices 1 j := by
  intro box volume slider regions
  obtain ⟨hlocal, -, hchoice, -, hcomm⟩ := edits_independent
  obtain ⟨r₁, hr₁⟩ : ∃ r, box.edit loudSettings (.check false) = .ok r := ⟨_, rfl⟩
  have hclamp : volume.clamp 150 = some 100 := by decide
  obtain ⟨r₂, hr₂⟩ : ∃ r, slider.edit r₁.2 (.move 150) = .ok r :=
    ⟨_, Slider.move_of_clamp hclamp r₁.2⟩
  obtain ⟨q₁, q₂, hq₁, hq₂, hstate, hbox, hslider⟩ :=
    hcomm box slider _ _ loudSettings r₁ r₂ (by decide) hr₁ hr₂
  obtain ⟨-, -, hagain⟩ := hlocal slider _ r₁.2 r₂ hr₂
  obtain ⟨r, j, hr, -, hj, hfirst, -⟩ := hchoice regions loudSettings 2 ⟨"CAN", 1⟩ rfl
  exact ⟨⟨r₁, r₂, q₁, q₂, hr₁, hr₂, hq₁, hq₂, hstate, hbox, hslider, hagain⟩, r, j, hr, hj, hfirst⟩

end Control

end EmulatorSettings
