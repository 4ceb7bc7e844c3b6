import EmulatorSettings.Proofs.DateTime.Spelling
import EmulatorSettings.Proofs.Store.Independence
import EmulatorSettings.Screen.Rows

/-!
# Rows — texts that can be read back

Only a binding is checked before it is stored.  The other controls need no check: a number and a
date-time are written as one line with no blanks at its ends, and never end in a bracket.

A row writes one setting of a file.  Whether that setting is still there once the file was written
and read back is also up to the others: an entry that is not one line can hide what it likes.

* `Value.presentable_int`, `presentable_float`, `Slider.presentable_stored`,
  `DateTime.presentable_value`: what is written so.
* `Address.Storable.entry`: such a text can be read back at every address that can be stored.
* `Screen.storable_address`: the rows of the screens are at such addresses.
* `Address.OthersReadable`: the other settings of the file are entries as the reader takes them.
* `Address.value?_reread`: what an address gives once its file is written and read back.
-/

namespace EmulatorSettings

open Ini (Presentable ReadableEntry presentable_of_chars presentable_of_number)
open Text (AllDigits isBlank)

/-- The section name and the key of the address `a` can be stored. -/
structure Address.Storable (a : Address) : Prop where
  name : checkName a.sectionName = .ok ()
  key : keyFault? a.key.toList = none

/-- A `Presentable` text is readable under every key that can be stored. -/
theorem Address.Storable.entry {a : Address} (ha : a.Storable) {text : List Char}
    (h : Presentable text) : ReadableEntry a.key.toList text := by
  obtain ⟨hne, hline, hwhole, htrim⟩ := Ini.keyFault?_eq_none ha.key
  exact h.entry hne htrim hline hwhole

/-! ### Numbers -/

/-- A text `cs` is `Presentable` if a computation over its characters says so. -/
theorem presentable_of_all {cs : List Char} (hne : cs ≠ [])
    (h : cs.all (fun c => decide (isBlank c = false ∧ c ≠ ']')) = true) : Presentable cs :=
  presentable_of_chars hne fun c hc => of_decide_eq_true (List.all_eq_true.1 h c hc)

namespace Value

theorem presentable_int (n : Int32) : Presentable (int n).written.toList := by
  rw [written, String.toList_ofList]
  exact presentable_of_number (intDigits_ne_nil _) fun _ => mem_intDigits

theorem presentable_float (x : Binary32) : Presentable (float x).written.toList := by
  rw [written, String.toList_ofList]
  cases x with
  | nan => exact presentable_of_all (by decide) (by decide)
  | infinity s => cases s <;> exact presentable_of_all (by decide) (by decide)
  | finite s n => exact presentable_of_number (fileText_ne_nil s n) fun _ => Binary32.mem_fileText

end Value

theorem Slider.presentable_stored (l : Slider) (present : Option Value) (p : Int32) :
    Presentable (l.stored present p).written.toList := by
  unfold stored
  split
  · exact Value.presentable_float _
  · exact Value.presentable_float _
  · exact Value.presentable_int _

/-! ### Date-times -/

namespace DateTime

theorem yearText_ne_nil (year : Int) : yearText year ≠ [] := by
  unfold yearText
  split
  · exact paddedDigits_ne_nil _ _
  · exact List.cons_ne_nil _ _

/-- A year is digits, after a sign or not. -/
theorem mem_yearText {year : Int} {c : Char} (h : c ∈ yearText year) :
    c.isDigit = true ∨ c = '-' ∨ c = '+' := by
  unfold yearText at h
  split at h
  · exact .inl (allDigits_paddedDigits _ _ c h)
  · rcases List.mem_cons.1 h with rfl | h
    · right
      split
      · exact .inl rfl
      · exact .inr rfl
    · exact .inl (allDigits_paddedDigits _ _ c h)

/-- The characters of a date-time are digits, signs, blanks and colons. -/
theorem mem_render {t : DateTime} {c : Char} (h : c ∈ t.render) :
    c.isDigit = true ∨ c ∈ ['-', '+', ' ', ':'] := by
  have hpart : ∀ {separator : Char} {n : Nat}, separator ∈ ['-', '+', ' ', ':'] →
      c ∈ separator :: Text.paddedDigits 2 n → c.isDigit = true ∨ c ∈ ['-', '+', ' ', ':'] := by
    intro separator n hseparator hm
    rcases List.mem_cons.1 hm with rfl | hm
    · exact .inr hseparator
    · exact .inl (allDigits_paddedDigits 2 n c hm)
  simp only [render, List.mem_append] at h
  rcases h with ((((h | h) | h) | h) | h) | h
  · rcases mem_yearText h with hd | rfl | rfl
    · exact .inl hd
    · exact .inr (by decide)
    · exact .inr (by decide)
  all_goals exact hpart (by decide) h

theorem feed_render (t : DateTime) : '\n' ∉ t.render :=
  fun hm => absurd (mem_render hm) (by decide)

/-- **A date-time is `Presentable`**: it begins with its year and ends with a digit of its second.
-/
theorem presentable_render (t : DateTime) : Presentable t.render := by
  have hhead : t.render.head? = (yearText t.year).head? := by
    simp only [render, List.append_assoc]
    exact List.head?_append_of_ne_nil _ (yearText_ne_nil _)
  have hlast : t.render.getLast? =
      (Text.paddedDigits 2 (t.second + t.nanosecond / 1000000000)).getLast? := by
    rw [render, List.getLast?_append_of_ne_nil _ (List.cons_ne_nil _ _)]
    exact List.getLast?_append_of_ne_nil [':'] (paddedDigits_ne_nil _ _)
  refine ⟨?_, fun c hc => ?_, fun c hc => ?_, t.feed_render⟩
  · exact List.append_ne_nil_of_right_ne_nil _ (List.cons_ne_nil _ _)
  · rw [hhead] at hc
    rcases mem_yearText (List.mem_of_mem_head? hc) with hd | rfl | rfl
    · exact Ini.isBlank_of_number (.inl hd)
    · decide
    · decide
  · rw [hlast] at hc
    have hd := allDigits_paddedDigits _ _ c (List.mem_of_getLast? hc)
    refine ⟨Ini.isBlank_of_number (.inl hd), ?_⟩
    rintro rfl
    exact absurd hd (by decide)

/-- The value that a date-time is stored as is written as a `Presentable` text. -/
theorem presentable_value (t : DateTime) :
    Presentable (Value.text (String.ofList t.render)).written.toList := by
  rw [Value.written, String.toList_ofList]
  exact t.presentable_render

end DateTime

/-! ### Screens -/

/-- **The rows of the screens** edit the `file` that `screen.rows` is given, at addresses that can
be stored. -/
theorem Screen.storable_address {screen : Screen} {file : SettingsFile} {r : Row} {a : Address}
    (hr : r ∈ screen.rows file) (ha : r.address? = some a) : a.file = file ∧ a.Storable := by
  have hall : ∀ r ∈ screen.rows file, ∀ a ∈ r.address?,
      a.file = file ∧ checkName a.sectionName = .ok () ∧ keyFault? a.key.toList = none := by
    cases screen <;>
      simp only [rows, all, coreRows, systemRows, controlsRows, rendererRows, audioRows,
        checkBoxRow, choiceRow, bindingRow, sliderRow, Row.address?, Row.control?,
        Control.address, List.forall_mem_cons, List.tail_cons, List.map_cons, List.map_nil,
        List.not_mem_nil, Option.map_some, Option.map_none, Option.mem_some_iff,
        Option.not_mem_none, forall_eq', IsEmpty.forall_iff, implies_true, true_and, and_true]
    all_goals decide +kernel
  obtain ⟨hfile, hname, hkey⟩ := hall r hr a ha
  exact ⟨hfile, hname, hkey⟩

/-! ### Reading a setting back -/

namespace Address

/-- Every setting of the file of `a` but the one at `a` is a `ReadableEntry`, in a section whose
name is one line. -/
def OthersReadable (a : Address) (s : Settings) : Prop :=
  ∀ (b : Address) (x : Setting), b ≠ a → b.file = a.file → b.get? s = some x →
    '\n' ∉ b.sectionName.toList ∧ ReadableEntry b.key.toList x.value.written.toList

variable {a : Address} {s : Settings} {v : Value}

theorem readable_set (ha : a.Storable) (hothers : a.OthersReadable s)
    (hv : Presentable v.written.toList) : Ini.Readable ((a.set s v).2.fileOrNew a.file) := by
  intro n k x hx
  have hget : (Address.mk a.file n k).get? (a.set s v).2 = some x := by rwa [get?_eq]
  by_cases hb : Address.mk a.file n k = a
  · obtain ⟨rfl, rfl⟩ : n = a.sectionName ∧ k = a.key := ⟨congrArg sectionName hb, congrArg key hb⟩
    have hvalue := a.value?_set s v
    rw [value?, show a.get? (a.set s v).2 = some x from hget] at hvalue
    obtain rfl : x.value = v := Option.some.inj hvalue
    exact ⟨Ini.feed_of_checkName ha.name, ha.entry hv⟩
  · rw [get?_set_of_ne a s hb] at hget
    exact hothers _ x hb rfl hget

/-- **A value `v` that was set at `a`, written and read back** is what `Value.ofText` reads from its
text. -/
theorem value?_reread (hs : s.WellStored) (ha : a.Storable) (hothers : a.OthersReadable s)
    (hv : Presentable v.written.toList) {t : Settings}
    (ht : t.file? a.file =
      some (Ini.read a.file (Ini.write ((a.set s v).2.fileOrNew a.file))).sections) :
    a.value? t = some (.ofText v.written) := by
  have hset : (a.set s v).2.WellStored := Settings.wellStored_set hs _ _ _ _
  obtain ⟨hfile, hm⟩ := Settings.fileOrNew_spec hset a.file
  have hread := Ini.read_write_of_readable hm (readable_set ha hothers hv)
  rw [hfile] at hread
  obtain ⟨x, hx, hvalue⟩ := Option.map_eq_some_iff.1 (a.value?_set s v)
  rw [get?_eq] at hx
  rw [value?, get?_eq, Settings.fileOrNew_of_file? ht, hread, FileSections.get?_reread hm, hx,
    Option.map_some, Option.map_some, hvalue]

end Address

end EmulatorSettings
