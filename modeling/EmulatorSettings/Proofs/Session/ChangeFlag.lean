import EmulatorSettings.Proofs.Session.Edits
import EmulatorSettings.Proofs.Store.Operations
import EmulatorSettings.Proofs.Store.Reporting
import EmulatorSettings.Session.Run

/-!
# Sessions — whether the change flag tells the truth

An edit reports a change by comparing values, while a file shows presence, kind and text.  The two
agree except in two places: a zero set over the zero of the other sign is a change that is not
reported, and NaN set over NaN is reported although nothing changed.

* `truthful_iff`: the flag of a setting, a section or the settings of all files tells the truth
  except for these two edits.
* `write_iff_of_unreported`: an edit of a file that reports no change leaves the text alone unless
  it swaps the zeros.
* `Session.changeFlag_iff`: so a session that stays clean because of it has lost nothing, with that
  same exception.
* `Session.negative_zero_is_lost`: the exception at work.
-/

namespace EmulatorSettings

/-- What tells the settings under a key apart in a file: that one is there and the other is not,
their kinds, or their texts. -/
inductive Differs : Option Setting → Option Setting → Prop where
  | appears (y : Setting) : Differs none (some y)
  | vanishes (x : Setting) : Differs (some x) none
  | kind {x y : Setting} (h : x.value.sameKind y.value = false) : Differs (some x) (some y)
  | text {x y : Setting} (h : x.value.written ≠ y.value.written) : Differs (some x) (some y)

/-- The flag `changed` of an edit tells whether the setting under the key `Differs` after it. -/
def Truthful (changed : Bool) (before after : Option Setting) : Prop :=
  changed = true ↔ Differs before after

/-- The edits whose flag is wrong: `v` is a zero over the zero of the other sign, or NaN over NaN.
-/
def Misreported (before : Option Setting) (v : Value) : Prop :=
  ∃ x, before = some x ∧ (x.value.OppositeZeros v ∨ x.value = .float .nan ∧ v = .float .nan)

theorem differs_some_iff {x y : Setting} : Differs (some x) (some y) ↔ x.value ≠ y.value := by
  constructor
  · intro h heq
    cases h with
    | kind hkind =>
        rw [heq, Value.sameKind_self] at hkind
        cases hkind
    | text htext => exact htext (congrArg Value.written heq)
  · intro hne
    cases hkind : x.value.sameKind y.value with
    | false => exact .kind hkind
    | true => exact .text fun h => hne (Value.eq_of_written hkind h)

/-- **The flag of an edit** that compares the value that is there, if any, by `Value.equals` with
the new one. -/
theorem truthful_iff {before : Option Setting} {y : Setting} :
    Truthful (before.elim true fun x => !x.value.equals y.value) before (some y) ↔
      ¬ Misreported before y.value := by
  cases before with
  | none =>
      refine iff_of_true ⟨fun _ => .appears y, fun _ => rfl⟩ ?_
      rintro ⟨x, hx, -⟩
      cases hx
  | some x =>
      rw [Truthful, differs_some_iff, Option.elim_some, Bool.not_eq_true',
        ← Bool.not_eq_true, Value.equals_iff_alike]
      constructor
      · rintro h ⟨_, ⟨⟩, hzeros | ⟨hx, hy⟩⟩
        · exact h.2 (fun heq => hzeros.written_ne (congrArg Value.written heq)) (.inr hzeros)
        · refine h.1 ?_ (hx.trans hy.symm)
          rintro (⟨-, hnan⟩ | ⟨s, hs, -⟩)
          · exact hnan hx
          · cases hx.symm.trans hs
      · intro h
        have hzeros : ¬ x.value.OppositeZeros y.value := fun hz => h ⟨x, rfl, .inl hz⟩
        refine ⟨fun hne heq => hne (.inl ⟨heq, fun hx => ?_⟩), ?_⟩
        · exact h ⟨x, rfl, .inr ⟨hx, heq.symm.trans hx⟩⟩
        · rintro hne (⟨heq, -⟩ | hz)
          · exact hne heq
          · exact hzeros hz

/-! ### The containers -/

theorem Section.truthful_set (s : Section) (k : String) (v : Value) :
    Truthful (s.set k v).1 (s.get? k) ((s.set k v).2.get? k) ↔ ¬ Misreported (s.get? k) v := by
  obtain ⟨y, hy, rfl⟩ : ∃ y, (s.set k v).2.get? k = some y ∧ y.value = v := by
    have hvalue := s.get?_set k k v
    rw [if_pos rfl] at hvalue
    exact Option.map_eq_some_iff.1 hvalue
  rw [Section.fst_set, hy]
  exact truthful_iff

/-- What `trySet` answers without an error is what `set` answers. -/
theorem Section.trySet_eq_ok {s : Section} {k : String} {v : Value} {r : Bool × Section}
    (h : s.trySet k v = .ok r) : r = s.set k v := by
  unfold trySet at h
  cases hcheck : checkEntry k v with
  | error e =>
      rw [hcheck] at h
      cases h
  | ok u =>
      rw [hcheck] at h
      exact (Except.ok.inj h).symm

namespace Settings

variable (u : Settings) (file : SettingsFile) (n k : String) (v : Value)

theorem truthful_set :
    Truthful (u.set file n k v).1 (u.get? file n k) ((u.set file n k v).2.get? file n k) ↔
      ¬ Misreported (u.get? file n k) v := by
  have hafter : (u.set file n k v).2.get? file n k =
      (((u.fileOrNew file).sectionOrNew n).set k v).2.get? k := by
    rw [← get?_fileOrNew, fileOrNew_of_file? (u.file?_set file n k v), FileSections.set,
      FileSections.get?_modify, if_pos rfl]
  have hbefore : u.get? file n k = ((u.fileOrNew file).sectionOrNew n).get? k := by
    rw [FileSections.get?_sectionOrNew, get?_fileOrNew]
  rw [hafter, hbefore]
  exact Section.truthful_set _ k v

end Settings

/-! ### The text of the file -/

/-- **A `set` that reports no change** leaves the text of the file alone, unless the edit is
`Misreported`. -/
theorem write_iff_of_unreported {m : FileSections} {n k : String} {v : Value}
    (h : (m.set n k v).1 = false) :
    Ini.write (m.set n k v).2 = Ini.write m ↔ ¬ Misreported (m.get? n k) v := by
  obtain ⟨x, hx, hequals⟩ := FileSections.exists_equals_of_fst_set h
  rw [hx]
  constructor
  · rintro hwrite ⟨_, ⟨⟩, hzeros | ⟨hnan, -⟩⟩
    · exact hzeros.written_ne ((Ini.write_set_eq_iff hx v).1 hwrite).symm
    · rw [hnan] at hequals
      cases v <;> cases hequals
  · intro hm
    rcases Value.equals_iff_alike.1 hequals with ⟨heq, -⟩ | hzeros
    · rw [← heq, FileSections.set_value_self hx]
    · exact absurd ⟨x, rfl, .inl hzeros⟩ hm

/-! ### Sessions -/

namespace Session

/-- What an edit of a session leads to that sets the key `k` and reports no change. -/
theorem of_unreported {ε : Type} {s t : Session} {n k : String} {v : Value}
    {work : Settings → Except ε (Bool × Settings)}
    (hwork : ∀ r, work s.settings = .ok r → r = s.settings.set s.file n k v)
    (h : s.edit work = .ok (false, t)) :
    (s.sections.set n k v).1 = false ∧ t.sections = (s.sections.set n k v).2 ∧
      t.isDirty = s.isDirty := by
  obtain ⟨u, hu, rfl⟩ := edit_eq_ok.1 h
  have hset := hwork _ hu
  refine ⟨(congrArg Prod.fst hset).symm, ?_, Bool.or_false _⟩
  have hfile := s.settings.file?_set s.file n k v
  rw [← hset] at hfile
  exact Settings.fileOrNew_of_file? hfile

/-- **Where the change flag tells the truth.** The flag of `Setting.set`, of `Section.set`, and of
`trySet` on a section or on all settings where it is accepted, says whether the setting `Differs`,
except when the edit is `Misreported`.  An `edit` of a session that sets a key, whether it checks
the value or not, and reports no change leaves `isDirty` as it was, and a clean session is not
saved; the text in memory is still the one before the edit, with that same exception. -/
theorem changeFlag_iff (n k : String) (v : Value) :
    (∀ x : Setting, Truthful (x.set v).1 (some x) (some (x.set v).2) ↔ ¬ Misreported (some x) v) ∧
    (∀ s : Section,
      Truthful (s.set k v).1 (s.get? k) ((s.set k v).2.get? k) ↔ ¬ Misreported (s.get? k) v) ∧
    (∀ (s : Section) (r : Bool × Section), s.trySet k v = .ok r →
      (Truthful r.1 (s.get? k) (r.2.get? k) ↔ ¬ Misreported (s.get? k) v)) ∧
    (∀ (u : Settings) (file : SettingsFile) (r : Bool × Settings), u.trySet file n k v = .ok r →
      (Truthful r.1 (u.get? file n k) (r.2.get? file n k) ↔ ¬ Misreported (u.get? file n k) v)) ∧
    (∀ {ε : Type} (s t : Session) (work : Settings → Except ε (Bool × Settings)),
      (∀ r, work s.settings = .ok r → r = s.settings.set s.file n k v) →
      s.edit work = .ok (false, t) →
        t.isDirty = s.isDirty ∧
        (s.isDirty = false → ∀ {m : Type → Type} [Monad m] (r : Repository m),
          t.stop r true = pure ⟨.skipped, [], t⟩) ∧
        (Ini.write t.sections = Ini.write s.sections ↔
          ¬ Misreported (s.sections.get? n k) v)) := by
  refine ⟨?_, fun s => s.truthful_set k v, ?_, ?_, ?_⟩
  · intro x
    exact @truthful_iff (some x) (x.set v).2
  · intro s r h
    rw [Section.trySet_eq_ok h]
    exact s.truthful_set k v
  · intro u file r h
    obtain ⟨-, -, rfl⟩ := (Settings.trySet_eq_ok file).1 h
    exact u.truthful_set file n k v
  · intro ε s t work hwork h
    obtain ⟨hflag, hsections, hdirty⟩ := of_unreported hwork h
    refine ⟨hdirty, fun hclean m _ r => ?_, ?_⟩
    · have hskip : t.beginSave true = none :=
        beginSave_eq_none_iff.2 fun _ hdue => by
          rw [hdirty, hclean] at hdue
          cases hdue
      exact stop_of_beginSave_eq_none r hskip
    · rw [hsections]
      exact write_iff_of_unreported hflag

/-- A session that has loaded a file with a zero in it. -/
def withVolume : Session :=
  ((new .config).finishLoad (.ok (Ini.read .config "[Audio]\nvolume=0.0\n").sections)).2

theorem changeFlag_of_same_volume :
    ∃ t, withVolume.edit (fun u => u.trySet .config "Audio" "volume" (.float .zero)) =
        .ok (false, t) ∧
      t.isDirty = false ∧ Ini.write t.sections = "[Audio]\nvolume=0.0\n" := by
  have hedit : withVolume.edit (fun u => u.trySet .config "Audio" "volume" (.float .zero)) =
      .ok (false, withVolume) := by decide +kernel
  obtain ⟨-, -, -, -, hsession⟩ := changeFlag_iff "Audio" "volume" (.float .zero)
  obtain ⟨hdirty, -, hwrite⟩ := hsession withVolume withVolume _
    (fun r hr => ((Settings.trySet_eq_ok .config).1 hr).2.2.symm) hedit
  refine ⟨withVolume, hedit, hdirty.trans (by decide +kernel), ?_⟩
  refine (hwrite.2 ?_).trans (by decide +kernel)
  have hget : withVolume.sections.get? "Audio" "volume" =
      some ⟨"volume", "Audio", .config, .float .zero⟩ := by decide +kernel
  rw [hget]
  rintro ⟨_, ⟨⟩, hzeros | ⟨hnan, -⟩⟩
  · exact hzeros.written_ne rfl
  · cases hnan

/-- The session `withVolume` once `-0.0` has been set. -/
def withMinus : Session :=
  { withVolume with
    settings := (withVolume.settings.set .config "Audio" "volume" (.float (.signedZero true))).2 }

/-- **The minus of a zero is lost.** Set over the loaded `0.0`, the value `-0.0` is not reported,
the session stays clean and its stop is skipped, while the text in memory is no longer the loaded
one. -/
theorem negative_zero_is_lost :
    withVolume.edit (fun u => u.trySet .config "Audio" "volume" (.float (.signedZero true))) =
        .ok (false, withMinus) ∧
      Differs (withVolume.sections.get? "Audio" "volume")
        (withMinus.sections.get? "Audio" "volume") ∧
      (∀ {m : Type → Type} [Monad m] (r : Repository m),
        withMinus.stop r true = pure ⟨.skipped, [], withMinus⟩) ∧
      Ini.write withVolume.sections = "[Audio]\nvolume=0.0\n" ∧
      Ini.write withMinus.sections = "[Audio]\nvolume=-0.0\n" := by
  have hbefore : withVolume.sections.get? "Audio" "volume" =
      some ⟨"volume", "Audio", .config, .float .zero⟩ := by decide +kernel
  have hafter : withMinus.sections.get? "Audio" "volume" =
      some ⟨"volume", "Audio", .config, .float (.signedZero true)⟩ := by decide +kernel
  refine ⟨by decide +kernel, ?_, fun r => stop_of_beginSave_eq_none r (by decide +kernel),
    by decide +kernel, by decide +kernel⟩
  rw [hbefore, hafter]
  exact .text (by decide +kernel)

end Session

end EmulatorSettings
