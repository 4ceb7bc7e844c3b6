import EmulatorSettings.Proofs.Ini.RoundTrip
import EmulatorSettings.Proofs.Value.NumberText

/-!
# Settings files — the check of an entry is exact

What an entry must be like to be stored is a list of rules, and what becomes of it in a file is up
to the reader.  The two agree: an entry passes the check exactly if its own line, under any header,
is read as that entry and nothing else.

* `FileSections.single`: a file with one setting, and the text it is written as.
* `checkEntry_iff_readable`: the rules, said of the line.
* `checkEntry_iff_reads_back`: the check and the reader agree.
-/

namespace EmulatorSettings

/-! ### One setting -/

namespace FileSections

/-- The file with the one setting `x`, under the section and key that `x` names. -/
def single (x : Setting) : FileSections :=
  ⟨x.file, Table.empty.insert x.sectionName
    ⟨x.sectionName, x.file, Table.empty.insert x.key x⟩⟩

theorem wellStored_single (x : Setting) : (single x).WellStored :=
  wellStored_set (wellStored_new x.file) x.sectionName x.key x.value

theorem get?_single (x : Setting) (n k : String) :
    (single x).get? n k = if n = x.sectionName ∧ k = x.key then some x else none :=
  get?_set (wellStored_new x.file) x.sectionName x.key x.value n k

theorem reread_single (x : Setting) :
    (single x).reread = single { x with value := .ofText x.value.written } := rfl

end FileSections

namespace Ini

/-- The text of `single x` is a header and an entry. -/
theorem write_single (x : Setting) :
    write (.single x) =
      "[" ++ x.sectionName ++ "]\n" ++ x.key ++ "=" ++ x.value.written ++ "\n" := by
  refine String.toList_inj.1 ?_
  rw [write, String.toList_ofList]
  change sectionText ⟨x.sectionName, x.file, Table.empty.insert x.key x⟩ ++ [] = _
  simp only [sectionText, String.toList_append, List.append_assoc, List.append_nil]
  change _ ++ (_ ++ ([x].flatMap entryText)) = _
  simp [entryText]

/-! ### The rules -/

/-- Without a carriage return, which the check refuses and a file may hold, `checkEntry` passes
exactly a `ReadableEntry`. -/
theorem checkEntry_iff_readable {key : String} {value : Value} (hkey : '\r' ∉ key.toList)
    (hvalue : '\r' ∉ value.written.toList) :
    checkEntry key value = .ok () ↔ ReadableEntry key.toList value.written.toList := by
  refine ⟨readable_of_checkEntry, fun h => ?_⟩
  have hbreak : ∀ {cs : List Char}, '\n' ∉ cs → '\r' ∉ cs → hasLineBreak cs = false :=
    fun hn hr => hasLineBreak_eq_false_iff.2 fun c hc =>
      ⟨fun he => hn (he ▸ hc), fun he => hr (he ▸ hc)⟩
  have hpad : ∀ {cs : List Char}, Text.trim cs = cs → isPadded cs = false := fun ht => by
    simp [isPadded, ht]
  have hk : keyFault? key.toList = none := by
    simp [keyFault?, h.key_ne_nil, hbreak h.key_line hkey, h.key_whole, hpad h.key_trimmed]
  have hv : valueFault? value.written.toList = none := by
    simp [valueFault?, h.value_ne_nil, hbreak h.value_line hvalue, hpad h.value_trimmed]
  rw [checkEntry, hk, hv]
  exact if_neg h.not_header

/-- The text `raw` is a `ReadableEntry` under `key` if what `Value.ofText raw` is written as is one.
-/
theorem ReadableEntry.of_written {key : List Char} {raw : String}
    (h : ReadableEntry key (Value.ofText raw).written.toList) : ReadableEntry key raw.toList := by
  by_cases htext : Value.ofText raw = .text raw
  · rwa [htext] at h
  · exact (Value.presentable_of_ofText_ne_text htext).entry h.key_ne_nil h.key_trimmed h.key_line
      h.key_whole

/-! ### The check and the reader -/

/-- **The check is exact.** Let `checkName name` pass, and let `key` and `value.written` have no
carriage return.  Then `checkEntry key value` passes if and only if `read`, given a header `[name]`
and the line of this one entry, answers for any `file` the one section with the one setting, its
value as `Value.ofText` reads it, and leaves out no line. -/
theorem checkEntry_iff_reads_back {name key : String} {value : Value}
    (hname : checkName name = .ok ()) (hkey : '\r' ∉ key.toList)
    (hvalue : '\r' ∉ value.written.toList) (file : SettingsFile) :
    checkEntry key value = .ok () ↔
      read file ("[" ++ name ++ "]\n" ++ key ++ "=" ++ value.written ++ "\n") =
        ⟨.single ⟨key, name, file, .ofText value.written⟩, []⟩ := by
  constructor
  · intro h
    have hreadable : Readable (.single ⟨key, name, file, value⟩) := by
      intro n k x hx
      rw [FileSections.get?_single] at hx
      split at hx
      · next hat =>
        obtain ⟨rfl, rfl⟩ := hat
        obtain rfl := Option.some.inj hx
        exact readable_of_checked ⟨hname, h⟩
      · cases hx
    have hback := read_write_of_readable (FileSections.wellStored_single _) hreadable
    rwa [write_single, FileSections.reread_single] at hback
  · intro h
    -- whatever was read is readable, and the entry was read
    have hread := (asRead_read file
      ("[" ++ name ++ "]\n" ++ key ++ "=" ++ value.written ++ "\n")).readable
    rw [h] at hread
    obtain ⟨-, hentry⟩ := hread name key ⟨key, name, file, .ofText value.written⟩
      ((FileSections.get?_single _ _ _).trans (if_pos ⟨rfl, rfl⟩))
    exact (checkEntry_iff_readable hkey hvalue).2 hentry.of_written

/-- The key `[jit` under the header `[jit=on]`: with the value `on` its line is an entry, with `on]`
the line is a header. -/
theorem reads_back_unless_header :
    (checkName "jit=on" = .ok () ∧ checkEntry "[jit" (.text "on") = .ok () ∧
      read (.game "demo") "[jit=on]\n[jit=on\n" =
        ⟨.single ⟨"[jit", "jit=on", .game "demo", .text "on"⟩, []⟩) ∧
    checkEntry "[jit" (.text "on]") ≠ .ok () ∧
      read .config "[jit=on]\n[jit=on]\n" ≠
        ⟨.single ⟨"[jit", "jit=on", .config, .text "on]"⟩, []⟩ := by
  have hname : checkName "jit=on" = .ok () := by decide +kernel
  have hpass : checkEntry "[jit" (.text "on") = .ok () := by decide +kernel
  have hfail : checkEntry "[jit" (.text "on]") ≠ .ok () := by decide +kernel
  have hon : Value.ofText (Value.text "on").written = .text "on" := by decide +kernel
  have hbracket : Value.ofText (Value.text "on]").written = .text "on]" := by decide +kernel
  have hread := (checkEntry_iff_reads_back hname (by decide +kernel) (by decide +kernel)
    (.game "demo")).1 hpass
  have hother := mt (checkEntry_iff_reads_back hname (by decide +kernel) (by decide +kernel)
    .config).2 hfail
  rw [hon] at hread
  rw [hbracket] at hother
  exact ⟨⟨hname, hpass, hread⟩, hfail, hother⟩

end Ini

end EmulatorSettings
