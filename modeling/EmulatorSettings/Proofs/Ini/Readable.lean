import EmulatorSettings.Ini.Reading
import EmulatorSettings.Proofs.Store.WellStored
import EmulatorSettings.Proofs.Text.Lines
import EmulatorSettings.Proofs.Value.RoundTrip
import Mathlib.Data.List.Basic

/-!
# Settings files — entries that survive the format

The format has no quoting, so whether an entry reads back is a matter of its texts alone.  An
entry is *readable* when its key and its value are one line each, neither empty nor padded, its
key holds no `=`, and the line they make is no header.

* `ReadableEntry.ofChars_line`: the line of a readable entry reads as that entry.
* `Presentable.entry`: a text that is readable under every such key.
* `readable_of_ofChars`: every entry that is read from a line is readable, and stays so when its
  value is written in the form of its kind.
* `readable_of_checkEntry`, `feed_of_checkName`: what can be stored is readable.
-/

namespace EmulatorSettings.Ini

open Text (trim isBlank)

/-- A `key` and a text `value` whose line `key=value` is read as the two of them. -/
structure ReadableEntry (key value : List Char) : Prop where
  key_ne_nil : key ≠ []
  key_trimmed : trim key = key
  key_line : '\n' ∉ key
  key_whole : '=' ∉ key
  value_ne_nil : value ≠ []
  value_trimmed : trim value = value
  value_line : '\n' ∉ value
  not_header : ¬ (key.head? = some '[' ∧ value.getLast? = some ']')

/-- Every setting of `m` is a `ReadableEntry`, in a section whose name is one line. -/
def Readable (m : FileSections) : Prop :=
  ∀ n k x, m.get? n k = some x →
    '\n' ∉ n.toList ∧ ReadableEntry k.toList x.value.written.toList

/-! ### The line of an entry -/

namespace ReadableEntry

variable {key value : List Char}

theorem head?_line (h : ReadableEntry key value) : (key ++ '=' :: value).head? = key.head? :=
  List.head?_append_of_ne_nil _ h.key_ne_nil

theorem getLast?_line (h : ReadableEntry key value) :
    (key ++ '=' :: value).getLast? = value.getLast? := by
  rw [← List.singleton_append, ← List.append_assoc,
    List.getLast?_append_of_ne_nil _ h.value_ne_nil]

theorem trim_line (h : ReadableEntry key value) :
    trim (key ++ '=' :: value) = key ++ '=' :: value := by
  refine Text.trim_eq_self_iff.2 ⟨?_, ?_⟩
  · rw [h.head?_line]
    exact (Text.trim_eq_self_iff.1 h.key_trimmed).1
  · rw [h.getLast?_line]
    exact (Text.trim_eq_self_iff.1 h.value_trimmed).2

theorem feed_line (h : ReadableEntry key value) : '\n' ∉ key ++ '=' :: value := by
  intro hm
  rcases List.mem_append.1 hm with hm | hm
  · exact h.key_line hm
  · rcases List.mem_cons.1 hm with hm | hm
    · cases hm
    · exact h.value_line hm

theorem return_line (h : ReadableEntry key value) :
    (key ++ '=' :: value).getLast? ≠ some '\r' := by
  intro hlast
  have hblank := (Text.trim_eq_self_iff.1 h.trim_line).2 '\r' hlast
  exact absurd hblank (by decide)

/-- **The line of a `ReadableEntry`** is what `Line.ofChars` reads as that entry. -/
theorem ofChars_line (h : ReadableEntry key value) :
    Line.ofChars (key ++ '=' :: value) = .entry key value := by
  have hne : key ++ '=' :: value ≠ [] := List.append_ne_nil_of_left_ne_nil h.key_ne_nil _
  have hheader : Line.headerName? (key ++ '=' :: value) = none := by
    refine Option.eq_none_iff_forall_ne_some.2 fun name hname => h.not_header ?_
    have hline := Line.headerName?_eq_some_iff.1 hname
    refine ⟨?_, ?_⟩
    · rw [← h.head?_line, hline]; rfl
    · rw [← h.getLast?_line, hline, List.getLast?_concat]
  have hcut : Text.cutAt '=' (key ++ '=' :: value) = some (key, value) :=
    Text.cutAt_eq_some_iff.2 ⟨rfl, h.key_whole⟩
  rw [Line.ofChars, if_neg hne, hheader]
  dsimp only
  rw [Line.ofEntry, hcut]
  dsimp only
  rw [h.key_trimmed, h.value_trimmed, if_neg h.key_ne_nil, if_neg h.value_ne_nil]

end ReadableEntry

/-- The line `[name]` reads as that header. -/
theorem ofChars_header (name : List Char) :
    Line.ofChars (trim ('[' :: name ++ [']'])) = .header name := by
  have htrim : trim ('[' :: name ++ [']']) = '[' :: name ++ [']'] := by
    refine Text.trim_eq_self_iff.2 ⟨fun c hc => ?_, fun c hc => ?_⟩
    · obtain rfl := Option.some.inj hc
      decide
    · rw [List.getLast?_concat] at hc
      obtain rfl := Option.some.inj hc
      decide
  rw [htrim]
  exact Line.ofChars_header_iff.2 rfl

/-! ### What is read is readable -/

/-- An entry that `Line.ofChars` reads comes from the two sides of the first `=` of a line that is
no header. -/
theorem ofChars_entry_inv {cs key value : List Char} (h : Line.ofChars cs = .entry key value) :
    ∃ before after, cs = before ++ '=' :: after ∧ '=' ∉ before ∧ trim before = key ∧
      trim after = value ∧ key ≠ [] ∧ value ≠ [] ∧ ∀ name, cs ≠ '[' :: name ++ [']'] := by
  have hname : ∀ name, cs ≠ '[' :: name ++ [']'] := fun name hn => by
    rw [Line.ofChars_header_iff.2 hn] at h
    cases h
  have hentry : Line.ofEntry cs = .entry key value := by
    unfold Line.ofChars at h
    split at h
    · cases h
    · split at h
      · cases h
      · exact h
  unfold Line.ofEntry at hentry
  split at hentry
  · cases hentry
  · next before after hcut =>
    obtain ⟨hcs, heq⟩ := Text.cutAt_eq_some_iff.1 hcut
    split at hentry
    · cases hentry
    · next hkey =>
      split at hentry
      · cases hentry
      · next hvalue =>
        cases hentry
        exact ⟨before, after, hcs, heq, rfl, rfl, hkey, hvalue, hname⟩

/-- **What `Line.ofChars` reads** as an entry is a `ReadableEntry`. -/
theorem readable_of_ofChars {line key value : List Char} (hfeed : '\n' ∉ line)
    (h : Line.ofChars (trim line) = .entry key value) : ReadableEntry key value := by
  obtain ⟨before, after, hcs, heq, rfl, rfl, hkey, hvalue, hname⟩ := ofChars_entry_inv h
  have hbefore : before ≠ [] := fun hb => hkey (by rw [hb]; rfl)
  have hafter : after ≠ [] := fun ha => hvalue (by rw [ha]; rfl)
  have hline : '\n' ∉ before ++ '=' :: after := fun hm => hfeed (Text.trim_subset line (hcs ▸ hm))
  obtain ⟨hhead, hlast⟩ := Text.trim_eq_self_iff.1 (Text.trim_trim line)
  rw [hcs, List.head?_append_of_ne_nil _ hbefore] at hhead
  rw [hcs, ← List.singleton_append, ← List.append_assoc,
    List.getLast?_append_of_ne_nil _ hafter] at hlast
  refine ⟨hkey, Text.trim_trim before, fun hm => ?_, fun hm => ?_, hvalue, Text.trim_trim after,
    fun hm => ?_, fun ⟨hopen, hclose⟩ => ?_⟩
  · exact hline (List.mem_append_left _ (Text.trim_subset before hm))
  · exact heq (Text.trim_subset before hm)
  · exact hline (List.mem_append_right _ (List.mem_cons_of_mem _ (Text.trim_subset after hm)))
  · -- the two ends of the line would be brackets, and so the line a header
    rw [Text.head?_trim hhead hkey] at hopen
    rw [Text.getLast?_trim hlast hvalue] at hclose
    obtain ⟨b, rfl⟩ := List.head?_eq_some_iff.1 hopen
    obtain ⟨a, rfl⟩ := List.getLast?_eq_some_iff.1 hclose
    exact hname (b ++ '=' :: a) (by rw [hcs]; simp)

/-- Digits, `-` and `.` are no blanks. -/
theorem isBlank_of_number {c : Char} (h : c.isDigit = true ∨ c = '-' ∨ c = '.') :
    isBlank c = false := by
  rcases h with hd | rfl | rfl
  · exact Text.isBlank_of_isDigit hd
  · decide
  · decide

/-- The text `cs` is one line without blanks at its ends, and does not end in `]`. -/
structure Presentable (cs : List Char) : Prop where
  ne_nil : cs ≠ []
  head : ∀ c ∈ cs.head?, isBlank c = false
  last : ∀ c ∈ cs.getLast?, isBlank c = false ∧ c ≠ ']'
  line : '\n' ∉ cs

/-- A `Presentable` text is readable under every `key` that any value is readable under. -/
theorem Presentable.entry {key text : List Char} (h : Presentable text) (hne : key ≠ [])
    (htrim : trim key = key) (hline : '\n' ∉ key) (hwhole : '=' ∉ key) :
    ReadableEntry key text := by
  refine ⟨hne, htrim, hline, hwhole, h.ne_nil, ?_, h.line, fun hb => ?_⟩
  · exact Text.trim_eq_self_iff.2 ⟨h.head, fun c hc => (h.last c hc).1⟩
  · exact (h.last ']' hb.2).2 rfl

theorem presentable_of_chars {cs : List Char} (hne : cs ≠ [])
    (h : ∀ c ∈ cs, isBlank c = false ∧ c ≠ ']') : Presentable cs := by
  refine ⟨hne, fun c hc => (h c (List.mem_of_mem_head? hc)).1,
    fun c hc => h c (List.mem_of_getLast? hc), fun hm => ?_⟩
  exact absurd (h '\n' hm).1 (by decide)

/-- A text of digits, `-` and `.` is `Presentable`. -/
theorem presentable_of_number {cs : List Char} (hne : cs ≠ [])
    (h : ∀ c ∈ cs, c.isDigit = true ∨ c = '-' ∨ c = '.') : Presentable cs := by
  refine presentable_of_chars hne fun c hc => ⟨isBlank_of_number (h c hc), ?_⟩
  rintro rfl
  exact absurd (h ']' hc) (by decide)

/-- A `ReadableEntry` stays one when `value` is written in the form of its kind. -/
theorem ReadableEntry.written {key value : List Char} (h : ReadableEntry key value) :
    ReadableEntry key (Value.ofText (String.ofList value)).written.toList := by
  rcases Value.written_ofText (String.ofList value) with hw | ⟨hne, hchars⟩
  · rw [hw, String.toList_ofList]
    exact h
  · exact (presentable_of_number hne hchars).entry h.key_ne_nil h.key_trimmed h.key_line
      h.key_whole

/-! ### What can be stored is readable -/

theorem hasLineBreak_eq_false_iff {cs : List Char} :
    hasLineBreak cs = false ↔ ∀ c ∈ cs, c ≠ '\n' ∧ c ≠ '\r' := by
  simp only [hasLineBreak, List.any_eq_false, Bool.or_eq_true, beq_iff_eq, not_or, ne_eq]

theorem trim_of_not_isPadded {cs : List Char} (h : isPadded cs = false) : trim cs = cs := by
  simpa [isPadded] using h

theorem feed_of_checkName {name : String} (h : checkName name = .ok ()) : '\n' ∉ name.toList :=
  fun hm => ((storableName_iff.1 h).2 _ hm).1 rfl

theorem keyFault?_eq_none {key : List Char} (h : keyFault? key = none) :
    key ≠ [] ∧ '\n' ∉ key ∧ '=' ∉ key ∧ trim key = key := by
  unfold keyFault? at h
  split at h
  · cases h
  · next hne =>
    split at h
    · cases h
    · next hbreak =>
      split at h
      · cases h
      · next heq =>
        split at h
        · cases h
        · next hpad =>
          have hline := hasLineBreak_eq_false_iff.1 (Bool.not_eq_true _ ▸ hbreak)
          exact ⟨hne, fun hm => (hline _ hm).1 rfl, by simpa using heq,
            trim_of_not_isPadded (Bool.not_eq_true _ ▸ hpad)⟩

theorem valueFault?_eq_none {text : List Char} (h : valueFault? text = none) :
    text ≠ [] ∧ '\n' ∉ text ∧ trim text = text := by
  unfold valueFault? at h
  split at h
  · cases h
  · next hne =>
    split at h
    · cases h
    · next hbreak =>
      split at h
      · cases h
      · next hpad =>
        have hline := hasLineBreak_eq_false_iff.1 (Bool.not_eq_true _ ▸ hbreak)
        exact ⟨hne, fun hm => (hline _ hm).1 rfl,
          trim_of_not_isPadded (Bool.not_eq_true _ ▸ hpad)⟩

/-- **What `checkEntry` passes** is a `ReadableEntry`. -/
theorem readable_of_checkEntry {key : String} {value : Value} (h : checkEntry key value = .ok ()) :
    ReadableEntry key.toList value.written.toList := by
  unfold checkEntry at h
  split at h
  · cases h
  · cases h
  · next hk hv =>
    split at h
    · cases h
    · next hheader =>
      obtain ⟨hk₁, hk₂, hk₃, hk₄⟩ := keyFault?_eq_none hk
      obtain ⟨hv₁, hv₂, hv₃⟩ := valueFault?_eq_none hv
      exact ⟨hk₁, hk₄, hk₂, hk₃, hv₁, hv₃, hv₂, hheader⟩

/-- What passes `checkName` and `checkEntry` is a `ReadableEntry` of a section whose name is one
line. -/
theorem readable_of_checked {name key : String} {value : Value}
    (h : checkName name = .ok () ∧ checkEntry key value = .ok ()) :
    '\n' ∉ name.toList ∧ ReadableEntry key.toList value.written.toList :=
  ⟨feed_of_checkName h.1, readable_of_checkEntry h.2⟩

end EmulatorSettings.Ini
