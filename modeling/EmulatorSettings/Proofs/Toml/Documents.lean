import EmulatorSettings.Proofs.Toml.Strings
import EmulatorSettings.Toml.Document

/-!
# TOML — documents that were written

A document of keys without quotes, each on a line with its string, is read back: its table has the
keys with their strings, in the order of the lines.

* `keyPart?_bare`, `value?_writtenChars`: a key without quotes and a string, up to what follows.
* `statement?_line`: one line.
* `read?_lines`: the whole document.
-/

namespace EmulatorSettings.Toml

variable {key value rest : List Char}

/-! ### Keys -/

/-- A `key` that needs no quotes. -/
def BareKey (key : List Char) : Prop :=
  key ≠ [] ∧ key.all isBareKeyChar = true

instance (key : List Char) : Decidable (BareKey key) :=
  inferInstanceAs (Decidable (_ ∧ _))

/-- **A `BareKey`** begins with a character that begins nothing else. -/
theorem BareKey.exists_cons (h : BareKey key) :
    ∃ c r, key = c :: r ∧ isBlank c = false ∧
      c ≠ '[' ∧ c ≠ '#' ∧ c ≠ '\n' ∧ c ≠ '\r' ∧ c ≠ '"' ∧ c ≠ '\'' ∧ c ≠ '\ufeff' := by
  obtain ⟨hne, hkey⟩ := h
  cases key with
  | nil => exact absurd rfl hne
  | cons c r =>
      have hc := List.all_eq_true.1 hkey c List.mem_cons_self
      refine ⟨c, r, rfl, Bool.eq_false_iff.2 fun hblank => ?_, ?_, ?_, ?_, ?_, ?_, ?_, ?_⟩
      · simp only [isBlank, Bool.or_eq_true, decide_eq_true_eq] at hblank
        rcases hblank with rfl | rfl <;> exact absurd hc (by decide)
      all_goals
        rintro rfl
        exact absurd hc (by decide)

theorem dropBlank_cons {c : Char} (h : isBlank c = false) (r : List Char) :
    dropBlank (c :: r) = c :: r := by
  rw [dropBlank, List.dropWhile_cons, h]
  rfl

theorem BareKey.dropBlank_append (h : BareKey key) (rest : List Char) :
    dropBlank (key ++ rest) = key ++ rest := by
  obtain ⟨c, r, rfl, hblank, -⟩ := h.exists_cons
  exact dropBlank_cons hblank _

/-- **A `BareKey`** is what `keyPart?` reads, up to the first other character. -/
theorem keyPart?_bare (h : BareKey key) (hrest : ∀ c ∈ rest.head?, isBareKeyChar c = false) :
    keyPart? (key ++ rest) = some (String.ofList key, rest) := by
  have hpart : (key ++ rest).takeWhile isBareKeyChar = key := by
    rw [List.takeWhile_append_of_pos (List.all_eq_true.1 h.2)]
    cases rest with
    | nil => rw [List.takeWhile_nil, List.append_nil]
    | cons c r => rw [List.takeWhile_cons, hrest c rfl, if_neg Bool.false_ne_true, List.append_nil]
  have hquotes : ∀ r, key ++ rest ≠ '"' :: r ∧ key ++ rest ≠ '\'' :: r := by
    obtain ⟨c, r, rfl, -, -, -, -, -, hdouble, hsingle, -⟩ := h.exists_cons
    exact fun _ =>
      ⟨fun heq => hdouble (List.cons.inj heq).1, fun heq => hsingle (List.cons.inj heq).1⟩
  rw [keyPart?, hpart, if_neg h.1, List.drop_left]
  · exact fun r => (hquotes r).1
  · exact fun r => (hquotes r).2

/-- A `BareKey` is what `key?` reads, up to the sign between it and its value. -/
theorem key?_bare (h : BareKey key) (parts : Nat) (rest : List Char) :
    key? (parts + 1) (key ++ ' ' :: '=' :: rest) = some (⟨[], String.ofList key⟩, '=' :: rest) := by
  rw [key?, h.dropBlank_append, keyPart?_bare h (by rintro _ ⟨⟩; decide)]
  rfl

/-! ### Strings -/

/-- **What `writtenChars` makes of a string** begins with a quote. -/
theorem exists_writtenChars (cs : List Char) :
    ∃ q r, writtenChars cs = q :: r ∧ (q = '"' ∨ q = '\'') := by
  unfold writtenChars
  cases StringForm.of cs with
  | basic => exact ⟨_, _, rfl, .inl rfl⟩
  | literal => exact ⟨_, _, rfl, .inr rfl⟩
  | multilineBasic => exact ⟨_, _, rfl, .inl rfl⟩
  | multilineLiteral => exact ⟨_, _, rfl, .inr rfl⟩

theorem value?_writtenChars (hrest : ∀ c ∈ rest.head?, c ≠ '"' ∧ c ≠ '\'') (depth : Nat) :
    value? depth (writtenChars value ++ rest) = some (.string (String.ofList value), rest) := by
  have hstring := string?_writtenChars value hrest
  obtain ⟨q, r, hwritten, hq⟩ := exists_writtenChars value
  rw [hwritten, List.cons_append] at hstring ⊢
  have hplain : value? depth (q :: (r ++ rest)) = plainValue? (q :: (r ++ rest)) := by
    rcases hq with rfl | rfl <;> cases depth <;> rfl
  rw [hplain]
  rcases hq with rfl | rfl
  · rw [plainValue?, hstring, Option.map_some]
  · rw [plainValue?, hstring, Option.map_some]

/-! ### Lines -/

/-- The line `key = value` of a key and its string. -/
def line (p : String × String) : List Char :=
  p.1.toList ++ [' ', '=', ' '] ++ writtenChars p.2.toList ++ ['\n']

/-- **What `line` makes of `p`** is read as the key and its string, up to the next line. -/
theorem statement?_line {p : String × String} (h : BareKey p.1.toList) (rest : List Char) :
    statement? (line p ++ rest) = some (.assign ⟨[], p.1⟩ (.string p.2), rest) := by
  have hline : line p ++ rest =
      p.1.toList ++ ' ' :: '=' :: ' ' :: (writtenChars p.2.toList ++ '\n' :: rest) := by
    simp only [line, List.append_assoc, List.cons_append, List.nil_append]
  have hvalue : value? depthLimit
      (dropBlank (' ' :: (writtenChars p.2.toList ++ '\n' :: rest))) =
        some (.string p.2, '\n' :: rest) := by
    have hblank : dropBlank (' ' :: (writtenChars p.2.toList ++ '\n' :: rest)) =
        writtenChars p.2.toList ++ '\n' :: rest := by
      obtain ⟨q, r, hwritten, hq⟩ := exists_writtenChars p.2.toList
      rw [hwritten]
      rcases hq with rfl | rfl <;> rfl
    rw [hblank, value?_writtenChars (by rintro _ ⟨⟩; decide), String.ofList_toList]
  have hkey := key?_bare h 78 (' ' :: (writtenChars p.2.toList ++ '\n' :: rest))
  rw [String.ofList_toList] at hkey
  obtain ⟨c, r, hcons, -, hbracket, hcomment, hfeed, hreturn, -⟩ := h.exists_cons
  rw [hline]
  rw [hcons, List.cons_append] at hkey ⊢
  rw [statement?]
  · rw [depthLimit, hkey]
    change (value? depthLimit _).bind _ = _
    rw [hvalue]
    rfl
  all_goals exact fun _ heq => absurd (List.cons.inj heq).1 ‹_›

/-- The statement that `line p` is read as. -/
def assignment (p : String × String) : Statement :=
  .assign ⟨[], p.1⟩ (.string p.2)

theorem statements?_line {p : String × String} (h : BareKey p.1.toList) (lines : Nat)
    (rest : List Char) :
    statements? (lines + 1) (line p ++ rest) = (assignment p :: ·) <$> statements? lines rest := by
  have hblank : dropBlank (line p ++ rest) = line p ++ rest := by
    rw [line, List.append_assoc, List.append_assoc, List.append_assoc, h.dropBlank_append]
  have hstatement := statement?_line h rest
  obtain ⟨c, r, hcons⟩ : ∃ c r, line p ++ rest = c :: r := by
    obtain ⟨c, r, hcons, -⟩ := h.exists_cons
    exact ⟨c, _, by rw [line, hcons]; rfl⟩
  rw [hcons] at hblank hstatement ⊢
  rw [statements?.eq_def (lines + 1), hblank]
  dsimp only
  rw [hstatement]
  rfl

/-- **All lines** are read by `statements?`, one after the other. -/
theorem statements?_lines {ps : List (String × String)} (h : ∀ p ∈ ps, BareKey p.1.toList)
    {lines : Nat} (hlines : ps.length ≤ lines) :
    statements? lines (ps.flatMap line) = some (ps.map assignment) := by
  induction ps generalizing lines with
  | nil => cases lines <;> rfl
  | cons p ps ih =>
      obtain ⟨hp, hps⟩ := List.forall_mem_cons.1 h
      obtain ⟨lines, rfl⟩ := Nat.exists_eq_add_of_le' hlines
      rw [List.flatMap_cons, List.length_cons, ← Nat.add_assoc, statements?_line hp,
        ih hps (Nat.le_add_left _ _)]
      rfl

theorem length_le_length_lines (ps : List (String × String)) :
    ps.length ≤ (ps.flatMap line).length := by
  induction ps with
  | nil => exact Nat.le_refl _
  | cons p ps ih =>
      have hp : 1 ≤ (line p).length := by
        rw [line, List.length_append]
        exact Nat.le_add_left _ _
      rw [List.flatMap_cons, List.length_append, List.length_cons]
      omega

/-! ### Tables -/

namespace Members

theorem set_of_lookup_eq_none {ms : Members} {key : String} (h : ms.lookup key = none) (n : Node) :
    ms.set key n = ms ++ [(key, n)] := by
  induction ms with
  | nil => rfl
  | cons m ms ih =>
      rw [List.lookup_cons] at h
      split at h
      · cases h
      · next hne =>
        rw [set, if_neg fun he => by simp [he] at hne, ih h]
        rfl

end Members

/-- A line with a new key adds the key and its string to the members `ms`. -/
theorem add_assignment {ms : Members} {p : String × String} (h : ms.lookup p.1 = none) :
    Reading.add ⟨ms, []⟩ (assignment p) = some ⟨ms ++ [(p.1, .string p.2)], []⟩ := by
  have hdefine : Members.define p.1 (.string p.2) false .header ms =
      some (ms ++ [(p.1, .string p.2)]) := by
    rw [Members.define, if_pos ⟨by decide, h⟩, Members.set_of_lookup_eq_none h]
  change (Members.define p.1 (.string p.2) false .header ms).map _ = _
  rw [hdefine]
  rfl

/-- **The members** that lines with different keys add stand in the order of the lines. -/
theorem foldlM_add_assignments {ps : List (String × String)} (ms : Members)
    (h : (ms.map (·.1) ++ ps.map (·.1)).Nodup) :
    (ps.map assignment).foldlM Reading.add ⟨ms, []⟩ =
      some ⟨ms ++ ps.map fun p => (p.1, .string p.2), []⟩ := by
  induction ps generalizing ms with
  | nil => simp
  | cons p ps ih =>
      have hnew : ms.lookup p.1 = none := by
        rw [List.lookup_eq_none_iff]
        intro m hm
        rw [bne_iff_ne]
        have hdisjoint := (List.nodup_append.1 h).2.2 m.1 (List.mem_map_of_mem hm) p.1
          (List.mem_map_of_mem List.mem_cons_self)
        exact hdisjoint.symm
      rw [List.map_cons, List.foldlM_cons, add_assignment hnew]
      change (ps.map assignment).foldlM Reading.add _ = _
      rw [ih _ (by simpa using h)]
      simp

/-- **A document that was written** line by line, with different keys, is read by `read?` as these
keys and their strings. -/
theorem read?_lines {ps : List (String × String)} (hbare : ∀ p ∈ ps, BareKey p.1.toList)
    (hkeys : (ps.map (·.1)).Nodup) :
    read? (String.ofList (ps.flatMap line)) = some (ps.map fun p => (p.1, .string p.2)) := by
  have hmark : dropMark (ps.flatMap line) = ps.flatMap line := by
    cases ps with
    | nil => rfl
    | cons p ps =>
        obtain ⟨c, r, hcons, -, -, -, -, -, -, -, hmark⟩ :=
          (hbare p List.mem_cons_self).exists_cons
        rw [List.flatMap_cons, line, hcons]
        unfold dropMark
        split
        · next heq => exact absurd (List.cons.inj heq).1 hmark
        · rfl
  have hlines : ps.length ≤ (ps.flatMap line).length + 1 :=
    Nat.le_succ_of_le (length_le_length_lines ps)
  rw [read?, String.toList_ofList, hmark]
  change (statements? _ _).bind _ = _
  rw [statements?_lines hbare hlines, Option.bind_some]
  change ((ps.map assignment).foldlM Reading.add _).bind _ = _
  rw [foldlM_add_assignments [] hkeys]
  rfl

end EmulatorSettings.Toml
