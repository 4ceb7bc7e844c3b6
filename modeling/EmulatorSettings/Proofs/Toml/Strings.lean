import EmulatorSettings.Toml.Strings

/-!
# TOML — strings that were written

Whatever its characters, a string that was written between its delimiters is read back, in each of
the four forms.  What follows must not begin with a quote, which could be taken for one of the
string's own.

* `escape_cases`: a character is written as it is, or as an escape that is read as it.
* `basic?_flatMap`, `literal?_append`, `multilineBasic?_body`, `multilineLiteral?_append`: the
  inside of each form up to its end.
* `string?_writtenChars`: a string with its delimiters.
-/

namespace EmulatorSettings.Toml

variable {c q : Char} {cs r rest : List Char}

/-! ### Escapes -/

theorem hexValue?_hexDigit : ∀ d < 16, hexValue? (hexDigit d) = some d := by decide

/-- A character below 128 is read from its code after `u`. -/
theorem escape?_code (h : c.toNat < 128) (r : List Char) :
    escape? ('u' :: '0' :: '0' :: hexDigit (c.toNat / 16) :: hexDigit (c.toNat % 16) :: r) =
      some (c, r) := by
  have hzero : hexValue? '0' = some 0 := by decide
  have hvalid : c.toNat.isValidChar := c.valid
  have hcode : 16 * (c.toNat / 16) + c.toNat % 16 = c.toNat := Nat.div_add_mod _ _
  rw [escape?, codePoint?]
  simp only [hexNumber?, hzero, hexValue?_hexDigit _ (show c.toNat / 16 < 16 by omega),
    hexValue?_hexDigit _ (show c.toNat % 16 < 16 by omega), Option.bind_some, Nat.mul_zero,
    Nat.zero_add, hcode]
  rw [if_pos hvalid, Char.ofNat_toNat]

/-- **A character `c`** is written by `escape` as it is, or as an escape that `escape?` reads as `c`
and that is not the end of a line. -/
theorem escape_cases (c : Char) :
    (escape c = [c] ∧ c ≠ '"' ∧ c ≠ '\\' ∧ isControl c = false) ∨
      ∃ e, escape c = '\\' :: e ∧
        ∀ r, escape? (e ++ r) = some (c, r) ∧ continued? (e ++ r) = none := by
  by_cases hletter : c ∈ ['\x08', '\t', '\n', '\x0c', '\r', '"', '\\']
  · simp only [List.mem_cons, List.not_mem_nil, or_false] at hletter
    rcases hletter with rfl | rfl | rfl | rfl | rfl | rfl | rfl <;>
      exact .inr ⟨[_], rfl, fun _ => ⟨rfl, rfl⟩⟩
  · simp only [List.mem_cons, List.not_mem_nil, or_false, not_or] at hletter
    cases hcontrol : isControl c with
    | false =>
        have hplain : escape c = [c] := by
          simp only [escape, hletter, hcontrol, if_false]
          rfl
        exact .inl ⟨hplain, by simp [hletter]⟩
    | true =>
        refine .inr ⟨['u', '0', '0', hexDigit (c.toNat / 16), hexDigit (c.toNat % 16)],
          by simp only [escape, hletter, hcontrol, if_false, if_true], fun r => ⟨?_, rfl⟩⟩
        refine escape?_code ?_ r
        simp only [isControl, Bool.or_eq_true, Bool.and_eq_true, decide_eq_true_eq] at hcontrol
        rcases hcontrol with ⟨hlow, -⟩ | rfl
        · omega
        · decide

theorem ne_of_isControl_eq_false (h : isControl c = false) : c ≠ '\n' ∧ c ≠ '\r' := by
  refine ⟨?_, ?_⟩ <;> rintro rfl <;> cases h

/-- What `escape c` writes does not begin with a quote or a line break. -/
theorem head?_escape (c : Char) (r : List Char) :
    ∀ d ∈ (escape c ++ r).head?, d ≠ '"' ∧ d ≠ '\n' ∧ d ≠ '\r' := by
  obtain ⟨hplain, hquote, -, hcontrol⟩ | ⟨e, hescape, -⟩ := escape_cases c
  · rw [hplain]
    rintro _ ⟨⟩
    exact ⟨hquote, ne_of_isControl_eq_false hcontrol⟩
  · rw [hescape]
    rintro _ ⟨⟩
    decide

/-! ### Between two quotes -/

theorem basic?_plain (hquote : c ≠ '"') (hbackslash : c ≠ '\\') (hcontrol : isControl c = false)
    (r : List Char) : basic? (c :: r) = (basic? r).map fun p => (c :: p.1, p.2) := by
  rw [basic?, if_neg (by rw [hcontrol]; exact Bool.false_ne_true)]
  · exact hquote
  · exact hbackslash

theorem basic?_escaped (h : escape? r = some (c, rest)) :
    basic? ('\\' :: r) = (basic? rest).map fun p => (c :: p.1, p.2) := by
  rw [basic?]
  split
  · next hnone => exact absurd (hnone.symm.trans h) (by simp)
  · next hsome =>
    obtain ⟨rfl, rfl⟩ := Prod.mk.inj (Option.some.inj (hsome.symm.trans h))
    rfl

/-- **With escapes** a string `cs` is read by `basic?` up to its closing quote. -/
theorem basic?_flatMap (cs rest : List Char) :
    basic? (cs.flatMap escape ++ '"' :: rest) = some (cs, rest) := by
  induction cs with
  | nil => rw [List.flatMap_nil, List.nil_append, basic?]
  | cons c cs ih =>
      rw [List.flatMap_cons, List.append_assoc]
      obtain ⟨hplain, hquote, hbackslash, hcontrol⟩ | ⟨e, hescape, hread⟩ := escape_cases c
      · rw [hplain, List.singleton_append, basic?_plain hquote hbackslash hcontrol, ih,
          Option.map_some]
      · rw [hescape, List.cons_append, basic?_escaped (hread _).1, ih, Option.map_some]

/-- **Without escapes** a string `cs` is read by `literal?` up to its closing quote. -/
theorem literal?_append (h : ∀ c ∈ cs, c ≠ '\'' ∧ isControl c = false) (rest : List Char) :
    literal? (cs ++ '\'' :: rest) = some (cs, rest) := by
  induction cs with
  | nil => rfl
  | cons c cs ih =>
      obtain ⟨⟨hquote, hcontrol⟩, hcs⟩ := List.forall_mem_cons.1 h
      rw [List.cons_append, literal?, if_neg (by rw [hcontrol]; exact Bool.false_ne_true), ih hcs,
        Option.map_some]
      exact hquote

/-! ### Between three quotes -/

/-- **The closing quotes.** Up to two more `"` in front of them belong to the string. -/
theorem multilineBasic?_close (h : '"' ∉ rest.head?) :
    multilineBasic? ('"' :: '"' :: '"' :: rest) = some ([], rest) ∧
      multilineBasic? ('"' :: '"' :: '"' :: '"' :: rest) = some (['"'], rest) ∧
      multilineBasic? ('"' :: '"' :: '"' :: '"' :: '"' :: rest) = some (['"', '"'], rest) := by
  have hfour : ∀ r, rest = '"' :: r → False := by
    rintro _ rfl
    exact h rfl
  refine ⟨?_, ?_, ?_⟩
  · rw [multilineBasic?]
    · rintro _ rfl
      exact h rfl
    · exact hfour
  · rw [multilineBasic?]
    exact hfour
  · rw [multilineBasic?]

/-- Two quotes `q` do not begin a text whose first character is no quote… -/
theorem not_isPrefix_of_head? (h : q ∉ r.head?) : ¬ [q, q] <+: r := by
  rintro ⟨t, rfl⟩
  exact h rfl

/-- …or whose second one is none. -/
theorem not_isPrefix_cons (c : Char) (h : q ∉ r.head?) : ¬ [q, q] <+: c :: r := by
  rintro ⟨t, ht⟩
  obtain ⟨-, rfl⟩ := List.cons.inj ht
  exact h rfl

/-- A character that stands for itself in `multilineBasic?`.  A quote does unless two more follow.
-/
theorem multilineBasic?_char (hquotes : c = '"' → ¬ ['"', '"'] <+: r) (hbackslash : c ≠ '\\')
    (hcontrol : isControl c = true → c = '\n') :
    multilineBasic? (c :: r) = (multilineBasic? r).map fun p => (c :: p.1, p.2) := by
  rw [multilineBasic?, if_neg fun h => h.2 (hcontrol h.1)]
  · rintro _ hc rfl
    exact hquotes hc ⟨_, rfl⟩
  · rintro _ hc rfl
    exact hquotes hc ⟨_, rfl⟩
  · rintro _ hc rfl
    exact hquotes hc ⟨_, rfl⟩
  · rintro _ rfl -
    exact absurd (hcontrol rfl) (by decide)
  · exact hbackslash

theorem multilineBasic?_escaped (hline : continued? r = none) (h : escape? r = some (c, rest)) :
    multilineBasic? ('\\' :: r) = (multilineBasic? rest).map fun p => (c :: p.1, p.2) := by
  rw [multilineBasic?]
  split
  · next hsome => exact absurd (hline.symm.trans hsome) (by simp)
  · split
    · next hnone => exact absurd (hnone.symm.trans h) (by simp)
    · next hsome =>
      obtain ⟨rfl, rfl⟩ := Prod.mk.inj (Option.some.inj (hsome.symm.trans h))
      rfl

/-- What `escape c` writes is read as `c`. -/
theorem multilineBasic?_escape (c : Char) (r : List Char) :
    multilineBasic? (escape c ++ r) = (multilineBasic? r).map fun p => (c :: p.1, p.2) := by
  obtain ⟨hplain, hquote, hbackslash, hcontrol⟩ | ⟨e, hescape, hread⟩ := escape_cases c
  · rw [hplain, List.singleton_append]
    exact multilineBasic?_char (fun h => absurd h hquote) hbackslash
      fun h => absurd (hcontrol.symm.trans h) Bool.false_ne_true
  · rw [hescape, List.cons_append, multilineBasic?_escaped (hread r).2 (hread r).1]

theorem multilineBody_quote {run : Nat} (h : run < 2) (cs : List Char) :
    multilineBody run ('"' :: cs) = '"' :: multilineBody (run + 1) cs := by
  rw [multilineBody, if_pos ⟨rfl, h⟩]

theorem multilineBody_line (run : Nat) (cs : List Char) :
    multilineBody run ('\n' :: cs) = '\n' :: multilineBody 0 cs := rfl

theorem multilineBody_escape {run : Nat} (hquote : c ≠ '"' ∨ 2 ≤ run) (hline : c ≠ '\n')
    (cs : List Char) : multilineBody run (c :: cs) = escape c ++ multilineBody 0 cs := by
  have hrun : ¬ (c = '"' ∧ run < 2) := fun h =>
    hquote.elim (fun hne => hne h.1) (Nat.not_le.2 h.2)
  rw [multilineBody, if_neg hrun, if_neg hline]

/-- What `multilineBody` writes begins with a quote only if the string does, and not after two of
them. -/
theorem head?_multilineBody {run : Nat} (h : c ≠ '"' ∨ 2 ≤ run) (cs rest : List Char) :
    '"' ∉ (multilineBody run (c :: cs) ++ rest).head? := by
  by_cases hline : c = '\n'
  · rw [hline, multilineBody_line]
    exact fun hm => absurd (Option.some.inj hm) (by decide)
  · rw [multilineBody_escape h hline, List.append_assoc]
    exact fun hm => (head?_escape c _ '"' hm).1 rfl

/-- **With escapes, over several lines,** a string `cs` is read by `multilineBasic?` up to its
closing quotes. -/
theorem multilineBasic?_body (hrest : '"' ∉ rest.head?) (cs : List Char) (run : Nat) :
    multilineBasic? (multilineBody run cs ++ '"' :: '"' :: '"' :: rest) = some (cs, rest) := by
  obtain ⟨hclose, hcloseOne, hcloseTwo⟩ := multilineBasic?_close hrest
  induction cs generalizing run with
  | nil => exact hclose
  | cons c cs ih =>
      by_cases hquote : c = '"' ∧ run < 2
      · obtain ⟨rfl, hrun⟩ := hquote
        -- a quote stands for itself unless two more follow, which they do only at the end
        have hself : ¬ ['"', '"'] <+: multilineBody (run + 1) cs ++ '"' :: '"' :: '"' :: rest →
            multilineBasic? (multilineBody run ('"' :: cs) ++ '"' :: '"' :: '"' :: rest) =
              some ('"' :: cs, rest) := fun hquotes => by
          rw [multilineBody_quote hrun, List.cons_append,
            multilineBasic?_char (fun _ => hquotes) (by decide) (fun h => absurd h (by decide)), ih,
            Option.map_some]
        rcases cs with _ | ⟨d, cs⟩
        · rw [multilineBody_quote hrun]
          exact hcloseOne
        · by_cases hsecond : d = '"' ∧ run + 1 < 2
          · obtain ⟨rfl, hrun'⟩ := hsecond
            rcases cs with _ | ⟨e, cs⟩
            · rw [multilineBody_quote hrun, multilineBody_quote hrun']
              exact hcloseTwo
            · refine hself ?_
              rw [multilineBody_quote hrun', List.cons_append]
              exact not_isPrefix_cons _ (head?_multilineBody (.inr (Nat.le_add_left 2 run)) cs _)
          · refine hself (not_isPrefix_of_head? (head?_multilineBody ?_ cs _))
            rw [← Nat.not_lt]
            exact Decidable.not_and_iff_or_not.1 hsecond
      · rw [Decidable.not_and_iff_or_not, Nat.not_lt] at hquote
        by_cases hline : c = '\n'
        · rw [hline, multilineBody_line, List.cons_append,
            multilineBasic?_char (fun h => absurd h (by decide)) (by decide) (fun _ => rfl), ih,
            Option.map_some]
        · rw [multilineBody_escape hquote hline, List.append_assoc, multilineBasic?_escape, ih,
            Option.map_some]

theorem multilineLiteral?_close (h : '\'' ∉ rest.head?) :
    multilineLiteral? ('\'' :: '\'' :: '\'' :: rest) = some ([], rest) ∧
      multilineLiteral? ('\'' :: '\'' :: '\'' :: '\'' :: rest) = some (['\''], rest) ∧
      multilineLiteral? ('\'' :: '\'' :: '\'' :: '\'' :: '\'' :: rest) =
        some (['\'', '\''], rest) := by
  have hfour : ∀ r, rest = '\'' :: r → False := by
    rintro _ rfl
    exact h rfl
  refine ⟨?_, ?_, ?_⟩
  · rw [multilineLiteral?]
    · rintro _ rfl
      exact h rfl
    · exact hfour
  · rw [multilineLiteral?]
    exact hfour
  · rw [multilineLiteral?]

theorem multilineLiteral?_char (hquotes : c = '\'' → ¬ ['\'', '\''] <+: r)
    (hcontrol : isControl c = true → c = '\n') :
    multilineLiteral? (c :: r) = (multilineLiteral? r).map fun p => (c :: p.1, p.2) := by
  rw [multilineLiteral?, if_neg fun h => h.2 (hcontrol h.1)]
  · rintro _ hc rfl
    exact hquotes hc ⟨_, rfl⟩
  · rintro _ hc rfl
    exact hquotes hc ⟨_, rfl⟩
  · rintro _ hc rfl
    exact hquotes hc ⟨_, rfl⟩
  · rintro _ rfl -
    exact absurd (hcontrol rfl) (by decide)

/-- **Without escapes, over several lines,** a string `cs` without three quotes in a row is read by
`multilineLiteral?` up to its closing quotes. -/
theorem multilineLiteral?_append (hrest : '\'' ∉ rest.head?) (htriple : hasTriple '\'' cs = false)
    (hcontrol : ∀ c ∈ cs, isControl c = true → c = '\n') :
    multilineLiteral? (cs ++ '\'' :: '\'' :: '\'' :: rest) = some (cs, rest) := by
  obtain ⟨hclose, hcloseOne, hcloseTwo⟩ := multilineLiteral?_close hrest
  induction cs with
  | nil => exact hclose
  | cons c cs ih =>
      obtain ⟨hc, hcs⟩ := List.forall_mem_cons.1 hcontrol
      obtain ⟨hthree, htriple⟩ := Bool.or_eq_false_iff.1 htriple
      have hself : (c = '\'' → ¬ ['\'', '\''] <+: cs ++ '\'' :: '\'' :: '\'' :: rest) →
          multilineLiteral? (c :: cs ++ '\'' :: '\'' :: '\'' :: rest) = some (c :: cs, rest) :=
        fun hquotes => by
          rw [List.cons_append, multilineLiteral?_char hquotes hc, ih htriple hcs, Option.map_some]
      by_cases hquote : c = '\''
      · subst hquote
        rcases cs with _ | ⟨d, _ | ⟨e, cs⟩⟩
        · exact hcloseOne
        · by_cases hd : d = '\''
          · rw [hd]
            exact hcloseTwo
          · exact hself fun _ => not_isPrefix_of_head? fun hm => hd (Option.some.inj hm)
        · -- two more quotes would be three in a row
          refine hself fun _ ⟨t, ht⟩ => ?_
          obtain ⟨hd, ht'⟩ := List.cons.inj ht
          obtain ⟨he, -⟩ := List.cons.inj ht'
          rw [← hd, ← he] at hthree
          cases hthree
      · exact hself fun h => absurd h hquote

/-! ### The four forms -/

theorem eq_of_not_needsEscape (h : cs.any needsEscape = false) :
    ∀ c ∈ cs, isControl c = true → c = '\n' := by
  intro c hc hcontrol
  have hplain := List.any_eq_false.1 h c hc
  rw [needsEscape, hcontrol, Bool.true_and, decide_eq_true_eq] at hplain
  exact Decidable.not_not.1 hplain

/-- A string whose form is `literal` has no single quotes and no control characters. -/
theorem of_form_eq_literal (h : StringForm.of cs = .literal) :
    ∀ c ∈ cs, c ≠ '\'' ∧ isControl c = false := by
  have hform : cs.any needsEscape = false ∧ '\'' ∉ cs ∧ '\n' ∉ cs := by
    unfold StringForm.of at h
    grind
  obtain ⟨hplain, hquote, hline⟩ := hform
  refine fun c hc => ⟨fun he => hquote (he ▸ hc), Bool.eq_false_iff.2 fun hcontrol => hline ?_⟩
  rw [← eq_of_not_needsEscape hplain c hc hcontrol]
  exact hc

/-- A string whose form is `multilineLiteral` has nowhere three single quotes in a row, and no
control characters but line breaks. -/
theorem of_form_eq_multilineLiteral (h : StringForm.of cs = .multilineLiteral) :
    hasTriple '\'' cs = false ∧ ∀ c ∈ cs, isControl c = true → c = '\n' := by
  have hform : cs.any needsEscape = false ∧ hasTriple '\'' cs = false := by
    unfold StringForm.of at h
    grind
  exact ⟨hform.2, eq_of_not_needsEscape hform.1⟩

theorem string?_basic (h : ¬ ['"', '"'] <+: r) : string? ('"' :: r) = basic? r := by
  rw [string?]
  rintro _ rfl
  exact h ⟨_, rfl⟩

theorem string?_literal (h : ¬ ['\'', '\''] <+: r) : string? ('\'' :: r) = literal? r := by
  rw [string?]
  rintro _ rfl
  exact h ⟨_, rfl⟩

/-- The line break of `opening cs` is the one that `dropOpening` passes over. -/
theorem dropOpening_append {body : List Char}
    (h : '\n' ∉ cs → ∀ c ∈ body.head?, c ≠ '\n' ∧ c ≠ '\r') :
    dropOpening (opening cs ++ body) = body := by
  unfold opening
  split
  · rfl
  · next hcs =>
    rw [List.nil_append]
    unfold dropOpening
    split
    · exact absurd rfl (h hcs '\n' rfl).1
    · exact absurd rfl (h hcs '\r' rfl).2
    · rfl

/-- **What `writtenChars cs` writes** is read back by `string?`, up to what follows it. -/
theorem string?_writtenChars (cs : List Char) (hrest : ∀ c ∈ rest.head?, c ≠ '"' ∧ c ≠ '\'') :
    string? (writtenChars cs ++ rest) = some (cs, rest) := by
  have hdouble : '"' ∉ rest.head? := fun hm => (hrest '"' hm).1 rfl
  have hsingle : '\'' ∉ rest.head? := fun hm => (hrest '\'' hm).2 rfl
  unfold writtenChars
  cases hform : StringForm.of cs with
  | basic =>
      have hquotes : ¬ ['"', '"'] <+: cs.flatMap escape ++ '"' :: rest := by
        cases cs with
        | nil => exact not_isPrefix_cons _ hdouble
        | cons c cs =>
            rw [List.flatMap_cons, List.append_assoc]
            exact not_isPrefix_of_head? fun hm => (head?_escape c _ '"' hm).1 rfl
      simp only [List.cons_append, List.append_assoc, List.nil_append]
      rw [string?_basic hquotes, basic?_flatMap]
  | literal =>
      have hplain := of_form_eq_literal hform
      have hquotes : ¬ ['\'', '\''] <+: cs ++ '\'' :: rest := by
        cases cs with
        | nil => exact not_isPrefix_cons _ hsingle
        | cons c cs =>
            exact not_isPrefix_of_head? fun hm =>
              (hplain c List.mem_cons_self).1 (Option.some.inj hm)
      simp only [List.cons_append, List.append_assoc, List.nil_append]
      rw [string?_literal hquotes, literal?_append hplain]
  | multilineBasic =>
      simp only [List.cons_append, List.append_assoc, List.nil_append]
      rw [string?, dropOpening_append, multilineBasic?_body hdouble]
      intro hbreak
      cases cs with
      | nil =>
          rintro _ ⟨⟩
          decide
      | cons c cs =>
          by_cases hquote : c = '"'
          · rw [hquote, multilineBody_quote (by decide)]
            rintro _ ⟨⟩
            decide
          · have hline : c ≠ '\n' := fun h => hbreak (h ▸ List.mem_cons_self)
            rw [multilineBody_escape (.inl hquote) hline, List.append_assoc]
            exact fun d hd => (head?_escape c _ d hd).2
  | multilineLiteral =>
      obtain ⟨htriple, hcontrol⟩ := of_form_eq_multilineLiteral hform
      simp only [List.cons_append, List.append_assoc, List.nil_append]
      rw [string?, dropOpening_append, multilineLiteral?_append hsingle htriple hcontrol]
      intro hbreak
      cases cs with
      | nil =>
          rintro _ ⟨⟩
          decide
      | cons c cs =>
          rintro _ ⟨⟩
          refine ne_of_isControl_eq_false (Bool.eq_false_iff.2 fun hc => hbreak ?_)
          rw [← hcontrol c List.mem_cons_self hc]
          exact List.mem_cons_self

end EmulatorSettings.Toml
