import EmulatorSettings.Text.Basic

/-!
# Text — lines and trimmed texts

* `lines_append`: a text that ends with a line feed is its own line, whatever follows.
* `not_mem_of_mem_lines`: no line holds a line feed.
* `trim_trim`: trimming twice is trimming once.
* `head?_trim`, `getLast?_trim`: trimming keeps an end that is not blank.
-/

namespace EmulatorSettings.Text

/-! ### Lines -/

/-- **One line `l`, and the rest.** The carriage return is excluded: before `\n` it belongs to the
end of the line. -/
theorem lines_append {l : List Char} (rest : List Char) (hfeed : '\n' ∉ l)
    (hreturn : l.getLast? ≠ some '\r') : lines (l ++ '\n' :: rest) = l :: lines rest := by
  induction l with
  | nil => rfl
  | cons c r ih =>
      have hc : c ≠ '\n' := fun h => hfeed (h ▸ List.mem_cons_self)
      have hr : '\n' ∉ r := fun h => hfeed (List.mem_cons_of_mem c h)
      have hlines : lines (r ++ '\n' :: rest) = r :: lines rest := by
        cases r with
        | nil => rfl
        | cons d r => exact ih hr (by rwa [List.getLast?_cons_cons] at hreturn)
      -- the line feed right after a carriage return would have to be the one that ends the line
      have hpair : ∀ r', c = '\r' → r ++ '\n' :: rest ≠ '\n' :: r' := by
        intro r' hcr heq
        cases r with
        | nil => exact hreturn (by rw [hcr]; rfl)
        | cons d r => exact hr ((List.cons.inj heq).1 ▸ List.mem_cons_self)
      rw [List.cons_append, lines, hlines]
      · exact hpair
      · exact hc

theorem not_mem_of_mem_lines {cs l : List Char} (h : l ∈ lines cs) : '\n' ∉ l := by
  fun_induction lines cs generalizing l with
  | case1 => cases h
  | case2 r ih | case3 r ih =>
      rcases List.mem_cons.1 h with rfl | h
      · exact List.not_mem_nil
      · exact ih h
  | case4 c r _ hc hr ih =>
      rw [List.mem_singleton] at h
      subst h
      exact fun hm => hc (List.mem_singleton.1 hm).symm
  | case5 c r _ hc l' ls hr ih =>
      rcases List.mem_cons.1 h with rfl | h
      · intro hm
        rcases List.mem_cons.1 hm with hm | hm
        · exact hc hm.symm
        · exact ih (hr ▸ List.mem_cons_self) hm
      · exact ih (hr ▸ List.mem_cons_of_mem l' h)

/-! ### Trimmed texts -/

theorem isPrefix_trimEnd (cs : List Char) : trimEnd cs <+: cs := by
  have h := List.dropWhile_suffix (l := cs.reverse) isBlank
  rwa [← List.reverse_prefix, List.reverse_reverse] at h

theorem trim_subset (cs : List Char) : trim cs ⊆ cs := fun _ h =>
  (List.dropWhile_sublist _).subset ((isPrefix_trimEnd _).subset h)

theorem head?_eq_of_isPrefix {cs ds : List Char} (h : cs <+: ds) (hne : cs ≠ []) :
    cs.head? = ds.head? := by
  obtain ⟨r, rfl⟩ := h
  obtain ⟨c, cs, rfl⟩ := List.exists_cons_of_ne_nil hne
  rfl

theorem getLast?_trimEnd (cs : List Char) : ∀ c ∈ (trimEnd cs).getLast?, isBlank c = false := by
  rw [trimEnd, List.getLast?_reverse]
  exact fun _ => eq_false_of_head?_dropWhile

theorem trim_trim (cs : List Char) : trim (trim cs) = trim cs := by
  refine trim_eq_self_iff.2 ⟨fun c hc => ?_, getLast?_trimEnd _⟩
  have hne : trim cs ≠ [] := fun h => by rw [h] at hc; cases hc
  have hhead : (trim cs).head? = (trimStart cs).head? :=
    head?_eq_of_isPrefix (isPrefix_trimEnd (trimStart cs)) hne
  exact eq_false_of_head?_dropWhile (hhead ▸ hc)

/-- Trimming by `trim` keeps the first character if that is not blank. -/
theorem head?_trim {cs : List Char} (h : ∀ c ∈ cs.head?, isBlank c = false) (hne : trim cs ≠ []) :
    (trim cs).head? = cs.head? := by
  have hstart : trimStart cs = cs := dropWhile_eq_self_of_head h
  rw [trim, hstart] at hne ⊢
  exact head?_eq_of_isPrefix (isPrefix_trimEnd cs) hne

/-- Trimming by `trim` keeps the last character if that is not blank. -/
theorem getLast?_trim {cs : List Char} (h : ∀ c ∈ cs.getLast?, isBlank c = false)
    (hne : trim cs ≠ []) : (trim cs).getLast? = cs.getLast? := by
  have hsuffix : trimStart cs <:+ cs := List.dropWhile_suffix isBlank
  have hstart : trimStart cs ≠ [] := fun he => hne (by rw [trim, he]; rfl)
  have hlast : (trimStart cs).getLast? = cs.getLast? := by
    have hstarts := List.reverse_prefix.2 hsuffix
    have hrev := head?_eq_of_isPrefix hstarts (List.reverse_ne_nil_iff.2 hstart)
    rwa [List.head?_reverse, List.head?_reverse] at hrev
  rw [trim, trimEnd_eq_self_of_getLast (hlast ▸ h), hlast]

end EmulatorSettings.Text
