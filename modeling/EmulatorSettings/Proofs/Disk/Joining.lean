import EmulatorSettings.Disk.Path
import Mathlib.Data.List.Basic

/-!
# Disk — paths that were joined

A path that was joined with the name of a file has that name as its last part, whatever it was
joined to: an empty path, a relative one, or one with slashes at its end.  What a path means is
read off its components, where parts that lead nowhere are left out.

* `components_join`, `steps_join`: the name is the last component, and the last step.
* `parent_join`: the parent is the path that the name was joined to.
* `components_of_isFileName`: the names of files are the paths of one component that is a name.
-/

namespace EmulatorSettings.Path

/-- The `name` has no slash and is not empty, `.` or `..`: in any directory it leads to something of
that name. -/
structure IsFileName (name : String) : Prop where
  slash : '/' ∉ name.toList
  ne_empty : name ≠ ""
  ne_here : name ≠ "."
  ne_above : name ≠ ".."

/-- A part of a path that means something: the `root`, `.` in front, `..` or a `name`. -/
inductive Component where
  | root
  | here
  | above
  | name (s : String)
  deriving DecidableEq

/-- What a part of a path means.  Empty parts and `.` mean `none`. -/
def Component.ofPart? (part : String) : Option Component :=
  if part = "" ∨ part = "." then none
  else if part = ".." then some .above
  else some (.name part)

/-- The components of a `path`: `root` for a leading slash or `here` for a leading `.`, then
whatever `Component.ofPart?` makes of its `parts`. -/
def components (path : String) : List Component :=
  (if isAbsolute path then [.root] else if (parts path).head? = some "." then [.here] else []) ++
    (parts path).filterMap Component.ofPart?

variable {name : String}

theorem IsFileName.isAbsolute (h : IsFileName name) : isAbsolute name = false :=
  Bool.eq_false_iff.2 fun habs => h.slash (List.mem_of_mem_head? (eq_of_beq habs))

theorem IsFileName.ofPart? (h : IsFileName name) : Component.ofPart? name = some (.name name) := by
  rw [Component.ofPart?, if_neg (not_or.2 ⟨h.ne_empty, h.ne_here⟩), if_neg h.ne_above]

/-! ### Parts -/

theorem parts_of_no_slash (h : '/' ∉ name.toList) : parts name = [name] := by
  rw [parts, List.splitOn_eq_singleton h, List.map_singleton, String.ofList_toList]

theorem parts_append_slash (h : '/' ∉ name.toList) (b : String) :
    parts (b ++ "/" ++ name) = parts b ++ [name] := by
  have hsplit : (b ++ "/" ++ name).toList.splitOn '/' = b.toList.splitOn '/' ++ [name.toList] := by
    rw [← List.splitOn_eq_singleton h, String.toList_append, String.toList_append,
      List.append_assoc]
    exact List.splitOnP_append_cons _ _ (beq_self_eq_true '/')
  rw [parts, hsplit, List.map_append, List.map_singleton, String.ofList_toList]
  rfl

/-- The `parts` of a `path` with slashes between them are the `path`. -/
theorem intercalate_parts (path : String) : String.intercalate "/" (parts path) = path := by
  rw [← String.toList_inj, String.toList_intercalate, parts, List.map_map]
  have hmap : (path.toList.splitOn '/').map (String.toList ∘ String.ofList) =
      path.toList.splitOn '/' := by
    simp [Function.comp_def]
  rw [hmap]
  exact List.intercalate_splitOn '/'

theorem parts_ne_nil (path : String) : parts path ≠ [] := by
  rw [parts, ne_eq, List.map_eq_nil_iff]
  exact List.splitOn_ne_nil _ _

/-! ### Joining -/

/-- **The path `join base name`** is the `name` alone if `base` is empty, and else ends with
`"/" ++ name`. -/
theorem join_cases (h : IsFileName name) (base : String) :
    (base = "" ∧ join base name = name) ∨
      ∃ b, (base = b ++ "/" ∨ base = b ∧ b ≠ "") ∧ join base name = b ++ "/" ++ name := by
  rw [join, if_neg (by rw [h.isAbsolute]; exact Bool.false_ne_true)]
  split
  · next hlast =>
    cases hbase : base.toList.getLast? with
    | none =>
        rw [List.getLast?_eq_none_iff, String.toList_eq_nil_iff] at hbase
        exact .inl ⟨hbase, by rw [hbase, String.empty_append]⟩
    | some c =>
        rw [hbase, Option.all_some, beq_iff_eq] at hlast
        obtain ⟨cs, hcs⟩ := List.getLast?_eq_some_iff.1 hbase
        have hb : base = String.ofList cs ++ "/" := by
          rw [← String.toList_inj, hcs, hlast, String.toList_append, String.toList_ofList]
          rfl
        exact .inr ⟨_, .inl hb, by rw [hb]⟩
  · next hlast =>
    refine .inr ⟨base, .inr ⟨rfl, ?_⟩, rfl⟩
    rintro rfl
    exact hlast rfl

/-- The text `base` stands in front of `join base name`. -/
theorem exists_join_eq_append (h : IsFileName name) (base : String) :
    ∃ s, join base name = base ++ s := by
  rcases join_cases h base with ⟨rfl, hjoin⟩ | ⟨b, rfl | ⟨rfl, -⟩, hjoin⟩
  · exact ⟨name, by rw [hjoin, String.empty_append]⟩
  · exact ⟨name, hjoin⟩
  · exact ⟨"/" ++ name, by rw [hjoin, String.append_assoc]⟩

theorem join_ne_empty (h : IsFileName name) (base : String) : join base name ≠ "" := by
  rcases join_cases h base with ⟨-, hjoin⟩ | ⟨b, -, hjoin⟩
  · rw [hjoin]
    exact h.ne_empty
  · rw [hjoin]
    exact fun hempty => absurd (congrArg String.toList hempty) (by simp)

theorem endsInSlash_join (h : IsFileName name) (base : String) :
    endsInSlash (join base name) = false := by
  refine Bool.eq_false_iff.2 fun hends => ?_
  obtain ⟨pre, hpre⟩ := @join_of_relative base name h.isAbsolute
  have hne : name.toList ≠ [] := fun hnil => h.ne_empty (String.toList_eq_nil_iff.1 hnil)
  rw [endsInSlash, ← hpre, beq_iff_eq, List.getLast?_append, List.getLast?_eq_some_getLast hne,
    Option.some_or, Option.some.injEq] at hends
  exact h.slash (hends ▸ List.getLast_mem hne)

/-- **The `name` is the last part** of `join base name`.  Before it stand the `parts` of `base`, but
for an empty one at the end. -/
theorem exists_parts_join (h : IsFileName name) (base : String) :
    ∃ ps, parts (join base name) = ps ++ [name] ∧
      (base = "" ∧ ps = [] ∨ ps ≠ [] ∧ (parts base = ps ∨ parts base = ps ++ [""])) := by
  rcases join_cases h base with ⟨hbase, hjoin⟩ | ⟨b, hbase, hjoin⟩
  · exact ⟨[], by rw [hjoin, parts_of_no_slash h.slash, List.nil_append], .inl ⟨hbase, rfl⟩⟩
  · refine ⟨parts b, by rw [hjoin, parts_append_slash h.slash], .inr ⟨parts_ne_nil b, ?_⟩⟩
    obtain rfl | ⟨rfl, -⟩ := hbase
    · have hslash := @parts_append_slash "" List.not_mem_nil b
      rw [String.append_empty] at hslash
      exact .inr hslash
    · exact .inl rfl

theorem names_join (h : IsFileName name) (base : String) :
    names (join base name) = names base ++ [name] := by
  have hname : [name].filter (· ≠ "") = [name] := by simp [h.ne_empty]
  obtain ⟨ps, hps, ⟨rfl, rfl⟩ | ⟨-, hbase | hbase⟩⟩ := exists_parts_join h base
  · rw [names, hps, List.filter_append, hname]
    rfl
  · rw [names, names, hps, hbase, List.filter_append, hname]
  · have hempty : [""].filter (· ≠ "") = [] := rfl
    rw [names, names, hps, hbase, List.filter_append, hname, List.filter_append, hempty,
      List.append_nil]

/-- **The last step** along `join base name` is `name`, after the `names` of `base`. -/
theorem steps_join (h : IsFileName name) (base : String) :
    steps (join base name) = names base ++ [name] := by
  rw [steps, if_neg (by rw [endsInSlash_join h]; exact Bool.false_ne_true), names_join h]

/-- Whether `join base name` starts at the root is seen from `base`. -/
theorem isAbsolute_join (h : IsFileName name) (base : String) :
    isAbsolute (join base name) = isAbsolute base := by
  rcases join_cases h base with ⟨rfl, hjoin⟩ | ⟨b, hbase, hjoin⟩
  · rw [hjoin, h.isAbsolute]
    rfl
  · rw [hjoin, isAbsolute, isAbsolute, String.toList_append]
    obtain rfl | ⟨rfl, hne⟩ := hbase
    · rw [List.head?_append_of_ne_nil _ (by simp)]
    · have hne : base.toList ≠ [] := fun hnil => hne (String.toList_eq_nil_iff.1 hnil)
      rw [List.head?_append_of_ne_nil _ (by simp), String.toList_append,
        List.head?_append_of_ne_nil _ hne]

/-! ### Components -/

/-- **The last component** of `join base name` is `.name name`. -/
theorem components_join (h : IsFileName name) (base : String) :
    components (join base name) = components base ++ [.name name] := by
  have hname : [name].filterMap Component.ofPart? = [.name name] := by
    rw [List.filterMap_cons_some h.ofPart?, List.filterMap_nil]
  rw [components, components, isAbsolute_join h]
  obtain ⟨ps, hps, ⟨rfl, rfl⟩ | ⟨hne, hbase⟩⟩ := exists_parts_join h base
  · have hhead : [name].head? ≠ some "." := fun hhere => h.ne_here (Option.some.inj hhere)
    rw [hps, List.nil_append, if_neg hhead, hname]
    rfl
  · -- an empty part at the end of the base changes neither its head nor what is left in
    have hhead : (parts base).head? = ps.head? := by
      rcases hbase with hbase | hbase
      · rw [hbase]
      · rw [hbase, List.head?_append_of_ne_nil _ hne]
    have hrest : (parts base).filterMap Component.ofPart? = ps.filterMap Component.ofPart? := by
      rcases hbase with hbase | hbase
      · rw [hbase]
      · rw [hbase, List.filterMap_append]
        exact List.append_nil _
    rw [hps, hhead, hrest, List.head?_append_of_ne_nil _ hne, List.filterMap_append, hname,
      List.append_assoc]

/-- **A `name` with `IsFileName`** is a path of one component that is a name, and there is no other
such path without a slash. -/
theorem components_of_isFileName (h : '/' ∉ name.toList) :
    (∃ s, components name = [.name s]) ↔ IsFileName name := by
  refine ⟨fun ⟨s, hs⟩ => ?_, fun hname => ⟨name, ?_⟩⟩
  · have hempty : components "" = [] := by decide
    have hhere : components "." = [.here] := by decide
    have habove : components ".." = [.above] := by decide
    refine ⟨h, ?_, ?_, ?_⟩
    · rintro rfl
      exact absurd (hempty.symm.trans hs) (List.cons_ne_nil _ _).symm
    · rintro rfl
      exact absurd (List.cons.inj (hhere.symm.trans hs)).1 Component.noConfusion
    · rintro rfl
      exact absurd (List.cons.inj (habove.symm.trans hs)).1 Component.noConfusion
  · have hjoin := components_join hname ""
    rcases join_cases hname "" with ⟨-, heq⟩ | ⟨b, hbase, -⟩
    · rw [heq] at hjoin
      exact hjoin
    · obtain hbase | ⟨rfl, hne⟩ := hbase
      · exact absurd (congrArg String.toList hbase) (by simp)
      · exact absurd rfl hne

/-! ### Parents -/

theorem trimmed_concat (h : IsFileName name) (ps : List String) :
    trimmed (ps ++ [name]) = ps ++ [name] := by
  have hkept : (name == "" || name == ".") = false := by simp [h.ne_empty, h.ne_here]
  rw [trimmed, List.reverse_append, List.reverse_singleton, List.singleton_append,
    List.dropWhile_cons_of_neg (by rw [hkept]; exact Bool.false_ne_true), List.reverse_cons,
    List.reverse_reverse]

/-- **The `parent`** of a path that was joined with two names is the path joined with the first. -/
theorem parent_join {directory : String} (hd : IsFileName directory) (h : IsFileName name)
    (base : String) : parent (join (join base directory) name) = join base directory := by
  obtain ⟨ps, hps, ⟨hempty, -⟩ | ⟨-, hbase⟩⟩ := exists_parts_join h (join base directory)
  · exact absurd hempty (join_ne_empty hd base)
  · obtain ⟨qs, hqs, -⟩ := exists_parts_join hd base
    have hlast : directory ≠ "" := hd.ne_empty
    obtain rfl : ps = qs ++ [directory] := by
      rcases hbase with hbase | hbase
      · exact hbase.symm.trans hqs
      · rw [hqs] at hbase
        exact absurd (List.cons.inj (List.append_inj_right' hbase rfl)).1 hlast
    have hpath := intercalate_parts (join base directory)
    rw [hqs] at hpath
    rw [parent, hps]
    cases qs with
    | nil =>
        rw [List.nil_append, List.singleton_append]
        dsimp only
        have hrest : trimmed [name] = [name] := trimmed_concat h []
        rw [hrest, if_neg (List.cons_ne_nil _ _), if_neg fun hc => hlast hc.1]
        exact hpath
    | cons first rest =>
        rw [List.cons_append, List.cons_append]
        dsimp only
        rw [trimmed_concat h, if_neg (by simp), List.dropLast_concat, trimmed_concat hd,
          if_neg fun hc => by simp at hc]
        exact hpath

end EmulatorSettings.Path
