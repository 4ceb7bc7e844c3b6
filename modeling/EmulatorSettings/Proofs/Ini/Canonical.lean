import EmulatorSettings.Proofs.Session.Reachable
import EmulatorSettings.Proofs.Store.Simulation
import EmulatorSettings.Proofs.Text.ByteOrder

/-!
# Settings files — one text for one map

The text of a file depends on its settings alone: not on the order in which they were made, nor on
what was removed since, nor on the sections that were opened on the way.

* `write_eq_joined_blocks`: the text, as blocks of entries.
* `canonical_blocks`: the blocks stand in the order of bytes, and hold each setting once.
* `runAll_eq_flat`: whatever is done to the settings of all files, the answers, the look-ups and the
  texts are those of the flat map.
-/

namespace EmulatorSettings

/-! ### Blocks -/

/-- A section as it stands in a file: its `name`, and its keys with their values as `entries`. -/
structure Block where
  name : String
  entries : List (String × Value)

namespace Block

/-- The header `[name]` and the `entries`, a line each. -/
def text (b : Block) : String :=
  "[" ++ b.name ++ "]\n" ++ String.join (b.entries.map fun e => e.1 ++ "=" ++ e.2.written ++ "\n")

/-- The `text` of every block, with a blank line between two. -/
def joined (bs : List Block) : String :=
  "\n".intercalate (bs.map text)

/-- The blocks `bs` hold what the flat map `t` holds for the file `f`, in the order of the
`Text.bytes` of names and keys: no name stands twice, no key stands twice in a block, and no block
is empty. -/
structure Canonical (t : Flat) (f : SettingsFile) (bs : List Block) : Prop where
  names_increasing : bs.Pairwise fun b c => Text.bytes b.name < Text.bytes c.name
  keys_increasing : ∀ b ∈ bs, b.entries.Pairwise fun d e => Text.bytes d.1 < Text.bytes e.1
  entries_ne_nil : ∀ b ∈ bs, b.entries ≠ []
  mem_iff : ∀ n k v, (∃ b ∈ bs, b.name = n ∧ (k, v) ∈ b.entries) ↔ t.get? ⟨f, n, k⟩ = some v

end Block

namespace Section

variable {s : Section} {n : String}

/-- The section `s` as a block of the name `n`. -/
def block (s : Section) (n : String) : Block :=
  ⟨n, s.settings.entries.map fun d => (d.1, d.2.value)⟩

theorem increasing_entries_block (s : Section) (n : String) :
    (s.block n).entries.Pairwise fun d e => Text.bytes d.1 < Text.bytes e.1 := by
  rw [block, List.pairwise_map]
  exact s.settings.sorted.imp Text.compare_eq_lt_iff.1

theorem entries_block_ne_nil (h : s.isEmpty = false) : (s.block n).entries ≠ [] := by
  intro hnil
  rw [block, List.map_eq_nil_iff] at hnil
  rw [isEmpty, Table.isEmpty, hnil] at h
  cases h

theorem mem_entries_block {k : String} {v : Value} :
    (k, v) ∈ (s.block n).entries ↔ (s.get? k).map (·.value) = some v := by
  rw [block, List.mem_map, Option.map_eq_some_iff]
  constructor
  · rintro ⟨d, hd, hkv⟩
    obtain ⟨rfl, rfl⟩ := Prod.mk.inj hkv
    exact ⟨d.2, Table.mem_entries_iff.1 hd, rfl⟩
  · rintro ⟨x, hx, rfl⟩
    exact ⟨(k, x), Table.mem_entries_iff.2 hx, rfl⟩

/-- What `Ini.sectionText` makes of a section is the text of its `block`. -/
theorem toList_text_block (hs : s.WellStored) :
    (s.block s.name).text.toList = Ini.sectionText s := by
  have hentries : ∀ d ∈ s.settings.entries,
      (d.1 ++ "=" ++ d.2.value.written ++ "\n").toList = Ini.entryText d.2 := by
    intro d hd
    obtain ⟨hk, -⟩ := hs d.1 d.2 (Table.mem_entries_iff.1 hd)
    simp only [Ini.entryText, hk, String.toList_append, List.append_assoc]
    rfl
  rw [block, Block.text, String.toList_append, String.toList_join, List.map_map, List.flatMap_map,
    Ini.sectionText, Table.values, List.flatMap_map]
  refine congr (congrArg HAppend.hAppend ?_) (List.flatMap_congr hentries)
  simp only [String.toList_append]
  rfl

/-- A section is determined by its `name`, its `file` and what `get?` answers. -/
theorem ext_get? {t : Section} (hn : s.name = t.name) (hf : s.file = t.file)
    (h : ∀ k, s.get? k = t.get? k) : s = t := by
  have hsettings : s.settings = t.settings := Table.ext_get? h
  obtain ⟨name, file, settings⟩ := s
  obtain ⟨name', file', settings'⟩ := t
  dsimp only at hn hf hsettings
  rw [hn, hf, hsettings]

end Section

namespace FileSections

variable {m m' : FileSections}

/-- The sections of `m` that have settings, as blocks. -/
def blocks (m : FileSections) : List Block :=
  (m.sections.entries.filter fun e => !e.2.isEmpty).map fun e => e.2.block e.1

/-- **The text of a file** as `Ini.write` makes it is that of its `blocks`. -/
theorem write_eq_joined_blocks (hm : m.WellStored) : Ini.write m = Block.joined m.blocks := by
  have htexts : (m.sections.values.filter fun s => !s.isEmpty).map Ini.sectionText =
      (m.blocks.map Block.text).map String.toList := by
    rw [Table.values, List.filter_map, blocks, List.map_map, List.map_map, List.map_map]
    refine List.map_congr_left fun e he => ?_
    obtain ⟨hn, -, hs⟩ := hm e.1 e.2 (Table.mem_entries_iff.1 (List.mem_filter.1 he).1)
    rw [Function.comp_apply, Function.comp_apply, Function.comp_apply, ← hn]
    exact (Section.toList_text_block hs).symm
  rw [← String.toList_inj, Ini.write, String.toList_ofList, Block.joined, String.toList_intercalate,
    htexts]
  rfl

/-- **The `blocks` of a file** stand in order, and hold each setting of `t` once. -/
theorem canonical_blocks {t : Flat} {f : SettingsFile}
    (h : ∀ n k, t.get? ⟨f, n, k⟩ = (m.get? n k).map (·.value)) :
    Block.Canonical t f m.blocks := by
  have hmem : ∀ b, b ∈ m.blocks ↔ ∃ n s, m.section? n = some s ∧ s.isEmpty = false ∧
      b = s.block n := by
    intro b
    rw [blocks, List.mem_map]
    constructor
    · rintro ⟨e, he, rfl⟩
      obtain ⟨he, hne⟩ := List.mem_filter.1 he
      exact ⟨e.1, e.2, Table.mem_entries_iff.1 he, by simpa using hne, rfl⟩
    · rintro ⟨n, s, hs, hne, rfl⟩
      exact ⟨(n, s), List.mem_filter.2 ⟨Table.mem_entries_iff.2 hs, by simpa using hne⟩, rfl⟩
  refine ⟨?_, fun b hb => ?_, fun b hb => ?_, fun n k v => ?_⟩
  · rw [blocks, List.pairwise_map]
    exact (m.sections.sorted.filter _).imp Text.compare_eq_lt_iff.1
  · obtain ⟨n, s, -, -, rfl⟩ := (hmem b).1 hb
    exact s.increasing_entries_block n
  · obtain ⟨n, s, -, hne, rfl⟩ := (hmem b).1 hb
    exact Section.entries_block_ne_nil hne
  · rw [h, get?]
    constructor
    · rintro ⟨b, hb, rfl, hv⟩
      obtain ⟨n, s, hs, -, rfl⟩ := (hmem b).1 hb
      change ((m.section? n).bind fun s => s.get? k).map (·.value) = some v
      rw [hs]
      exact Section.mem_entries_block.1 hv
    · intro hv
      obtain ⟨x, hx, -⟩ := Option.map_eq_some_iff.1 hv
      obtain ⟨s, hs, hk⟩ := Option.bind_eq_some_iff.1 hx
      rw [hs] at hv
      refine ⟨_, (hmem _).2 ⟨n, s, hs, ?_, rfl⟩, rfl, Section.mem_entries_block.2 hv⟩
      -- a section that holds a key is not empty
      refine Bool.eq_false_iff.2 fun hempty => ?_
      rw [Section.isEmpty_iff.1 hempty k] at hk
      cases hk

/-! ### The same look-ups, the same text -/

theorem section?_withoutEmpty_eq (m : FileSections) (n : String) :
    m.withoutEmpty.section? n = (some (m.sectionOrNew n)).filter fun s => !s.isEmpty := by
  rw [section?_withoutEmpty]
  cases hs : m.section? n with
  | none =>
      rw [sectionOrNew_of_none hs]
      rfl
  | some s => rw [sectionOrNew_of_section? hs]

/-- **Where `get?` answers the same**, `Ini.write` makes the same text. -/
theorem write_eq_of_get? (hm : m.WellStored) (hm' : m'.WellStored) (hf : m.file = m'.file)
    (h : ∀ n k, m.get? n k = m'.get? n k) : Ini.write m = Ini.write m' := by
  have hsection : ∀ n, m.sectionOrNew n = m'.sectionOrNew n := by
    intro n
    obtain ⟨hn, hfile, -⟩ := sectionOrNew_spec hm n
    obtain ⟨hn', hfile', -⟩ := sectionOrNew_spec hm' n
    refine Section.ext_get? (hn.trans hn'.symm) (hfile.trans (hf.trans hfile'.symm)) fun k => ?_
    rw [get?_sectionOrNew, get?_sectionOrNew, h]
  have hempty : m.withoutEmpty = m'.withoutEmpty := by
    have hsections : m.withoutEmpty.sections = m'.withoutEmpty.sections := by
      refine Table.ext_get? fun n => ?_
      change m.withoutEmpty.section? n = m'.withoutEmpty.section? n
      rw [section?_withoutEmpty_eq, section?_withoutEmpty_eq, hsection]
    change FileSections.mk m.file m.withoutEmpty.sections = ⟨m'.file, m'.withoutEmpty.sections⟩
    rw [hf, hsections]
  rw [← Ini.write_withoutEmpty m, hempty, Ini.write_withoutEmpty]

end FileSections

/-! ### Whole runs -/

/-- What the operation `op` brings in was built from nothing: it is `Reachable`. -/
def Settings.Operation.BringsReachable (op : Settings.Operation) : Prop :=
  (∀ m ∈ op.file?, Reachable (.file m)) ∧ ∀ t ∈ op.section?, Reachable (.part t)

/-- **Whatever `ops` are done** to the settings of all files, the answers of `runAll` and of `get?`
are those of `Flat.runAll`.  The text that `Ini.write` makes of a file `f` holds what the flat map
holds for `f`, in the order of `Text.bytes`, and is the same after all runs that end with the same
there. -/
theorem runAll_eq_flat {ops : List Settings.Operation} (hops : ∀ op ∈ ops, op.BringsReachable) :
    let r := Settings.Operation.runAll .empty ops
    let q := Flat.runAll .empty ops
    r.1 = q.1 ∧
    (∀ f n k, r.2.get? f n k = q.2.setting? ⟨f, n, k⟩) ∧
    ∀ f, (∃ bs, Block.Canonical q.2 f bs ∧ Ini.write (r.2.fileOrNew f) = Block.joined bs) ∧
      ∀ ops' : List Settings.Operation, (∀ op ∈ ops', op.BringsReachable) →
        (∀ n k, (Flat.runAll .empty ops').2.get? ⟨f, n, k⟩ = q.2.get? ⟨f, n, k⟩) →
        Ini.write ((Settings.Operation.runAll .empty ops').2.fileOrNew f) =
          Ini.write (r.2.fileOrNew f) := by
  have hall : ∀ ops : List Settings.Operation, (∀ op ∈ ops, op.BringsReachable) →
      Flat.runAll .empty ops = ((Settings.Operation.runAll .empty ops).1,
        (Settings.Operation.runAll .empty ops).2.flat) ∧
      (Settings.Operation.runAll .empty ops).2.WellStored := fun ops hops =>
    flat_runAll Settings.wellStored_empty ops
      (fun op hop m hm => wellStored_of_reachable ((hops op hop).1 m hm))
      (fun op hop t ht => wellStored_of_reachable ((hops op hop).2 t ht))
  obtain ⟨hflat, hs⟩ := hall ops hops
  dsimp only
  rw [hflat]
  refine ⟨rfl, fun f n k => (Settings.setting?_flat hs f n k).symm, fun f => ⟨?_, ?_⟩⟩
  · obtain ⟨-, hm⟩ := Settings.fileOrNew_spec hs f
    exact ⟨_, FileSections.canonical_blocks (Settings.get?_flat_file _ f),
      FileSections.write_eq_joined_blocks hm⟩
  · intro ops' hops' hsame
    obtain ⟨hflat', hs'⟩ := hall ops' hops'
    rw [hflat'] at hsame
    obtain ⟨hf, hm⟩ := Settings.fileOrNew_spec hs f
    obtain ⟨hf', hm'⟩ := Settings.fileOrNew_spec hs' f
    refine FileSections.write_eq_of_get? hm' hm (hf'.trans hf.symm) fun n k => ?_
    rw [Settings.get?_fileOrNew, Settings.get?_fileOrNew, ← Settings.setting?_flat hs,
      ← Settings.setting?_flat hs', Flat.setting?, Flat.setting?, hsame]

/-- Two settings, one after the other. -/
def straight : List Settings.Operation :=
  [.put ⟨"use_cpu_jit", "Core", .config, .int 1⟩, .trySet .config "Renderer" "use_vsync" (.int 0)]

/-- The settings of `straight` after a file that is dropped again, in sections that are opened,
filled with something else, and replaced. -/
def roundabout : List Settings.Operation :=
  let core := Section.Operation.set "use_cpu_jit" (.int 1)
  [.insertFile (Ini.read .config "[Core]\nvolume=3\n").sections, .clear,
    .work .config (.work "Renderer" (.set "use_vsync" (.int 0))), .work .config (.ensure "Empty"),
    .work .config (.work "Core" (.set "volume" (.int 3))),
    .work .config (.work "Empty" (.set "x" (.int 4))), .work .config (.work "Empty" (.remove "x")),
    .work .config (.insert (core.run (.new "Core" .config)).2)]

theorem runAll_roundabout :
    Ini.write ((Settings.Operation.runAll .empty roundabout).2.fileOrNew .config) =
        Ini.write ((Settings.Operation.runAll .empty straight).2.fileOrNew .config) ∧
      (Settings.Operation.runAll .empty straight).2.get? .config "Core" "use_cpu_jit" =
        some ⟨"use_cpu_jit", "Core", .config, .int 1⟩ := by
  have hstraight : ∀ op ∈ straight, op.BringsReachable := by
    simp [straight, Settings.Operation.BringsReachable, Settings.Operation.file?,
      Settings.Operation.section?]
  have hroundabout : ∀ op ∈ roundabout, op.BringsReachable := by
    -- two of the operations bring something in
    simp only [roundabout, List.forall_mem_cons, Settings.Operation.BringsReachable,
      Settings.Operation.file?, Settings.Operation.section?, FileSections.Operation.section?,
      Option.mem_some_iff, forall_eq', Option.not_mem_none, false_imp_iff, implies_true, true_and,
      and_true, List.not_mem_nil]
    exact ⟨.read _ _, .onSection (.newSection _ _) _⟩
  have hsame : (Flat.runAll .empty roundabout).2 = (Flat.runAll .empty straight).2 := by
    decide +kernel
  obtain ⟨-, hget, htext⟩ := runAll_eq_flat hstraight
  refine ⟨(htext .config).2 roundabout hroundabout fun n k => by rw [hsame], ?_⟩
  rw [hget]
  decide +kernel

end EmulatorSettings
