import EmulatorSettings.Preferences.File
import EmulatorSettings.Proofs.Disk.Directories
import EmulatorSettings.Proofs.Storage.SavedText
import EmulatorSettings.Proofs.Toml.Documents

/-!
# Preferences — what was saved

A save makes the directory of the file first, and then writes the file if the preferences can be
written at all.

* `text?_named`, `ofText?_text?`: the text of preferences, and what is read from it.
* `saveResult_of_run`: how far a save comes.
* `load_after_save`: preferences that were saved are loaded again, whatever their characters; those
  whose directory is no text are refused, and no file is written.
-/

namespace EmulatorSettings.Preferences

variable {p : Preferences} {path text : String} {t t' : Tree}

/-! ### Text -/

/-- The keys of preferences and their strings, as `text?` writes them. -/
def lines (directory : Option String) (level : String) : List (String × String) :=
  (directory.map fun d => (directoryKey, d)).toList ++ [(levelKey, level)]

theorem bareKey_keys : Toml.BareKey directoryKey.toList ∧ Toml.BareKey levelKey.toList := by
  decide

theorem nodup_keys : [directoryKey, levelKey].Nodup := by
  decide

theorem text?_named (directory : Option String) (level : String) :
    text? ⟨directory.map .text, level⟩ =
      .ok (String.ofList ((lines directory level).flatMap Toml.line)) := by
  have hlast : [(levelKey, level)].flatMap Toml.line = line levelKey level :=
    List.flatMap_singleton Toml.line _
  rw [lines, List.flatMap_append, hlast]
  cases directory with
  | none => rfl
  | some d =>
      have hfirst : [(directoryKey, d)].flatMap Toml.line = line directoryKey d :=
        List.flatMap_singleton Toml.line _
      rw [Option.map_some, Option.map_some, Option.toList_some, hfirst]
      rfl

/-- **Preferences with a `text?`** name their `userDirectory` by text, if they name one. -/
theorem exists_directory_of_text? (h : p.text? = .ok text) :
    ∃ directory : Option String, p.userDirectory = directory.map .text := by
  obtain ⟨_ | d | b, level⟩ := p
  · exact ⟨none, rfl⟩
  · exact ⟨some d, rfl⟩
  · cases h

/-- **What preferences say** is read by `ofText?` from their `text?`. -/
theorem ofText?_text? (h : p.text? = .ok text) : ofText? text = .ok p := by
  obtain ⟨directory, hdirectory⟩ := exists_directory_of_text? h
  obtain ⟨_, level⟩ := p
  obtain rfl := hdirectory
  rw [text?_named] at h
  have hbare : ∀ q ∈ lines directory level, Toml.BareKey q.1.toList := by
    cases directory with
    | none => exact List.forall_mem_singleton.2 bareKey_keys.2
    | some d =>
        exact List.forall_mem_cons.2 ⟨bareKey_keys.1, List.forall_mem_singleton.2 bareKey_keys.2⟩
  have hkeys : ((lines directory level).map (·.1)).Nodup := by
    cases directory with
    | none => exact (List.nodup_cons.1 nodup_keys).2
    | some d => exact nodup_keys
  rw [ofText?, ← Except.ok.inj h, Toml.read?_lines hbare hkeys]
  cases directory <;> rfl

/-! ### Saving -/

/-- How far `save` to `path` comes in the tree `t`: what it answers, and the tree it leaves. -/
inductive SaveResult (path : String) (p : Preferences) (t : Tree) :
    Except PreferencesError Unit → Tree → Prop where
  | noDirectory {cause : DiskError} {t' : Tree}
      (hmade : t.createDirectories (Path.parent path) = (.error cause, t')) :
      SaveResult path p t (.error (.disk (Path.parent path) cause)) t'
  | unwritable {b : List UInt8} {t' : Tree}
      (hmade : t.createDirectories (Path.parent path) = (.ok (), t'))
      (hname : p.userDirectory = some (.bytes b)) : SaveResult path p t (.error .unwritable) t'
  | notWritten {text : String} {cause : DiskError} {t' : Tree}
      (hmade : t.createDirectories (Path.parent path) = (.ok (), t'))
      (htext : p.text? = .ok text) (hwrite : t'.write path (.text text) = .error cause) :
      SaveResult path p t (.error (.disk path cause)) t'
  | written {text : String} {t₁ t' : Tree}
      (hmade : t.createDirectories (Path.parent path) = (.ok (), t₁))
      (htext : p.text? = .ok text) (hwrite : t₁.write path (.text text) = .ok t') :
      SaveResult path p t (.ok ()) t'

/-- **What `save` does**: it makes the directory, finds the text and writes it, and stops where that
fails. -/
theorem saveResult_of_run {result : Except PreferencesError Unit}
    (h : (save Tree.disk path p).run t = (result, t')) : SaveResult path p t result t' := by
  obtain ⟨made, t₁, hmade⟩ : ∃ made t₁, t.createDirectories (Path.parent path) = (made, t₁) :=
    ⟨_, _, rfl⟩
  have hrun : (Tree.disk.createDirectories (Path.parent path)).run t = (made, t₁) := hmade
  rw [save, Repository.run_bind_of_run hrun] at h
  cases made with
  | error cause =>
      obtain ⟨rfl, rfl⟩ := Prod.mk.inj h
      exact .noDirectory hmade
  | ok u =>
      dsimp only at h
      cases htext : p.text? with
      | error e =>
          rw [htext] at h
          obtain ⟨rfl, rfl⟩ := Prod.mk.inj h
          obtain ⟨rfl, b, hname⟩ := text?_eq_error_iff.1 htext
          exact .unwritable hmade hname
      | ok text =>
          rw [htext] at h
          dsimp only at h
          cases hwrite : t₁.write path (.text text) with
          | error cause =>
              rw [Repository.run_bind_of_run (Repository.run_writeText_error hwrite)] at h
              obtain ⟨rfl, rfl⟩ := Prod.mk.inj h
              exact .notWritten hmade htext hwrite
          | ok t₂ =>
              rw [Repository.run_bind_of_run (Repository.run_writeText_ok hwrite)] at h
              obtain ⟨rfl, rfl⟩ := Prod.mk.inj h
              exact .written hmade htext hwrite

/-- Preferences in a file that has their `text?` are loaded as they are. -/
theorem run_load_of_readText (hread : t.readText path = .ok text) (htext : p.text? = .ok text) :
    (load Tree.disk path).run t = (.ok p, t) := by
  have hrun : (Tree.disk.readText path).run t = (.ok text, t) := congrArg (·, t) hread
  rw [load, Repository.run_bind_of_run hrun]
  exact congrArg (·, t) (ofText?_text? htext)

/-- **After a `save` that succeeds** `load` finds the preferences `p` again. -/
theorem SaveResult.load (h : SaveResult path p t (.ok ()) t') :
    (load Tree.disk path).run t' = (.ok p, t') := by
  cases h with
  | written hmade htext hwrite =>
      exact run_load_of_readText (Tree.readText_of_write hwrite) htext

/-- What was saved names its `userDirectory` by text, if it names one. -/
theorem SaveResult.exists_directory (h : SaveResult path p t (.ok ()) t') :
    ∃ directory : Option String, p.userDirectory = directory.map .text := by
  cases h with
  | written hmade htext hwrite => exact exists_directory_of_text? htext

/-- **A `save` that fails** leaves every file as it is, and makes none: `t'` has the files of `t`.
-/
theorem SaveResult.node?_eq_file_iff {result : Except PreferencesError Unit}
    (h : SaveResult path p t result t') (hfail : result ≠ .ok ()) (place : List String)
    (c : Contents) : t'.node? place = some (.file c) ↔ t.node? place = some (.file c) := by
  have hdirectories {made t₁} (hmade : t.createDirectories (Path.parent path) = (made, t₁)) :
      t₁.node? place = some (.file c) ↔ t.node? place = some (.file c) := by
    have hextends := t.extends_createDirectories (Path.parent path)
    rw [hmade] at hextends
    exact hextends.node?_eq_file_iff not_false
  cases h with
  | noDirectory hmade => exact hdirectories hmade
  | unwritable hmade hname => exact hdirectories hmade
  | notWritten hmade htext hwrite => exact hdirectories hmade
  | written => exact absurd rfl hfail

/-- **A `userDirectory` that is no text** is answered with `unwritable`, once there is a directory
for the file. -/
theorem SaveResult.eq_of_bytes {result : Except PreferencesError Unit} {b : List UInt8}
    (h : SaveResult path p t result t') (hname : p.userDirectory = some (.bytes b)) :
    result = match (t.createDirectories (Path.parent path)).1 with
      | .ok ()       => .error .unwritable
      | .error cause => .error (.disk (Path.parent path) cause) := by
  have hnone : ∀ text, p.text? ≠ .ok text := fun text htext => by
    obtain ⟨directory, hdirectory⟩ := exists_directory_of_text? htext
    rw [hname] at hdirectory
    cases directory <;> cases hdirectory
  cases h with
  | noDirectory hmade => rw [hmade]
  | unwritable hmade hname => rw [hmade]
  | notWritten hmade htext hwrite => exact absurd htext (hnone _)
  | written hmade htext hwrite => exact absurd htext (hnone _)

/-- **Preferences survive a `save`** that succeeds, whatever characters they are made of: `load`
from the same `path` finds `p`.  The answer is `unwritable` only for a `userDirectory` that is no
text.  With such a directory `save` always fails: by `unwritable`, or because the directory of the
file cannot be made; and it leaves every file as it is. -/
theorem load_after_save {result : Except PreferencesError Unit}
    (h : (save Tree.disk path p).run t = (result, t')) :
    (result = .ok () → (load Tree.disk path).run t' = (.ok p, t')) ∧
      (result = .error .unwritable → ∃ b, p.userDirectory = some (.bytes b)) ∧
      ∀ b, p.userDirectory = some (.bytes b) →
        (result = match (t.createDirectories (Path.parent path)).1 with
          | .ok ()       => .error .unwritable
          | .error cause => .error (.disk (Path.parent path) cause)) ∧
        ∀ place c, t'.node? place = some (.file c) ↔ t.node? place = some (.file c) := by
  have hresult := saveResult_of_run h
  refine ⟨?_, ?_, fun b hname => ⟨hresult.eq_of_bytes hname, hresult.node?_eq_file_iff ?_⟩⟩
  · rintro rfl
    exact hresult.load
  · rintro rfl
    cases hresult with
    | unwritable hmade hname => exact ⟨_, hname⟩
  · rw [hresult.eq_of_bytes hname]
    split <;> exact nofun

/-- Preferences with quotes of both kinds, backslashes, line breaks, control characters and a letter
of two bytes. -/
def awkward : Preferences :=
  ⟨some (.text "C:\\games\n\"\x27\x27\x27\"\"\"\x00ü"), "a\r\nb\x27\t\\"⟩

/-- The tree with the preferences `awkward` in the file `config.toml`. -/
def awkwardTree : Tree :=
  Tree.empty.put ["config.toml"] (.file (.text
    ("user_directory = \"\"\"\nC:\\\\games\n\"\x27\x27\x27\"\"\\\"\\u0000ü\"\"\"\n" ++
      "log_level = \"\"\"\na\\r\nb\x27\\t\\\\\"\"\"\n")))

theorem load_after_save_awkward :
    (save Tree.disk "config.toml" awkward).run Tree.empty = (.ok (), awkwardTree) ∧
      (load Tree.disk "config.toml").run awkwardTree = (.ok awkward, awkwardTree) ∧
      ((save Tree.disk "config.toml" ⟨some (.bytes [0xff]), "info"⟩).run awkwardTree).1 =
        .error .unwritable := by
  have hsave : (save Tree.disk "config.toml" awkward).run Tree.empty = (.ok (), awkwardTree) :=
    Prod.ext (by decide +kernel) (by decide +kernel)
  obtain ⟨result, t', hrefused⟩ : ∃ result t', (save Tree.disk "config.toml"
      ⟨some (.bytes [0xff]), "info"⟩).run awkwardTree = (result, t') := ⟨_, _, rfl⟩
  have hmade : (awkwardTree.createDirectories (Path.parent "config.toml")).1 = .ok () := by
    decide +kernel
  obtain ⟨hresult, -⟩ := (load_after_save hrefused).2.2 [0xff] rfl
  rw [hmade] at hresult
  exact ⟨hsave, (load_after_save hsave).1 rfl, (congrArg Prod.fst hrefused).trans hresult⟩

/-- A tree with a file `f` where a directory would have to be. -/
def occupied : Tree :=
  Tree.empty.put ["f"] (.file (.text "x"))

/-- **Below the file `f`** no directory can be made, and preferences whose directory is no text are
not answered with `unwritable`. -/
theorem not_unwritable_below_file :
    (save Tree.disk "f/config.toml" ⟨some (.bytes [0xff]), "info"⟩).run occupied =
        (.error (.disk "f" .alreadyExists), occupied) ∧
      ¬ ∀ (t : Tree) (path : String) (p : Preferences) (b : List UInt8),
        p.userDirectory = some (.bytes b) →
          ((save Tree.disk path p).run t).1 = .error .unwritable := by
  have hrun : (save Tree.disk "f/config.toml" ⟨some (.bytes [0xff]), "info"⟩).run occupied =
      (.error (.disk "f" .alreadyExists), occupied) := rfl
  refine ⟨hrun, fun h => ?_⟩
  have hfalse := h occupied "f/config.toml" ⟨some (.bytes [0xff]), "info"⟩ [0xff] rfl
  rw [hrun] at hfalse
  cases hfalse

end EmulatorSettings.Preferences
