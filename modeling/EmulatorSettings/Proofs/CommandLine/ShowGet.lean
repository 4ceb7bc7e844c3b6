import EmulatorSettings.Proofs.CommandLine.Invoking
import EmulatorSettings.Proofs.Json.Documents

/-!
# Command line — `show` and `get`

Both commands look at the same sections.  `show` prints them as one document, `get` prints one value
the way it would stand in the settings file: numbers without a power of ten, and no quotes.

* `run_show`: what `show` says, as a function of the tree.
* `get_agrees_with_show`: `get` succeeds for the sections and keys of the document that `show`
  prints, and prints what the document says there.
-/

namespace EmulatorSettings.CommandLine

open Json (Document)

variable {e : Environment} {given game : Option String}

/-- **The command `show`** prints the sections of its file, and leaves the tree `t` as it is. -/
theorem run_show {arguments : List String} {asJson : Bool}
    (h : request? e arguments = some (.run ⟨given, game, .show asJson⟩)) (t : Tree) :
    (run Tree.disk e arguments).run t =
      ((lookUp e given game (fun m _ => .print (shown asJson m)) t).exit, t) :=
  run_lookUp h (fun _ => Command.noConfusion) Command.noConfusion (fun _ _ => rfl) t

/-- A command that only looks fails for want of a place to look, or finds the sections there,
whatever `look` is. -/
theorem cases_lookUp (e : Environment) (given game : Option String) (t : Tree) :
    let file := (Session.forGame game).file
    ((∃ o : Outcome, o.failure ≠ none ∧ ∀ look, lookUp e given game look t = o) ∧
      ∀ directory path, userDirectory? e given t = some directory →
        Layout.settingsPath ⟨directory⟩ file ≠ .ok path) ∨
    ∃ directory path, userDirectory? e given t = some directory ∧
      Layout.settingsPath ⟨directory⟩ file = .ok path ∧
      ∀ look, lookUp e given game look t = look (t.sections file path) file := by
  unfold lookUp
  dsimp only
  cases userDirectory? e given t with
  | none => exact .inl ⟨⟨_, Option.some_ne_none _, fun _ => rfl⟩, nofun⟩
  | some directory =>
      dsimp only
      cases hpath : Layout.settingsPath ⟨directory⟩ (Session.forGame game).file with
      | error error =>
          refine .inl ⟨⟨_, Option.some_ne_none _, fun _ => rfl⟩, ?_⟩
          rintro _ path ⟨⟩ hok
          exact absurd (hpath.symm.trans hok) nofun
      | ok path => exact .inr ⟨directory, path, rfl, hpath, fun _ => rfl⟩

/-! ### The document and the answers -/

/-- How `get` ends, in `x`, for `n` and `k`, where a document with these `members` shows the
sections `m`. -/
structure AgreesWith (m : FileSections) (members : List (String × Document)) (n k : String)
    (x : Exit) : Prop where
  /-- The members are the sections, the empty ones too. -/
  names_eq : members.map (·.1) = m.sections.keys
  /-- `get` succeeds for the members of the members. -/
  code_eq_zero_iff : x.code = 0 ↔ ∃ settings value,
    (Document.object members).member? n = some (.object settings) ∧
      (Document.object settings).member? k = some value
  /-- What it prints is what the document says. -/
  shows : ∀ settings value, (Document.object members).member? n = some (.object settings) →
    (Document.object settings).member? k = some value →
      ∃ text, x = ⟨0, text ++ "\n", ""⟩ ∧ value.Shows text

/-- **The document of sections** `m` that were read from a text agrees with what `got` answers. -/
theorem agreesWith_got {m : FileSections} (hm : m.AsRead) (file : SettingsFile) (n k : String) :
    ∃ members, m.values.document = .object members ∧
      AgreesWith m members n k (got m file n k).exit := by
  obtain ⟨members, hmembers⟩ : ∃ members, m.values.document = .object members := ⟨_, rfl⟩
  have hnames : m.values.document.names = m.sections.keys := m.names_document_values
  have hsection := m.member?_document_values n
  have hscalar : ∀ {settings}, m.values.document.member? n = some (.object settings) →
      (Document.object settings).member? k = (m.get? n k).map fun x => x.value.document :=
    fun h => FileSections.member?_of_object h k
  rw [hmembers] at hnames hsection hscalar
  refine ⟨members, hmembers, hnames, ⟨fun hcode => ?_, ?_⟩,
    fun settings value hsettings hvalue => ?_⟩
  · rw [Outcome.code_exit_eq_zero_iff, got] at hcode
    cases hx : m.get? n k with
    | none => rw [hx] at hcode; cases hcode
    | some x =>
        obtain ⟨s, hs, -⟩ := Option.bind_eq_some_iff.1 hx
        obtain ⟨settings, hsettings⟩ : ∃ settings, s.values.document = .object settings := ⟨_, rfl⟩
        have hmember : (Document.object members).member? n = some (.object settings) := by
          rw [hsection, hs, Option.map_some, hsettings]
        exact ⟨settings, _, hmember, (hscalar hmember).trans (congrArg _ hx)⟩
  · rintro ⟨settings, value, hsettings, hvalue⟩
    rw [hscalar hsettings] at hvalue
    obtain ⟨x, hx, -⟩ := Option.map_eq_some_iff.1 hvalue
    rw [got, hx]
    rfl
  · rw [hscalar hsettings] at hvalue
    obtain ⟨x, hx, rfl⟩ := Option.map_eq_some_iff.1 hvalue
    refine ⟨x.value.written, ?_, Value.shows_document (hm.settled hx)⟩
    rw [got, hx]
    rfl

/-- **The commands `get` and `show --json` agree.** Whatever is in the tree `t`, both leave it
alone.  Where there is no place to look for settings, both fail in the same way.  Else `show` prints
a text that `Json.Reads` as one thing: an object whose `members` are the sections that are found,
and `get` succeeds for the members of these, and prints what they say. -/
theorem get_agrees_with_show {arguments arguments' : List String} {n k : String}
    (hget : request? e arguments = some (.run ⟨given, game, .get n k⟩))
    (hshow : request? e arguments' = some (.run ⟨given, game, .show true⟩)) (t : Tree) :
    let file := (Session.forGame game).file
    ∃ x y, (run Tree.disk e arguments).run t = (x, t) ∧
      (run Tree.disk e arguments').run t = (y, t) ∧
      ((x = y ∧ x.code ≠ 0 ∧ ∀ directory path, userDirectory? e given t = some directory →
          Layout.settingsPath ⟨directory⟩ file ≠ .ok path) ∨
        ∃ directory path members, userDirectory? e given t = some directory ∧
          Layout.settingsPath ⟨directory⟩ file = .ok path ∧ y.code = 0 ∧
          (∀ d, Json.Reads y.printed d ↔ d = .object members) ∧
          AgreesWith (t.sections file path) members n k x) := by
  refine ⟨_, _, run_get hget t, run_show hshow t, ?_⟩
  obtain ⟨⟨o, ho, hlook⟩, hnowhere⟩ | ⟨directory, path, hdirectory, hpath, hlook⟩ :=
    cases_lookUp e given game t
  · rw [hlook, hlook]
    exact .inl ⟨rfl, fun hcode => ho (o.code_exit_eq_zero_iff.1 hcode), hnowhere⟩
  · have has := t.asRead_sections (Session.forGame game).file path
    obtain ⟨members, hmembers, hagrees⟩ := agreesWith_got has (Session.forGame game).file n k
    rw [hlook, hlook]
    refine .inr ⟨directory, path, members, hdirectory, hpath, rfl, fun d => ?_, hagrees⟩
    rw [← hmembers]
    exact Json.reads_print (FileSections.plain_values has) d

/-- A settings file with a number that has a power of ten in the document, a text with characters
that are escaped there, and an empty section `Empty`. -/
def smallNumber : Tree :=
  let text := "[Core]\nscale=0.00000025\nname=say \"\\\"\n[Empty]\n"
  let t := Tree.empty.put ["u"] .directory
  (t.put ["u", "config"] .directory).put ["u", "config", "config.ini"] (.file (.text text))

/-- In the tree `smallNumber`, `show --json` has a member `scale` of `Core`, and `get` prints what
it says. -/
theorem get_agrees_with_show_smallNumber :
    let e : Environment := ⟨some "/u", none, none, none⟩
    ∃ members settings value text,
      (∀ d, Json.Reads ((run Tree.disk e ["show", "--json"]).run smallNumber).1.printed d ↔
        d = .object members) ∧
      (Document.object members).member? "Core" = some (.object settings) ∧
      (Document.object settings).member? "scale" = some value ∧
      (run Tree.disk e ["get", "Core", "scale"]).run smallNumber =
        (⟨0, text ++ "\n", ""⟩, smallNumber) ∧
      value.Shows text := by
  have hget : request? ⟨some "/u", none, none, none⟩ ["get", "Core", "scale"] =
      some (.run ⟨some "/u", none, .get "Core" "scale"⟩) := by decide +kernel
  have hshow : request? ⟨some "/u", none, none, none⟩ ["show", "--json"] =
      some (.run ⟨some "/u", none, .show true⟩) := by decide +kernel
  have hzero : ((run Tree.disk ⟨some "/u", none, none, none⟩ ["get", "Core", "scale"]).run
      smallNumber).1.code = 0 := by decide +kernel
  obtain ⟨x, y, hx, hy, ⟨-, hcode, -⟩ | ⟨_, _, members, -, -, -, hreads, hagrees⟩⟩ :=
    get_agrees_with_show hget hshow smallNumber
  · rw [hx] at hzero
    exact absurd hzero hcode
  · rw [hx] at hzero
    obtain ⟨settings, value, hsettings, hvalue⟩ := hagrees.code_eq_zero_iff.1 hzero
    obtain ⟨text, rfl, hshows⟩ := hagrees.shows settings value hsettings hvalue
    refine ⟨members, settings, value, text, ?_, hsettings, hvalue, hx, hshows⟩
    intro d
    rw [hy]
    exact hreads d

end EmulatorSettings.CommandLine
