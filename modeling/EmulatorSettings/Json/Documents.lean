import EmulatorSettings.Store.FileSections

/-!
# JSON documents

The documents that settings are shown as: scalars, which are the values a setting can hold, and
objects, whose members keep their order.  Two documents show the sections of a file: `record` with
every setting's identity, and `values` with nothing but sections, keys and values.
-/

namespace EmulatorSettings

/-- A JSON document without arrays and Booleans: a `scalar`, or an `object` whose members keep their
order. -/
inductive Json where
  | scalar (v : Value)
  | object (members : List (String × Json))

namespace Json

/-- The JSON string `s`. -/
def string (s : String) : Json :=
  scalar (.text s)

end Json

/-! ### Settings as documents -/

/-- The file: the name `"config"`, or an object that holds the id of a `game`. -/
def SettingsFile.record : SettingsFile → Json
  | config  => .string "config"
  | game id => .object [("game", .string id)]

/-- The setting `x` with its identity: key, section and file. -/
def Setting.record (x : Setting) : Json :=
  .object [("key", .string x.key), ("section", .string x.sectionName), ("file", x.file.record),
    ("value", .scalar x.value)]

/-- The section `s` with its name and, by key, `Setting.record` of its settings. -/
def Section.record (s : Section) : Json :=
  .object [("name", .string s.name),
    ("settings", .object (s.settings.mapValues Setting.record).entries)]

/-- The sections of the file `m` by name, each as `Section.record` shows it. -/
def FileSections.record (m : FileSections) : Json :=
  .object (m.sections.mapValues Section.record).entries

/-- The values of the section `s` by key. -/
def Section.values (s : Section) : Json :=
  .object (s.settings.mapValues fun x => .scalar x.value).entries

/-- The values of the file `m` by section and key. -/
def FileSections.values (m : FileSections) : Json :=
  .object (m.sections.mapValues Section.values).entries

end EmulatorSettings
