import EmulatorSettings.Toml.Scalar

/-!
# TOML — documents

A document, as `read?` reads it, is a list of statements, each on a line of its own: a header, or a
key and its value.  Arrays may run over several lines, inline tables may not.  Keys have at most 79
parts and arrays and inline tables are nested at most 79 deep.

What the statements make is a table of keys, `Members`, each with a value or a table of its own.  A
table comes into being in one of three ways, its `Origin`, and may be written to later accordingly.
A table with a header of its own takes keys only under that header; a table that other headers pass
through may get a header of its own once; a table that dotted keys make grows by further dotted keys
and by headers below it.  A key is never given twice.

Only strings keep what they say.  Of an array of tables only the last one can still grow, so the
earlier ones are not kept.
-/

namespace EmulatorSettings.Toml

/-! ### Tables -/

/-- What a table comes from: its own `header`, headers that pass through it, or dotted keys. -/
inductive Origin where
  | header
  | passage
  | dottedKey
  deriving DecidableEq

/-- What stands under a key; a value that is no string is only known to be `closed`. -/
inductive Node where
  | string (s : String)
  | closed
  | table (origin : Origin) (members : List (String × Node))
  | tables (last : List (String × Node))

/-- The keys of a table and the `Node` that stands under each. -/
abbrev Members := List (String × Node)

namespace Members

/-- Puts `n` under `key`, over the node that is there. -/
def set (ms : Members) (key : String) (n : Node) : Members :=
  match ms with
  | []             => [(key, n)]
  | (key', n') :: r => if key' = key then (key, n) :: r else (key', n') :: set r key n

/-- Runs `work` on the table that a path leads to.  Tables that are missing on the way come from
`made`; dotted keys do not lead into tables that have a header. -/
def within (made : Origin) (work : Origin → Members → Option Members) :
    List String → Origin → Members → Option Members
  | [], origin, ms       => work origin ms
  | key :: path, _, ms =>
    match ms.lookup key with
    | none                       => (within made work path made []).map fun inner =>
      ms.set key (.table made inner)
    | some (.table origin inner) =>
      if made = .dottedKey ∧ origin = .header then none
      else (within made work path origin inner).map fun inner => ms.set key (.table origin inner)
    | some (.tables inner)       => (within made work path .header inner).map fun inner =>
      ms.set key (.tables inner)
    | some _                     => none

/-- Gives `key` of a table the node `n`.  A key is new; and a `dotted` key ends in a table of dotted
keys, any other in a table of another origin. -/
def define (key : String) (n : Node) (dotted : Bool) (origin : Origin) (ms : Members) :
    Option Members :=
  if (dotted ↔ origin = .dottedKey) ∧ ms.lookup key = none then some (ms.set key n) else none

/-- Gives the key at `path` and `key`, which may be dotted, the node `n`, seen from a table. -/
def assign (path : List String) (key : String) (n : Node) (origin : Origin) (ms : Members) :
    Option Members :=
  within .dottedKey (define key n (path ≠ [])) path origin ms

/-- Gives the table under `key` a header.  That is once for each table, and never for tables of
dotted keys. -/
def openTable (key : String) (_ : Origin) (ms : Members) : Option Members :=
  match ms.lookup key with
  | none                        => some (ms.set key (.table .header []))
  | some (.table .passage inner) => some (ms.set key (.table .header inner))
  | some _                      => none

/-- Begins another table of the array of tables under `key`. -/
def openElement (key : String) (_ : Origin) (ms : Members) : Option Members :=
  match ms.lookup key with
  | none | some (.tables _) => some (ms.set key (.tables []))
  | some _                  => none

/-- The string under `key`: `none` if there is nothing, and an error if there is something else. -/
def string? (ms : Members) (key : String) : Except Unit (Option String) :=
  match ms.lookup key with
  | none             => .ok none
  | some (.string s) => .ok (some s)
  | some _           => .error ()

end Members

/-- A key: the `path` to the table it is in, and its `name` there. -/
structure KeyPath where
  path : List String
  name : String
  deriving DecidableEq

/-- One statement of a document: a `header`, the `element` of an array of tables, or a key that is
to `assign`. -/
inductive Statement where
  | nothing
  | header (key : KeyPath)
  | element (key : KeyPath)
  | assign (key : KeyPath) (n : Node)

/-- The number of parts of a key, in `key?`, and the depth of nesting, in `value?`, that are not
exceeded. -/
def depthLimit : Nat := 79

/-! ### Keys and values -/

/-- A part of a key, bare or between quotes, and what follows it. -/
def keyPart? (cs : List Char) : Option (String × List Char) :=
  match cs with
  | '"' :: r  => (basic? r).map fun (s, rest) => (String.ofList s, rest)
  | '\'' :: r => (literal? r).map fun (s, rest) => (String.ofList s, rest)
  | _         =>
    let part := cs.takeWhile isBareKeyChar
    if part = [] then none else some (String.ofList part, cs.drop part.length)

/-- A key of at most so many `parts`, and what follows it and the blanks after it. -/
def key? : Nat → List Char → Option (KeyPath × List Char)
  | 0, _          => none
  | parts + 1, cs => do
    let (part, r) ← keyPart? (dropBlank cs)
    match dropBlank r with
    | '.' :: r' =>
      let (key, rest) ← key? parts r'
      return (⟨part :: key.path, key.name⟩, rest)
    | r'        => return (⟨[], part⟩, r')

/-- What follows the items of an array, each read by `item`.  There are no more than `most` of them.
-/
def arrayRest? (item : List Char → Option (Node × List Char)) :
    Nat → List Char → Option (List Char)
  | 0, _         => none
  | most + 1, cs =>
    match dropGap false cs with
    | ']' :: r => some r
    | cs       => do
      let (_, r) ← item cs
      match dropGap false r with
      | ',' :: r => arrayRest? item most r
      | ']' :: r => return r
      | _        => none

/-- The pairs of an inline table and what follows it, each value read by `item`.  There are no more
than `most` of them. -/
def pairs? (item : List Char → Option (Node × List Char)) :
    Nat → List Char → Option (List (KeyPath × Node) × List Char)
  | 0, _         => none
  | most + 1, cs => do
    let (key, r) ← key? depthLimit cs
    let r ← expect? '=' r
    let (n, r) ← item (dropBlank r)
    match dropBlank r with
    | ',' :: r =>
      let (pairs, r) ← pairs? item most r
      return ((key, n) :: pairs, r)
    | '}' :: r => return ([(key, n)], r)
    | _        => none

/-- The table that some `pairs` make, if they go together. -/
def tableOf? (pairs : List (KeyPath × Node)) : Option Members :=
  pairs.foldlM (fun ms (key, n) => Members.assign key.path key.name n .header ms) []

/-- What follows an inline table, after its opening `{`. -/
def inlineTable? (item : List Char → Option (Node × List Char)) (cs : List Char) :
    Option (List Char) :=
  match dropBlank cs with
  | '}' :: r => some r
  | _        => do
    let (pairs, r) ← pairs? item cs.length cs
    let _ ← tableOf? pairs
    return r

/-- A value without brackets, and what follows it; only a string keeps what it says. -/
def plainValue? (cs : List Char) : Option (Node × List Char) :=
  match cs with
  | '"' :: _ | '\'' :: _ => (string? cs).map fun (s, rest) => (.string (String.ofList s), rest)
  | _                    => (scalar? cs).map fun rest => (.closed, rest)

/-- A value of limited `depth`, and what follows it. -/
def value? : Nat → List Char → Option (Node × List Char)
  | depth + 1, '[' :: r => (arrayRest? (value? depth) (r.length + 1) r).map fun rest =>
    (.closed, rest)
  | depth + 1, '{' :: r => (inlineTable? (value? depth) r).map fun rest => (.closed, rest)
  | _, cs               => plainValue? cs

/-! ### Statements -/

/-- The statement of a line, which ends in `lineRest?`, and the lines that follow. -/
def statement? (cs : List Char) : Option (Statement × List Char) :=
  match cs with
  | '[' :: '[' :: r => do
    let (key, r) ← key? depthLimit r
    let r ← expect? ']' r
    let r ← expect? ']' r
    return (.element key, ← lineRest? r)
  | '[' :: r        => do
    let (key, r) ← key? depthLimit r
    let r ← expect? ']' r
    return (.header key, ← lineRest? r)
  | '#' :: _        => return (.nothing, ← lineRest? cs)
  | '\n' :: _       => return (.nothing, ← lineRest? cs)
  | '\r' :: _       => return (.nothing, ← lineRest? cs)
  | _               => do
    let (key, r) ← key? depthLimit cs
    let r ← expect? '=' r
    let (n, r) ← value? depthLimit (dropBlank r)
    return (.assign key n, ← lineRest? r)

/-- The statements of at most so many `lines`. -/
def statements? (lines : Nat) (cs : List Char) : Option (List Statement) :=
  match lines, dropBlank cs with
  | _, []          => some []
  | 0, _           => none
  | lines + 1, cs' => do
    let (s, r) ← statement? cs'
    (s :: ·) <$> statements? lines r

/-! ### Meaning -/

/-- A document as far as it has been read: its tables `members`, and the path `current` of the
header that the next keys stand under. -/
structure Reading where
  members : Members
  current : List String

/-- What a statement adds to `r`, if it may stand there. -/
def Reading.add (r : Reading) : Statement → Option Reading
  | .nothing      => some r
  | .header key   =>
    (r.members.within .passage (Members.openTable key.name) key.path .header).map fun ms =>
      ⟨ms, key.path ++ [key.name]⟩
  | .element key  =>
    (r.members.within .passage (Members.openElement key.name) key.path .header).map fun ms =>
      ⟨ms, key.path ++ [key.name]⟩
  | .assign key n =>
    (r.members.within .passage (Members.assign key.path key.name n) r.current .header).map fun ms =>
      { r with members := ms }

/-- A text without the byte order mark U+FEFF at its start. -/
def dropMark : List Char → List Char
  | '\ufeff' :: r => r
  | cs            => cs

/-- Reads the document `text`: its statements, added one after the other. -/
def read? (text : String) : Option Members := do
  let cs := dropMark text.toList
  let statements ← statements? (cs.length + 1) cs
  let r ← statements.foldlM Reading.add ⟨[], []⟩
  return r.members

end EmulatorSettings.Toml
