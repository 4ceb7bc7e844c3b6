import EmulatorSettings.Disk.Path
import EmulatorSettings.Table.Basic

/-!
# Disk — directory trees

A directory tree without links: every path of names below the root is a directory, a file or not
there.  A path is followed name by name; each step needs a directory to stand in, `.` stays there
and `..` goes up.  Names have at most 255 bytes, and a path that is followed as a whole at most
4095.  What the program asks of a disk is the structure `Disk`; `Tree.disk` is the disk that is a
directory tree, carried along as state.

* `node?_put`: `put` at one place leaves every other place alone.
-/

namespace EmulatorSettings

/-- What a file holds: `text`, or `bytes` that are no UTF-8 text. -/
inductive Contents where
  | text (s : String)
  | bytes (b : List UInt8)
  deriving DecidableEq

/-- What is at a place of a tree: a `directory`, or a `file` with its contents. -/
inductive Node where
  | directory
  | file (contents : Contents)
  deriving DecidableEq

/-- A directory tree, and the place `workingDirectory` that relative paths start from. -/
structure Tree where
  nodes : Table (List String) Node
  workingDirectory : List String
  deriving DecidableEq

namespace Tree

/-- The tree with nothing below its root, which is also its `workingDirectory`. -/
def empty : Tree :=
  ⟨.empty, []⟩

/-- What is at `place`; the root `[]` is a directory. -/
def node? (t : Tree) (place : List String) : Option Node :=
  if place = [] then some .directory else t.nodes.get? place

/-- The tree `t` with `n` put at `place`. -/
def put (t : Tree) (place : List String) (n : Node) : Tree :=
  { t with nodes := t.nodes.insert place n }

/-- The place that one step `name` from `place` leads to.  Nothing needs to be there. -/
def step (t : Tree) (place : List String) (name : String) : Except DiskError (List String) :=
  match t.node? place with
  | none            => .error .notFound
  | some (.file _)  => .error .notADirectory
  | some .directory =>
    if name = "." then .ok place
    else if name = ".." then .ok place.dropLast
    else if 255 < name.utf8ByteSize then .error .nameTooLong
    else .ok (place ++ [name])

/-- The place that several steps from `place` lead to, one `step` after the other. -/
def follow (t : Tree) (place : List String) : List String → Except DiskError (List String)
  | []        => .ok place
  | name :: r => do
    let place ← t.step place name
    t.follow place r

/-- Where `path` starts, once it is known to be a path at all: at the root or at the
`workingDirectory`. -/
def origin (t : Tree) (path : String) : Except DiskError (List String) :=
  if path.toList.contains '\x00' then .error .nullInName
  else if path = "" then .error .notFound
  else .ok (if Path.isAbsolute path then [] else t.workingDirectory)

/-- Where `path` starts if it is followed as a whole, and so has less than `4096` bytes. -/
def start (t : Tree) (path : String) : Except DiskError (List String) := do
  let place ← t.origin path
  if 4096 ≤ path.utf8ByteSize then .error .nameTooLong else .ok place

/-- The place that `path` names.  All but its last name is there. -/
def locate (t : Tree) (path : String) : Except DiskError (List String) := do
  let place ← t.start path
  t.follow place (Path.steps path)

/-- The text of the file that `path` names. -/
def readText (t : Tree) (path : String) : Except DiskError String := do
  let place ← t.locate path
  match t.node? place with
  | none                    => .error .notFound
  | some .directory         => .error .isADirectory
  | some (.file (.text s))  => .ok s
  | some (.file (.bytes _)) => .error .notText

/-- The tree after a file with these `contents` is written, over one that is there.  A path with a
slash at the end asks for a directory: its last name is not looked at. -/
def write (t : Tree) (path : String) (contents : Contents) : Except DiskError Tree := do
  let start ← t.start path
  if Path.endsInSlash path then
    let _ ← t.follow start ((Path.names path).dropLast ++ ["."])
    .error .isADirectory
  else
    let place ← t.follow start (Path.names path)
    if t.node? place = some .directory then .error .isADirectory
    else .ok (t.put place (.file contents))

/-- Makes the directories that are missing along steps from `place`.  What was made stays made if a
later step fails.  A file on the way ends it: `alreadyExists` where a directory was asked for, which
is at the last step and, once a directory was `made`, at every step. -/
def makeAlong (t : Tree) (made : Bool) (place : List String) :
    List String → Except DiskError Unit × Tree
  | []        => (.ok (), t)
  | name :: r =>
    match t.step place name with
    | .error e    => (.error e, t)
    | .ok place' =>
      match t.node? place' with
      | some .directory => t.makeAlong made place' r
      | some (.file _)  =>
        (.error (if made ∨ r = [] then .alreadyExists else .notADirectory), t)
      | none            => (t.put place' .directory).makeAlong true place' r

/-- Makes the directory `path` and those above it, as far as they are missing.  The empty path names
no directory and needs none. -/
def createDirectories (t : Tree) (path : String) : Except DiskError Unit × Tree :=
  if path = "" then (.ok (), t)
  else match t.start path with
    | .error e  => (.error e, t)
    | .ok place => t.makeAlong false place (Path.steps path)

/-- The absolute path of what `path` names, without `.`, `..` and doubled slashes.  It is found name
by name, so that `path` may be of any length. -/
def canonical (t : Tree) (path : String) : Except DiskError String := do
  let origin ← t.origin path
  let place ← t.follow origin (Path.steps path)
  match t.node? place with
  | none   => .error .notFound
  | some _ => .ok ("/" ++ String.intercalate "/" place)

/-- The tree `t` without `place` and everything below it. -/
def remove (t : Tree) (place : List String) : Tree :=
  { t with
    nodes := ⟨t.nodes.entries.filter fun e => !place.isPrefixOf e.1, t.nodes.sorted.filter _⟩ }

/-- Only the look-up at `place` changes when something is put there. -/
theorem node?_put (t : Tree) {place place' : List String} (n : Node) (h : place ≠ []) :
    (t.put place n).node? place' = if place' = place then some n else t.node? place' := by
  unfold node? put
  by_cases h' : place' = []
  · simp [h', Ne.symm h]
  · simp [h', Table.get?_insert]

end Tree

/-! ### Access -/

/-- The disk operations, each an action in `m` that may fail with a `DiskError`. -/
structure Disk (m : Type → Type) where
  readText : String → m (Except DiskError String)
  writeText : String → String → m (Except DiskError Unit)
  createDirectories : String → m (Except DiskError Unit)
  canonical : String → m (Except DiskError DirectoryName)

/-- The disk that is a `Tree`; a write that fails leaves it as it was. -/
def Tree.disk : Disk (StateM Tree) where
  readText path := fun t => (t.readText path, t)
  writeText path s := fun t =>
    match t.write path (.text s) with
    | .ok t'   => (.ok (), t')
    | .error e => (.error e, t)
  createDirectories path := fun t => t.createDirectories path
  canonical path := fun t => ((t.canonical path).map .text, t)

end EmulatorSettings
