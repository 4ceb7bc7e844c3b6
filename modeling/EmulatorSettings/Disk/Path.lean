/-!
# Disk — paths and errors

`DiskError` is why an operation on files or directories fails, in the wording users know from the
system.  Paths are text with `/` between names.  They are joined as text, without looking at the
disk and without tidying: what a user gave stays as it was given.  The name that the system has for
a directory, a `DirectoryName`, may be no text.

* `join_of_relative`: `Path.join base name` ends with a relative `name`.
-/

namespace EmulatorSettings

/-! ### Errors -/

/-- Why an operation on a file or directory fails; `other` is any error that the program makes
nothing of. -/
inductive DiskError where
  | notFound
  | alreadyExists
  | notADirectory
  | isADirectory
  | nameTooLong
  | nullInName
  | notText
  | other (message : String)
  deriving DecidableEq

/-- The wording of an error, with the number that the system gives it. -/
def DiskError.message : DiskError → String
  | notFound      => "No such file or directory (os error 2)"
  | alreadyExists => "File exists (os error 17)"
  | notADirectory => "Not a directory (os error 20)"
  | isADirectory  => "Is a directory (os error 21)"
  | nameTooLong   => "File name too long (os error 36)"
  | nullInName    => "file name contained an unexpected NUL byte"
  | notText       => "stream did not contain valid UTF-8"
  | other message => message

/-! ### Paths -/

/-- A directory as the system names it: by `text`, or by `bytes` that are no UTF-8 text. -/
inductive DirectoryName where
  | text (path : String)
  | bytes (b : List UInt8)
  deriving DecidableEq

/-- The path of a directory whose name is `text`. -/
def DirectoryName.text? : DirectoryName → Option String
  | text path => some path
  | bytes _   => none

namespace Path

/-- Whether `path` starts at the root, with `/`. -/
def isAbsolute (path : String) : Bool :=
  path.toList.head? == some '/'

/-- The path of `name` seen from `base`: an absolute name stands for itself, and a slash is put in
unless `base` is empty or ends with one. -/
def join (base name : String) : String :=
  if isAbsolute name then name
  else if base.toList.getLast?.all (· == '/') then base ++ name
  else base ++ "/" ++ name

/-- The parts of `path` between its slashes, the empty ones too. -/
def parts (path : String) : List String :=
  (path.toList.splitOn '/').map String.ofList

/-- Parts of a path after the first, without those at the end that lead nowhere: `""` and `.`. -/
def trimmed (parts : List String) : List String :=
  (parts.reverse.dropWhile fun p => p == "" || p == ".").reverse

/-- The path of the directory that holds the last name of `path`.  It is empty for a single name,
and for a path without a name.  Empty parts and `.` around that name are dropped. -/
def parent (path : String) : String :=
  match parts path with
  | []            => ""
  | first :: rest =>
    if trimmed rest = [] then ""
    else
      let kept := trimmed (trimmed rest).dropLast
      if first = "" ∧ kept = [] then "/" else String.intercalate "/" (first :: kept)

/-- Whether `path` ends with `/`, and so can only lead to a directory. -/
def endsInSlash (path : String) : Bool :=
  path.toList.getLast? == some '/'

/-- The names of `path`, which are its `parts` without the empty ones. -/
def names (path : String) : List String :=
  (parts path).filter (· ≠ "")

/-- The steps along `path`.  A slash at the end asks for a directory, just as `.` does. -/
def steps (path : String) : List String :=
  if endsInSlash path then names path ++ ["."] else names path

/-- A relative `name` ends the joined path. -/
theorem join_of_relative {base name : String} (h : isAbsolute name = false) :
    name.toList <:+ (join base name).toList := by
  unfold join
  rw [if_neg (by simp [h])]
  split
  · rw [String.toList_append]
    exact List.suffix_append _ _
  · rw [String.toList_append]
    exact List.suffix_append _ _

end Path

end EmulatorSettings
