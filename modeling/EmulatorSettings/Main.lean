import EmulatorSettings.CommandLine.Run

/-!
# The program

Runs the command line on the disk and the `Environment` of the system.
-/

namespace EmulatorSettings

/-- The number of a system error, which some functions give as the negative of `code`. -/
def errorNumber (code : UInt32) : UInt32 :=
  min code (0 - code)

/-- The error that the system reports as `e`. -/
def DiskError.ofSystem (e : IO.Error) : DiskError :=
  match e with
  | .noFileOrDirectory ..         => .notFound
  | .alreadyExists ..             => .alreadyExists
  | .inappropriateType _ code _   =>
    if errorNumber code = 21 then .isADirectory else .notADirectory
  | .invalidArgument _ code _     =>
    if errorNumber code = 36 then .nameTooLong else .other e.toString
  | _                             => .other e.toString

/-- Runs an action `act` of the system on a `path` that is one. -/
def onPath {α : Type} (path : String) (act : IO α) : IO (Except DiskError α) := do
  if path.toList.contains '\x00' then return .error .nullInName
  try
    return .ok (← act)
  catch e =>
    return .error (DiskError.ofSystem e)

/-- Whether there is a directory at `path`. -/
def isDirectory (path : String) : IO Bool := do
  try
    (← IO.FS.realPath path).isDir
  catch _ => return false

/-- Makes the directory `path` unless it is there. -/
def makeDirectory (path : String) : IO Unit := do
  try
    IO.FS.createDir path
  catch e =>
    unless ← isDirectory path do throw e

/-- Makes the directory `path` and, where the system misses one, at most so many directories above
it. -/
def makeDirectories : Nat → String → IO Unit
  | 0, path          => makeDirectory path
  | above + 1, path  => do
    try
      makeDirectory path
    catch
      | .noFileOrDirectory .. =>
        makeDirectories above (Path.parent path)
        makeDirectory path
      | e => throw e

/-- The `Disk` of the system. -/
def systemDisk : Disk IO where
  readText path := do
    match ← onPath path (IO.FS.readBinFile path) with
    | .error e  => return .error e
    | .ok bytes => return (String.fromUTF8? bytes).elim (.error .notText) .ok
  writeText path text := onPath path (IO.FS.writeFile path text)
  createDirectories path :=
    if path = "" then pure (.ok ()) else onPath path (makeDirectories (Path.parts path).length path)
  canonical path := onPath path (return .text (← IO.FS.realPath path).toString)

/-- The `Environment` of the system. -/
def systemEnvironment : IO CommandLine.Environment :=
  return ⟨← IO.getEnv "EMUCFG_USER_DIR", ← IO.getEnv "EMUCFG_GAME", ← IO.getEnv "XDG_CONFIG_HOME",
    ← IO.getEnv "HOME"⟩

end EmulatorSettings

/-- The command line, `CommandLine.run` on the disk and the environment of the system. -/
def main (arguments : List String) : IO UInt32 := do
  let e ← EmulatorSettings.systemEnvironment
  let x ← EmulatorSettings.CommandLine.run EmulatorSettings.systemDisk e arguments
  IO.print x.printed
  IO.eprint x.reported
  return x.code.toUInt32
