import HdlInterface.Command.Run

/-!
# Command line

Reads the files that an invocation names, works out its plan, and carries the plan out.
-/

namespace HdlInterface

/-! ## Files of the system -/

/-- The number of an error, which may be given with its sign changed. -/
def errorNumber (n : UInt32) : UInt32 := min n (0 - n)

def FileError.ofSystem (e : IO.Error) : FileError :=
  match e with
  | .noFileOrDirectory .. => .notFound
  | .inappropriateType _ n _ => if errorNumber n = 21 then .isDirectory else .notDirectory
  | .invalidArgument _ n _ =>
      if errorNumber n = 36 then .nameTooLong else .other (toString e)
  | e => .other (toString e)

/-- The text of a file. -/
def readText (path : String) : IO (Except FileError String) := do
  try
    let bytes ← IO.FS.readBinFile path
    match String.fromUTF8? bytes with
    | some text => return .ok text
    | none => return .error .notText
  catch e =>
    return .error (.ofSystem e)

/-- The paths that an invocation may read. -/
def Invocation.paths (i : Invocation) : List String :=
  let settings := [i.globals.config.getD Settings.fileName]
  match i.command with
  | .check files => files
  | .normalize file _ _ => settings ++ [file]
  | .port .. => settings

/-- What was read, or could not be, at a regular file. -/
def isFileResult : Except FileError String → Bool
  | .error .notFound | .error .notDirectory | .error .isDirectory | .error .nameTooLong => false
  | _ => true

/-- What is to be found out about the paths of an invocation. -/
def Invocation.files (i : Invocation) : IO Files := do
  let texts ← i.paths.mapM fun path => do return (path, ← readText path)
  let read (path : String) := (texts.lookup path).getD (.error .notFound)
  return { read, isFile := fun path => isFileResult (read path) }

/-! ## Carrying out -/

def Invocation.execute (i : Invocation) : IO Nat := do
  let outcome ←
    match i.plan (← i.files) with
    | .finish outcome => pure outcome
    | .save events path text report =>
        try
          IO.FS.writeFile path text
          pure (Plan.settle events path report none)
        catch e =>
          pure (Plan.settle events path report (some (.ofSystem e)))
  for e in i.shown outcome do
    IO.eprintln e.text
  IO.print outcome.stdout
  return outcome.exitCode

end HdlInterface

open HdlInterface in
def main (arguments : List String) : IO UInt32 := do
  match Invocation.ofArguments arguments with
  | .ok i => return UInt32.ofNat (← i.execute)
  | .error .version =>
      IO.print versionText
      return 0
  | .error .help =>
      IO.print helpText
      return 0
  | .error (.misused e) =>
      IO.eprintln ("error: " ++ e.message)
      return 2
