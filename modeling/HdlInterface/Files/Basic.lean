/-!
# Files

What a run can find out about the files around it, and why a file cannot be read or written.
-/

namespace HdlInterface

inductive FileError
  | notFound
  | notDirectory
  | isDirectory
  | nameTooLong
  /-- the content is not UTF-8 -/
  | notText
  /-- any other reason the system gives -/
  | other (reason : String)
deriving DecidableEq, Repr

def FileError.message : FileError → String
  | notFound => "No such file or directory (os error 2)"
  | notDirectory => "Not a directory (os error 20)"
  | isDirectory => "Is a directory (os error 21)"
  | nameTooLong => "File name too long (os error 36)"
  | notText => "stream did not contain valid UTF-8"
  | other reason => reason

/-- The text at each path, and whether a regular file is there. -/
structure Files where
  read : String → Except FileError String
  isFile : String → Bool

end HdlInterface
