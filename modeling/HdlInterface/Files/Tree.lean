import HdlInterface.Files.Basic
import HdlInterface.Files.Path

/-!
# File trees

A working directory and what lies around it, with the rules of Unix for paths. A place is named by
the steps that lead to it from the working directory: double dots lead upwards, and a slash leads to
the root. Around the working directory nothing but directories is known.
-/

namespace HdlInterface

inductive Content
  | file (bytes : ByteArray)
  | directory
deriving Inhabited

/-- Contents by the steps that lead to them. Directories on the way need no entry. -/
structure FileTree where
  entries : List (List String × Content)

namespace FileTree

def empty : FileTree := ⟨[]⟩

/-! ## Places -/

/-- The steps lead to the working directory or to one above it. -/
def isAscent (steps : List String) : Bool :=
  steps = ["/"] || steps.all (· = "..")

/-- The directory above; the root has none. -/
def parent (steps : List String) : List String :=
  if steps = ["/"] then steps
  else if isAscent steps then steps ++ [".."]
  else steps.dropLast

/-! ## Contents -/

/-- What the tree holds at a place. -/
def content? (t : FileTree) (steps : List String) : Option Content :=
  match t.entries.find? fun e => e.1 == steps with
  | some e => some e.2
  | none =>
      if isAscent steps ∨ t.entries.any fun e => steps.isPrefixOf e.1 then some .directory
      else none

/-- Stores a content in the place of the one that is there, or as a new entry. -/
def assign (t : FileTree) (steps : List String) (c : Content) : FileTree :=
  if t.entries.any fun e => e.1 == steps then
    ⟨t.entries.map fun e => if e.1 == steps then (steps, c) else e⟩
  else
    ⟨t.entries ++ [(steps, c)]⟩

/-! ## Paths -/

/-- The longest path in bytes. -/
def pathLimit : Nat := 4095

/-- The longest name in bytes. -/
def nameLimit : Nat := 255

/-- The names, dots and empty parts between the slashes of a path. -/
def parts (path : String) : List String :=
  (pathParts path.toList).map String.ofList

/-- The starting place of a path, and its parts. The empty path leads nowhere, and the length of a
path is checked before anything is looked up. -/
def start (path : String) : Except FileError (List String × List String) :=
  if path = "" then
    .error .notFound
  else if pathLimit < path.utf8ByteSize then
    .error .nameTooLong
  else
    match parts path with
    | "" :: rest => .ok (["/"], rest)
    | all => .ok ([], all)

/-- Follows one part of a path from a directory. -/
def enter (t : FileTree) (steps : List String) (part : String) : Except FileError (List String) :=
  match t.content? steps with
  | none => .error .notFound
  | some (.file _) => .error .notDirectory
  | some .directory =>
      if part = "" ∨ part = "." then .ok steps
      else if part = ".." then .ok (parent steps)
      else if nameLimit < part.utf8ByteSize then .error .nameTooLong
      else if (t.content? (steps ++ [part])).isSome then .ok (steps ++ [part])
      else .error .notFound

/-- The place that a path leads to. -/
def locate (t : FileTree) (path : String) : Except FileError (List String) := do
  let (steps, parts) ← start path
  parts.foldlM t.enter steps

/-! ## Reading -/

def read (t : FileTree) (path : String) : Except FileError String := do
  match t.content? (← t.locate path) with
  | some (.file bytes) =>
      match String.fromUTF8? bytes with
      | some text => return text
      | none => throw .notText
  | _ => throw .isDirectory

def isFile (t : FileTree) (path : String) : Bool :=
  match t.locate path with
  | .ok steps =>
      match t.content? steps with
      | some (.file _) => true
      | _ => false
  | .error _ => false

/-- What can be found out about the tree. -/
def files (t : FileTree) : Files := ⟨t.read, t.isFile⟩

/-! ## Writing -/

/-- The parts of a path before its last, its last part, and whether slashes follow it. -/
def splitLast (parts : List String) : List String × Option String × Bool :=
  let kept := (parts.reverse.dropWhile (· = "")).reverse
  (kept.dropLast, kept.getLast?, kept.length < parts.length)

/-- Writes a text to the file at a path, which is made if its directory is there. A path that ends
with a slash or with dots names a directory. -/
def write (t : FileTree) (path text : String) : Except FileError FileTree := do
  let (steps, parts) ← start path
  let (before, last, slash) := splitLast parts
  let steps ← before.foldlM t.enter steps
  -- the last step must start from a directory
  let steps ← t.enter steps ""
  match last with
  | none => throw .isDirectory
  | some name =>
      if slash ∨ name = "." ∨ name = ".." then
        throw .isDirectory
      else if nameLimit < name.utf8ByteSize then
        throw .nameTooLong
      else
        match t.content? (steps ++ [name]) with
        | some .directory => throw .isDirectory
        | _ => return t.assign (steps ++ [name]) (.file text.toUTF8)

/-- Puts a content at a path inside the tree. -/
def put (t : FileTree) (path : String) (c : Content) : FileTree :=
  t.assign ((parts path).filter fun part => part ≠ "" ∧ part ≠ ".") c

end FileTree

end HdlInterface
