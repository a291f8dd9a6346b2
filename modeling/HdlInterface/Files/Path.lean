/-!
# Paths

The parts of a path, and the file name that a path ends with.
-/

namespace HdlInterface

/-- The parts of a path between slashes. -/
def pathParts : List Char → List (List Char)
  | [] => [[]]
  | c :: rest =>
      match pathParts rest with
      | [] => [[c]]
      | part :: parts => if c = '/' then [] :: part :: parts else (c :: part) :: parts

theorem pathParts_ne_nil (path : List Char) : pathParts path ≠ [] := by
  cases path with
  | nil => simp [pathParts]
  | cons c rest =>
      unfold pathParts
      split
      · simp
      · split <;> simp

/-- The last part of a path that is neither empty nor a single dot; it is no file name if it is a
double dot. -/
def fileName? (path : List Char) : Option (List Char) :=
  match ((pathParts path).filter fun part => part ≠ [] ∧ part ≠ ['.']).getLast? with
  | some part => if part = ['.', '.'] then none else some part
  | none => none

end HdlInterface
