import HdlInterface.Text.LowerCase
import HdlInterface.Document.Error

/-!
# Port directions
-/

namespace HdlInterface

/-- The signal-flow mode of a port. -/
inductive Direction
  | input
  | output
  | inout
  | buffer
  | linkage
deriving DecidableEq, Repr

namespace Direction

/-- All directions, in order of declaration. -/
def all : List Direction := [input, output, inout, buffer, linkage]

def name : Direction → String
  | input => "IN"
  | output => "OUT"
  | inout => "INOUT"
  | buffer => "BUFFER"
  | linkage => "LINKAGE"

/-- The port drives a value out of its entity. -/
def isOutput : Direction → Bool
  | output | inout | buffer => true
  | _ => false

/-- The port takes a value into its entity. -/
def isInput : Direction → Bool
  | input | inout => true
  | _ => false

/-- The direction with exactly this name. -/
def ofName? (s : String) : Option Direction :=
  all.find? fun d => d.name == s

/-- The direction with this name, in letters of either case. -/
def ofText (s : String) : Except DocumentError Direction :=
  match all.find? fun d => asciiLower d.name == asciiLower s with
  | some d => .ok d
  | none => .error (.invalidDirection s)

theorem ofName?_name (d : Direction) : ofName? d.name = some d := by
  cases d <;> decide

theorem ofText_name (d : Direction) : ofText d.name = .ok d := by
  have found : (all.find? fun e => asciiLower e.name == asciiLower d.name) = some d := by
    cases d <;> decide
  unfold ofText
  rw [found]

end Direction

end HdlInterface
