import HdlInterface.Json.Numeral
import HdlInterface.Json.Quoted

/-!
# Writing JSON

The text of a value, on one line or with one item a line.
-/

namespace HdlInterface

/-- A value is laid out on one line, or one item a line, indented by so many spaces a level. -/
inductive Layout
  | compact
  | indented (width : Nat)
deriving DecidableEq, Repr

namespace Layout

/-- What separates an item of an open container at the given level from what stands before it. -/
def lineBreak (layout : Layout) (level : Nat) : List Char :=
  match layout with
  | compact => []
  | indented width => '\n' :: List.replicate (width * level) ' '

/-- What stands between a key and its value. -/
def colon (layout : Layout) : List Char :=
  match layout with
  | compact => [':']
  | indented _ => [':', ' ']

end Layout

namespace Json

mutual

/-- The text of a value inside `level` open containers. -/
def write (layout : Layout) (level : Nat) : Json → List Char
  | null => ['n', 'u', 'l', 'l']
  | bool true => ['t', 'r', 'u', 'e']
  | bool false => ['f', 'a', 'l', 's', 'e']
  | number n => n.write
  | string s => Quoted.write s.toList
  | array items =>
      if items.isEmpty then
        ['[', ']']
      else
        '[' :: writeItems layout (level + 1) true items ++ layout.lineBreak level ++ [']']
  | object fields =>
      if fields.isEmpty then
        ['{', '}']
      else
        '{' :: writeFields layout (level + 1) true fields ++ layout.lineBreak level ++ ['}']

/-- The items of an array; a comma stands before each but the first. -/
def writeItems (layout : Layout) (level : Nat) (first : Bool) : List Json → List Char
  | [] => []
  | v :: rest =>
      (if first then [] else [',']) ++ layout.lineBreak level ++ v.write layout level ++
        writeItems layout level false rest

/-- The fields of an object; a comma stands before each but the first. -/
def writeFields (layout : Layout) (level : Nat) (first : Bool) : List (String × Json) → List Char
  | [] => []
  | (key, v) :: rest =>
      (if first then [] else [',']) ++ layout.lineBreak level ++ Quoted.write key.toList ++
        layout.colon ++ v.write layout level ++ writeFields layout level false rest

end

/-- The text of a value. -/
def toText (layout : Layout) (v : Json) : String :=
  String.ofList (v.write layout 0)

end Json

/-- The text of an object with these fields. -/
def Fields.toText (layout : Layout) (m : Fields) : String :=
  (Json.object m).toText layout

end HdlInterface
