import HdlInterface.Json.Numeral
import HdlInterface.Json.Quoted

/-!
# Reading JSON

A strict reader: the whole text is one value, containers nest at most `depthLimit` deep, and a key
that is repeated keeps its first place and takes its last value.
-/

namespace HdlInterface

/-- The number of arrays and objects that may be open at once. -/
def Json.depthLimit : Nat := 127

namespace JsonReader

def isBlank (c : Char) : Bool :=
  c = ' ' || c = '\t' || c = '\n' || c = '\r'

def skipBlanks (s : List Char) : List Char :=
  s.dropWhile isBlank

/-- A key and the colon after it. -/
def readKey (s : List Char) : Option (String × List Char) :=
  match skipBlanks s with
  | '"' :: s =>
      match Quoted.read s with
      | some (key, s) =>
          match skipBlanks s with
          | ':' :: s => some (key, s)
          | _ => none
      | none => none
  | _ => none

mutual

/-- A value in front of a text, and what follows it. At most `depth` more containers may be opened.
Each step takes a character, so the length of the text is fuel enough. -/
def readValue (fuel depth : Nat) (s : List Char) : Option (Json × List Char) :=
  match fuel with
  | 0 => none
  | fuel + 1 =>
    match skipBlanks s with
    | 'n' :: 'u' :: 'l' :: 'l' :: s => some (.null, s)
    | 't' :: 'r' :: 'u' :: 'e' :: s => some (.bool true, s)
    | 'f' :: 'a' :: 'l' :: 's' :: 'e' :: s => some (.bool false, s)
    | '"' :: s => (Quoted.read s).map fun (text, s) => (.string text, s)
    | '[' :: s =>
        if depth = 0 then
          none
        else
          match skipBlanks s with
          | ']' :: s => some (.array [], s)
          | s => (readItems fuel (depth - 1) s).map fun (items, s) => (.array items, s)
    | '{' :: s =>
        (readObject fuel depth s).map fun (entries, s) =>
          (.object (Fields.assignAll [] entries), s)
    | s => (Number.read s).map fun (n, s) => (.number n, s)
termination_by structural fuel

/-- One item or more, up to the closing bracket. -/
def readItems (fuel depth : Nat) (s : List Char) : Option (List Json × List Char) :=
  match fuel with
  | 0 => none
  | fuel + 1 =>
    match readValue fuel depth s with
    | none => none
    | some (v, s) =>
        match skipBlanks s with
        | ']' :: s => some ([v], s)
        | ',' :: s => (readItems fuel depth s).map fun (items, s) => (v :: items, s)
        | _ => none
termination_by structural fuel

/-- What follows an opening brace, up to the closing one: the entries as they are written, repeated
keys included. -/
def readObject (fuel depth : Nat) (s : List Char) : Option (Fields × List Char) :=
  match fuel with
  | 0 => none
  | fuel + 1 =>
    if depth = 0 then
      none
    else
      match skipBlanks s with
      | '}' :: s => some ([], s)
      | s => readEntries fuel (depth - 1) s
termination_by structural fuel

/-- One entry or more, up to the closing brace. -/
def readEntries (fuel depth : Nat) (s : List Char) : Option (Fields × List Char) :=
  match fuel with
  | 0 => none
  | fuel + 1 =>
    match readKey s with
    | none => none
    | some (key, s) =>
        match readValue fuel depth s with
        | none => none
        | some (v, s) =>
            match skipBlanks s with
            | '}' :: s => some ([(key, v)], s)
            | ',' :: s =>
                (readEntries fuel depth s).map fun (entries, s) => ((key, v) :: entries, s)
            | _ => none
termination_by structural fuel

end

/-- Nothing but blanks may follow. -/
def complete {α : Type} : Option (α × List Char) → Option α
  | some (a, s) => if skipBlanks s = [] then some a else none
  | none => none

/-- Twice the length of a text, and some more: every value and every container takes a character. -/
def fuelFor (s : List Char) : Nat :=
  2 * s.length + 3

end JsonReader

open JsonReader

/-- The value that is the whole of a text. -/
def Json.ofChars? (s : List Char) : Option Json :=
  complete (readValue (fuelFor s) Json.depthLimit s)

def Json.ofText? (text : String) : Option Json :=
  Json.ofChars? text.toList

/-- A name given as one of two texts: the quoted name, or an object with that one key and the value
null. A repeated key is refused. -/
def Json.nameOfText? (text : String) : Option String :=
  let s := text.toList
  match skipBlanks s with
  | '"' :: s => complete (Quoted.read s)
  | '{' :: rest =>
      match complete (readObject (fuelFor s) Json.depthLimit rest) with
      | some [(name, .null)] => some name
      | _ => none
  | _ => none

end HdlInterface
