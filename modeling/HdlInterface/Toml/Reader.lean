import HdlInterface.Toml.Lexis
import HdlInterface.Toml.Value

/-!
# Reading TOML

A document is a list of statements, one a line: pairs of a key and a value, and headers.
-/

namespace HdlInterface.Toml

/-- Arrays and inline tables nest less deep than this, and a key has fewer parts. -/
def nestingLimit : Nat := 80

/-! ## Values -/

/-- A value without parts in front of a text. -/
def readScalar (s : List Char) : Option (Value × List Char) :=
  match s with
  | [] => none
  | 't' :: 'r' :: 'u' :: 'e' :: rest => some (.boolean true, rest)
  | 'f' :: 'a' :: 'l' :: 's' :: 'e' :: rest => some (.boolean false, rest)
  | c :: _ =>
      if c = '"' ∨ c = '\x27' then
        (readString s).map fun (text, rest) => (.string text, rest)
      else
        match skipDateTime s with
        | some rest => some (.dateTime (taken s rest), rest)
        | none =>
            match skipFloat s with
            | some rest =>
                let float := taken s rest
                if isTooLarge float then none else some (.float float, rest)
            | none => (readInteger s).map fun (n, rest) => (.integer n, rest)

/-- The table of the pairs between braces. -/
def inlineTable? (pairs : List Nodes.Pair) : Option Value := do
  some (.table (finishEntries (← Nodes.storeAll pairs [])))

mutual

/-- A value in front of a text. At most `depth` more arrays and inline tables may be opened. Each
step takes a character, so the length of the text is fuel enough. -/
def readValue (fuel depth : Nat) (s : List Char) : Option (Value × List Char) :=
  match fuel with
  | 0 => none
  | fuel + 1 =>
    match s with
    | '[' :: rest =>
        if depth = 0 then none
        else (readItems fuel (depth - 1) rest).map fun (items, rest) => (.array items, rest)
    | '{' :: rest =>
        if depth = 0 then none
        else
          match skipBlanks rest with
          | '}' :: rest => some (.table [], rest)
          | rest => do
              let (pairs, rest) ← readPairs fuel (depth - 1) rest
              some (← inlineTable? pairs, rest)
    | s => readScalar s

/-- The items of an array up to its bracket; a comma may stand after the last. -/
def readItems (fuel depth : Nat) (s : List Char) : Option (List Value × List Char) :=
  match fuel with
  | 0 => none
  | fuel + 1 => do
    match ← skipTrivia false s with
    | ']' :: rest => some ([], rest)
    | s =>
        let (v, s) ← readValue fuel depth s
        match ← skipTrivia false s with
        | ']' :: rest => some ([v], rest)
        | ',' :: rest =>
            let (items, rest) ← readItems fuel depth rest
            some (v :: items, rest)
        | _ => none

/-- The pairs of an inline table up to its brace, on one line and with a comma between two. -/
def readPairs (fuel depth : Nat) (s : List Char) : Option (List Nodes.Pair × List Char) :=
  match fuel with
  | 0 => none
  | fuel + 1 => do
    let (pair, s) ← readPair fuel depth s
    match skipBlanks s with
    | '}' :: rest => some ([pair], rest)
    | ',' :: rest =>
        let (pairs, rest) ← readPairs fuel depth rest
        some (pair :: pairs, rest)
    | _ => none

/-- A key, an equals sign and a value. -/
def readPair (fuel depth : Nat) (s : List Char) : Option (Nodes.Pair × List Char) :=
  match fuel with
  | 0 => none
  | fuel + 1 => do
    let (path, key, s) ← readKey (nestingLimit - 1) s
    let (v, s) ← readValue fuel depth (skipBlanks (← skipChar '=' s))
    some ((path, key, v), s)

end

/-! ## Statements -/

inductive Statement
  | pair (pair : Nodes.Pair)
  /-- a header in brackets, or in double ones if its table is one of several -/
  | header (several : Bool) (path : List String) (key : String)

/-- Three steps for each character, and some more: more than any pair takes. -/
def fuelFor (s : List Char) : Nat := 3 * s.length + 4

/-- One statement and the end of its line. -/
def readStatement (s : List Char) : Option (Statement × List Char) :=
  match s with
  | '[' :: '[' :: rest => do
      let (path, key, rest) ← readKey (nestingLimit - 1) rest
      some (.header true path key, ← endLine (← skipChar ']' (← skipChar ']' rest)))
  | '[' :: rest => do
      let (path, key, rest) ← readKey (nestingLimit - 1) rest
      some (.header false path key, ← endLine (← skipChar ']' rest))
  | s => do
      let (pair, rest) ← readPair (fuelFor s) (nestingLimit - 1) s
      some (.pair pair, ← endLine rest)

/-- All statements; each takes a character, so the length of the text is fuel enough. -/
def readStatements : (fuel : Nat) → List Char → Option (List Statement)
  | 0, _ => none
  | fuel + 1, s => do
      match ← skipTrivia false s with
      | [] => some []
      | s =>
          let (statement, rest) ← readStatement s
          some (statement :: (← readStatements fuel rest))

/-! ## Documents -/

/-- A header and the pairs that follow it. -/
structure Chapter where
  several : Bool
  path : List String
  key : String
  pairs : List Nodes.Pair

/-- The pairs before the first header, and the chapters. -/
def chapters : List Statement → List Nodes.Pair × List Chapter
  | [] => ([], [])
  | .pair p :: rest =>
      let (pairs, later) := chapters rest
      (p :: pairs, later)
  | .header several path key :: rest =>
      let (pairs, later) := chapters rest
      ([], ⟨several, path, key, pairs⟩ :: later)

def Chapter.add (nodes : Nodes) (c : Chapter) : Option Nodes :=
  if c.several then nodes.addItem c.path c.key c.pairs else nodes.addTable c.path c.key c.pairs

/-- The table of all statements. -/
def assemble (statements : List Statement) : Option Nodes := do
  let (pairs, later) := chapters statements
  later.foldlM Chapter.add (← Nodes.storeAll pairs [])

/-- The table that a text describes. A byte order mark in front of it is disregarded. -/
def ofText? (text : String) : Option Entries := do
  let s :=
    match text.toList with
    | '\uFEFF' :: rest => rest
    | s => s
  let statements ← readStatements (s.length + 1) s
  some (finishEntries (← assemble statements))

end HdlInterface.Toml
