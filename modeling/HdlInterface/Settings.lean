import HdlInterface.Files.Basic
import HdlInterface.Json.Writer
import HdlInterface.Language.Basic
import HdlInterface.Toml.Reader

/-!
# Settings

How documents are read and written: the language of their identifiers, the layout of the text, and
whether names are made canonical and interfaces arranged. Settings are two tables, `input` and
`output`, of a TOML document. Unknown keys and values of a wrong kind are refused, and then an
indentation out of bounds.
-/

namespace HdlInterface

structure Settings where
  /-- the language of all documents; each follows its file name if there is none -/
  language : Option Language := none
  /-- one item a line -/
  pretty : Bool := true
  /-- spaces a level, if pretty -/
  indent : Nat := 2
  /-- arrange generics and ports by name -/
  sort : Bool := true
  /-- make names canonical -/
  normalizeCase : Bool := true
deriving DecidableEq, Repr

inductive SettingsError
  | unreadable (reason : FileError)
  /-- the text is no TOML document or holds something else than settings; which of the two it is,
  and where, is left out -/
  | unparsable
  | indentOutOfBounds (indent : Nat)

namespace Settings

/-- The largest indentation. -/
def indentLimit : Nat := 8

/-- The layout of the documents that are written. -/
def layout (s : Settings) : Layout :=
  if s.pretty then .indented s.indent else .compact

end Settings

/-- What is reported. Of settings that cannot be parsed it is the first words: the colon and the
detail that a report has behind them are left out. -/
def SettingsError.message : SettingsError → String
  | unreadable reason => s!"failed to read configuration: {reason.message}"
  | unparsable => "failed to parse configuration"
  | indentOutOfBounds indent =>
      s!"validation error: output.indent must be between 1 and {Settings.indentLimit}, got {indent}"

namespace Settings

/-! ## Values -/

def boolean? : Toml.Value → Option Bool
  | .boolean b => some b
  | _ => none

/-- An integer that is not negative. -/
def natural? : Toml.Value → Option Nat
  | .integer n => if 0 ≤ n.toInt then some n.toInt.toNat else none
  | _ => none

/-- The name of a language, alone or as the key of an empty table or array. -/
def language? : Toml.Value → Option Language
  | .string s => Language.ofName? s
  | .table [(name, .table [])] => Language.ofName? name
  | .table [(name, .array [])] => Language.ofName? name
  | _ => none

/-- The values of the settings with these names: in a table each stands under its name, and there
are no others; in an array they stand in order, and the last ones may be missing. -/
def members? (names : List String) : Toml.Value → Option (List (Option Toml.Value))
  | .table entries =>
      if entries.all fun e => names.contains e.1 then
        some (names.map (Toml.Entries.value? entries))
      else
        none
  | .array items => some ((List.range names.length).map fun i => items[i]?)
  | _ => none

/-- A value read by `read`, or the default if there is none. -/
def orDefault {α : Type} (read : Toml.Value → Option α) (default : α) : Option Toml.Value → Option α
  | some v => read v
  | none => some default

/-- The settings with those of a table `input`. -/
def withInput (s : Settings) (v : Toml.Value) : Option Settings := do
  match ← members? ["language"] v with
  | [language] =>
      some { s with language := ← orDefault (fun v => some <$> language? v) none language }
  | _ => none

/-- The settings with those of a table `output`. -/
def withOutput (s : Settings) (v : Toml.Value) : Option Settings := do
  match ← members? ["pretty", "indent", "sort", "normalize_case"] v with
  | [pretty, indent, sort, normalizeCase] =>
      some
        { s with
          pretty := ← orDefault boolean? s.pretty pretty
          indent := ← orDefault natural? s.indent indent
          sort := ← orDefault boolean? s.sort sort
          normalizeCase := ← orDefault boolean? s.normalizeCase normalizeCase }
  | _ => none

/-- The settings of a document, whatever their values are. -/
def ofEntries? (entries : Toml.Entries) : Option Settings := do
  match ← members? ["input", "output"] (.table entries) with
  | [input, output] =>
      let s ← orDefault (withInput {}) {} input
      orDefault (withOutput s) s output
  | _ => none

/-- An indentation that is used has to lie within bounds. -/
def check (s : Settings) : Except SettingsError Settings :=
  if s.pretty ∧ ¬(1 ≤ s.indent ∧ s.indent ≤ indentLimit) then
    .error (.indentOutOfBounds s.indent)
  else
    .ok s

/-- The settings that a text describes. -/
def ofText (text : String) : Except SettingsError Settings :=
  match (Toml.ofText? text).bind ofEntries? with
  | some s => s.check
  | none => .error .unparsable

/-! ## Files -/

/-- The file that is looked up in the working directory. -/
def fileName : String := "hdlconv.toml"

/-- The settings of the working directory. -/
def load (files : Files) : Except SettingsError Settings :=
  match files.read fileName with
  | .ok text => ofText text
  | .error e => .error (.unreadable e)

/-- The settings of the working directory, or the defaults if it has no settings file. -/
def loadOrDefault (files : Files) : Except SettingsError Settings :=
  if files.isFile fileName then load files else .ok {}

end Settings

end HdlInterface
