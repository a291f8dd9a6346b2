import HdlInterface.Interface.Direction
import HdlInterface.Language.Basic

/-!
# Usage

What the arguments of the command line mean. Arguments are taken from left to right. An option may
hold its value after an equals sign, as the rest of its argument, or as the next argument; flags of
one letter may be bundled; after a double dash every argument is a plain word.
-/

namespace HdlInterface

/-! ## Requests -/

/-- Options that all commands share. -/
structure Globals where
  quiet : Bool
  verbose : Bool
  /-- the settings file to use instead of the one in the working directory -/
  config : Option String
deriving DecidableEq

inductive Command
  /-- read documents and report what they hold -/
  | check (files : List String)
  /-- make the names of a document canonical and arrange its interfaces -/
  | normalize (file : String) (output : Option String) (language : Option Language)
  /-- write the document of one port -/
  | port (direction : Direction) (name type : String) (value : Option String)

structure Invocation where
  globals : Globals
  command : Command

inductive UsageError
  | unknownOption (argument : String)
  | missingValue (option : String)
  | unexpectedValue (option : String)
  | invalidValue (option value : String)
  | repeatedOption (option : String)
  | unexpectedWord (word : String)
  | missingOption (option : String)
  | missingFile
  | missingCommand
deriving DecidableEq, Repr

def UsageError.message : UsageError → String
  | unknownOption argument => s!"unexpected argument '{argument}'"
  | missingValue option => s!"a value is required for '{option}'"
  | unexpectedValue option => s!"'{option}' takes no value"
  | invalidValue option value => s!"invalid value '{value}' for '{option}'"
  | repeatedOption option => s!"'{option}' cannot be used multiple times"
  | unexpectedWord word => s!"unexpected argument '{word}'"
  | missingOption option => s!"'{option}' is required"
  | missingFile => "a file is required"
  | missingCommand => "a command is required"

/-- Why scanning ends before the arguments do. -/
inductive Stop
  | misused (e : UsageError)
  | version
  | help

/-! ## Options -/

inductive Opt
  | quiet
  | verbose
  | config
  | help
  | version
  | output
  | lang
  | direction
  | name
  | type
  | value
deriving DecidableEq, Repr

namespace Opt

/-- The long form, after two dashes. -/
def long : Opt → String
  | quiet => "quiet"
  | verbose => "verbose"
  | config => "config"
  | help => "help"
  | version => "version"
  | output => "output"
  | lang => "lang"
  | direction => "direction"
  | name => "name"
  | type => "type"
  | value => "value"

/-- The letter of the short form. -/
def letter? : Opt → Option Char
  | quiet => some 'q'
  | verbose => some 'v'
  | help => some 'h'
  | version => some 'V'
  | output => some 'o'
  | lang => some 'l'
  | direction => some 'd'
  | name => some 'n'
  | type => some 't'
  | config | value => none

def takesValue : Opt → Bool
  | quiet | verbose | help | version => false
  | _ => true

/-- The value is one that the option admits. -/
def admits : Opt → String → Bool
  | lang, v => (Language.ofName? v).isSome
  | direction, v => (Direction.ofText v).toBool
  | _, _ => true

def shown (o : Opt) : String := "--" ++ o.long

end Opt

/-- The options of a command, and the words it takes. -/
structure CommandForm where
  options : List Opt
  /-- the most words it takes; any number if there is none -/
  wordLimit : Option Nat
  /-- words that end the scan: what follows belongs to them -/
  commands : List String

/-! ## Scanning -/

/-- What was given so far. -/
structure Given where
  flags : List Opt := []
  values : List (Opt × String) := []
  words : List String := []

namespace Given

def value? (g : Given) (o : Opt) : Option String :=
  (g.values.find? fun p => p.1 == o).map Prod.snd

/-- Gives a flag, at most once. -/
def giveFlag (g : Given) (o : Opt) : Except Stop Given :=
  match o with
  | .version => .error .version
  | .help => .error .help
  | o =>
      if o ∈ g.flags then .error (.misused (.repeatedOption o.shown))
      else .ok { g with flags := o :: g.flags }

/-- Gives a value that the option admits, at most once. -/
def giveValue (g : Given) (o : Opt) (v : String) : Except Stop Given :=
  if (g.value? o).isSome then
    .error (.misused (.repeatedOption o.shown))
  else if o.admits v then
    .ok { g with values := (o, v) :: g.values }
  else
    .error (.misused (.invalidValue o.shown v))

def giveWord (g : Given) (limit : Option Nat) (w : String) : Except Stop Given :=
  if limit.any (· ≤ g.words.length) then
    .error (.misused (.unexpectedWord w))
  else
    .ok { g with words := g.words ++ [w] }

end Given

/-- An argument before a double dash. -/
inductive Argument
  | long (name : String) (value : Option String)
  | letters (letters : List Char)
  | word

/-- A single dash, and the empty argument, are words. -/
def Argument.of (a : String) : Argument :=
  match a.toList with
  | '-' :: '-' :: rest =>
      let name := String.ofList (rest.takeWhile (· ≠ '='))
      match rest.dropWhile (· ≠ '=') with
      | [] => .long name none
      | _ :: value => .long name (some (String.ofList value))
  | '-' :: c :: rest => .letters (c :: rest)
  | _ => .word

namespace CommandForm

/-- Bundled letters: flags, and perhaps an option whose value is the rest of the argument. The
option is returned if its value is still to come. -/
def scanLetters (x : CommandForm) (g : Given) : List Char → Except Stop (Given × Option Opt)
  | [] => .ok (g, none)
  | c :: rest =>
      match x.options.find? fun o => o.letter? == some c with
      | none => .error (.misused (.unknownOption (String.ofList ['-', c])))
      | some o =>
          if o.takesValue then
            match rest with
            | [] => .ok (g, some o)
            | '=' :: value => return (← g.giveValue o (String.ofList value), none)
            | value => return (← g.giveValue o (String.ofList value), none)
          else do
            x.scanLetters (← g.giveFlag o) rest

/-- Everything before and after a word that ends the scan. -/
structure Scanned where
  given : Given
  command : Option (String × List String) := none

/-- Scans arguments; once `plain`, all of them are words. -/
def scan (x : CommandForm) (plain : Bool) (g : Given) : List String → Except Stop Scanned
  | [] => .ok { given := g }
  | a :: rest =>
      if plain then do
        x.scan true (← g.giveWord x.wordLimit a) rest
      else if a = "--" then
        x.scan true g rest
      else
        match Argument.of a with
        | .word =>
            if a ∈ x.commands then .ok { given := g, command := some (a, rest) }
            else do x.scan false (← g.giveWord x.wordLimit a) rest
        | .long name value =>
            match x.options.find? fun o => o.long == name with
            | none => .error (.misused (.unknownOption a))
            | some o =>
                match o.takesValue, value, rest with
                | false, none, rest => do x.scan false (← g.giveFlag o) rest
                | false, some _, _ => .error (.misused (.unexpectedValue o.shown))
                | true, some v, rest => do x.scan false (← g.giveValue o v) rest
                | true, none, [] => .error (.misused (.missingValue o.shown))
                | true, none, v :: rest =>
                    match Argument.of v with
                    | .word => do x.scan false (← g.giveValue o v) rest
                    | _ => .error (.misused (.missingValue o.shown))
        | .letters letters => do
            let (g, pending) ← x.scanLetters g letters
            match pending with
            | none => x.scan false g rest
            | some o =>
                match rest with
                | [] => .error (.misused (.missingValue o.shown))
                | v :: rest =>
                    match Argument.of v with
                    | .word => do x.scan false (← g.giveValue o v) rest
                    | _ => .error (.misused (.missingValue o.shown))

/-! ## Commands -/

/-- Options that may stand before and after the command. -/
def globalOptions : List Opt := [.quiet, .verbose, .config, .help]

def top : CommandForm :=
  ⟨.version :: globalOptions, some 0, ["check", "normalize", "port", "help"]⟩

def check : CommandForm := ⟨globalOptions, none, []⟩

def normalize : CommandForm := ⟨[.output, .lang] ++ globalOptions, some 1, []⟩

def port : CommandForm := ⟨[.direction, .name, .type, .value] ++ globalOptions, some 0, []⟩

end CommandForm

def misused {α : Type} (e : UsageError) : Except Stop α := .error (.misused e)

/-- The value of an option that has to be given. -/
def Given.require (g : Given) (o : Opt) : Except Stop String :=
  match g.value? o with
  | some v => .ok v
  | none => misused (.missingOption o.shown)

/-- The type of a port unless another is given. -/
def defaultPortType : String := "std_logic"

/-- The command with this name and these arguments, and what was given to it. -/
def Command.ofArguments (name : String) (arguments : List String) :
    Except Stop (Given × Command) := do
  match name with
  | "check" =>
      let g := (← CommandForm.check.scan false {} arguments).given
      if g.words = [] then misused .missingFile else return (g, check g.words)
  | "normalize" =>
      let g := (← CommandForm.normalize.scan false {} arguments).given
      match g.words.head? with
      | some file =>
          return (g, normalize file (g.value? .output) ((g.value? .lang).bind Language.ofName?))
      | none => misused .missingFile
  | "port" =>
      let g := (← CommandForm.port.scan false {} arguments).given
      let direction ← g.require .direction
      let portName ← g.require .name
      match Direction.ofText direction with
      | .ok d =>
          let type := (g.value? .type).getD defaultPortType
          return (g, port d portName type (g.value? .value))
      | .error _ => misused (.invalidValue Opt.direction.shown direction)
  | _ =>
      -- help on one command, or on all
      match arguments with
      | [] => .error .help
      | word :: more =>
          if word ∈ CommandForm.top.commands then
            match more with
            | [] => .error .help
            | next :: _ => misused (.unexpectedWord next)
          else
            misused (.unexpectedWord word)

/-- What the arguments ask for. Of a shared option given before and after the command, the latter
counts. -/
def Invocation.ofArguments (arguments : List String) : Except Stop Invocation := do
  let scanned ← CommandForm.top.scan false {} arguments
  match scanned.command with
  | none => misused .missingCommand
  | some (name, rest) =>
      let outer := scanned.given
      let (inner, command) ← Command.ofArguments name rest
      let flag (o : Opt) : Bool := o ∈ inner.flags || o ∈ outer.flags
      return { globals :=
                 { quiet := flag .quiet
                   verbose := flag .verbose
                   config := (inner.value? .config).or (outer.value? .config) }
               command }

/-! ## Texts -/

def versionText : String := "hdlconv 0.1.0\n"

def helpText : String :=
  "Usage: hdlconv [OPTIONS] <COMMAND>\n\n" ++
  "Commands:\n" ++
  "  check <FILES>...        report what design documents hold\n" ++
  "  normalize <FILE>        make names canonical and arrange interfaces\n" ++
  "      -o, --output <OUTPUT>  file to write instead of printing\n" ++
  "      -l, --lang <LANG>      vhdl or verilog\n" ++
  "  port                    print the document of one port\n" ++
  "      -d, --direction <DIRECTION>\n" ++
  "      -n, --name <NAME>\n" ++
  "      -t, --type <TYPE>      std_logic unless given\n" ++
  "          --value <VALUE>\n\n" ++
  "Options:\n" ++
  "  -q, --quiet            log errors only\n" ++
  "  -v, --verbose          log everything\n" ++
  "      --config <CONFIG>  settings file\n" ++
  "  -h, --help\n" ++
  "  -V, --version\n"

end HdlInterface
