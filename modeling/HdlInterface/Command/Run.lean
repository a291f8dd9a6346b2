import HdlInterface.Command.Log
import HdlInterface.Command.Port
import HdlInterface.Command.Usage
import HdlInterface.Design.Canonical
import HdlInterface.Design.Document
import HdlInterface.Files.Tree
import HdlInterface.Language.FileName
import HdlInterface.Settings

/-!
# Commands

What each command does. A plan is worked out from the files as they are; at most one file is
written, at the end.
-/

namespace HdlInterface

/-! ## Runs -/

/-- A run that logs events and ends with a value, or with the message of its failure. -/
abbrev Run := ExceptT String (StateM (List Event))

namespace Run

def log (level : Level) (message : String) : Run Unit :=
  modify (· ++ [⟨level, message⟩])

def ofExcept {ε α : Type} (message : ε → String) : Except ε α → Run α
  | .ok a => pure a
  | .error e => throw (message e)

end Run

/-- What remains to be done once everything is worked out. -/
inductive Ending
  | print (text : String)
  /-- store a text at a path, and report it in that case -/
  | save (path text report : String)

/-! ## Shared steps -/

/-- The settings file that was asked for, or the one of the working directory. -/
def loadSettings (files : Files) (config : Option String) : Run Settings :=
  match config with
  | none => Run.ofExcept SettingsError.message (Settings.loadOrDefault files)
  | some path => do
      Run.log .debug s!"loading configuration from {path}"
      let text ← Run.ofExcept (fun e => s!"failed to read configuration {path}: {e.message}")
        (files.read path)
      Run.ofExcept SettingsError.message (Settings.ofText text)

/-- The design in a file, or why there is none. -/
def readDesign (files : Files) (path : String) : Except String Design :=
  match files.read path with
  | .error e => .error s!"failed to read {path}: {e.message}"
  | .ok text =>
      match Design.ofText text with
      | .error e => .error s!"{path}: {e.message}"
      | .ok d => .ok d

/-- The language asked for, else the one of the settings, else the one of the file name. -/
def resolveLanguage (asked : Option Language) (settings : Settings) (path : String) :
    Run Language :=
  match (asked.or settings.language).or (Language.ofPath? path) with
  | some l => pure l
  | none => do
      Run.log .debug s!"cannot infer language of {path}, assuming vhdl"
      pure .vhdl

/-! ## Check -/

def entityEvent (e : Entity) : Event :=
  ⟨.debug, s!"  {e.name}: {e.generics.length} generics, {e.ports.length} ports"⟩

/-- What is reported about one file: what its design holds, or why there is none. -/
def fileEvents (files : Files) (path : String) : List Event :=
  match readDesign files path with
  | .error message => [⟨.error, message⟩]
  | .ok d =>
      ⟨.info, s!"{path}: {d.entities.length} entities, {d.portCount} ports, " ++
          s!"{d.headers.length} packages, {d.architectures.length} architectures"⟩ ::
        d.entities.map entityEvent

def isBad (files : Files) (path : String) : Bool :=
  !(readDesign files path).toBool

/-- The events of a check, and its exit code. -/
def check (files : Files) (paths : List String) : List Event × Nat :=
  let failures := paths.countP (isBad files)
  let events := paths.flatMap (fileEvents files)
  if failures = 0 then
    (events, 0)
  else
    (events ++ [⟨.error, s!"{failures} of {paths.length} files failed"⟩], 1)

/-! ## Normalize -/

/-- Canonical names and arranged interfaces, as far as the settings ask for them. -/
def Settings.apply (s : Settings) (l : Language) (d : Design) : Except DocumentError Design := do
  let d ← if s.normalizeCase then d.canonical l else pure d
  return if s.sort then d.arrange else d

def normalize (files : Files) (config : Option String) (file : String) (output : Option String)
    (asked : Option Language) : Run Ending := do
  let settings ← loadSettings files config
  let d ← Run.ofExcept id (readDesign files file)
  let l ← resolveLanguage asked settings file
  Run.log .debug s!"normalizing {file} as {l.name}"
  let d ← Run.ofExcept DocumentError.message (settings.apply l d)
  let text ← Run.ofExcept DocumentError.message (d.toText settings.layout)
  match output with
  | none => return .print (text ++ "\n")
  | some path => return .save path (text ++ "\n") s!"wrote {d.entities.length} entities to {path}"

/-! ## Port -/

def port (files : Files) (config : Option String) (p : Port Variable) : Run Ending := do
  let settings ← loadSettings files config
  let fields ← Run.ofExcept DocumentError.message p.write
  return .print (fields.toText settings.layout ++ "\n")

/-! ## Plans and outcomes -/

/-- What a run does to the world. -/
structure Outcome where
  exitCode : Nat
  stdout : String
  events : List Event

/-- What a run is going to do. -/
inductive Plan
  | finish (outcome : Outcome)
  /-- store a text at a path; the events come before it, and the report after it -/
  | save (events : List Event) (path text report : String)

def Plan.ofRun (r : Run Ending) : Plan :=
  match r.run [] with
  | (.ok (.print text), events) => .finish ⟨0, text, events⟩
  | (.ok (.save path text report), events) => .save events path text report
  | (.error message, events) => .finish ⟨1, "", events ++ [⟨.error, message⟩]⟩

/-- The outcome once a text is stored, or could not be. -/
def Plan.settle (events : List Event) (path report : String) : Option FileError → Outcome
  | none => ⟨0, "", events ++ [⟨.info, report⟩]⟩
  | some e => ⟨1, "", events ++ [⟨.error, s!"failed to write {path}: {e.message}"⟩]⟩

/-- The plan of an invocation. Verbosity has no part in it. -/
def Invocation.plan (i : Invocation) (files : Files) : Plan :=
  match i.command with
  | .check paths =>
      let (events, exitCode) := check files paths
      .finish ⟨exitCode, "", events⟩
  | .normalize file output language =>
      .ofRun (normalize files i.globals.config file output language)
  | .port direction name type value =>
      .ofRun (port files i.globals.config (.ofTexts direction name type value))

/-- Runs an invocation on a tree of files. -/
def Invocation.run (i : Invocation) (t : FileTree) : Outcome × FileTree :=
  match i.plan t.files with
  | .finish outcome => (outcome, t)
  | .save events path text report =>
      match t.write path text with
      | .ok t => (Plan.settle events path report none, t)
      | .error e => (Plan.settle events path report (some e), t)

def Globals.verbosity (g : Globals) : Verbosity := .of g.quiet g.verbose

/-- The events of an outcome that the invocation shows. -/
def Invocation.shown (i : Invocation) (o : Outcome) : List Event :=
  i.globals.verbosity.visible o.events

end HdlInterface
