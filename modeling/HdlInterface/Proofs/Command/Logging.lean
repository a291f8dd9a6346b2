import HdlInterface.Proofs.Command.Outcome

/-!
# Logging

Commands that hand each event to a log as it comes. A log may drop events by their level; what a
command does besides is the same for every log (`Run.Shows` and its rules).
-/

namespace HdlInterface

/-! ## Logs -/

/-- What is done with an event as it comes. -/
abbrev Logger := Level → String → Run Unit

namespace Verbosity

/-- The log of a verbosity, which drops the events that are not shown. -/
def logger (v : Verbosity) : Logger := fun level message =>
  if v.shows level then Run.log level message else pure ()

theorem visible_append (v : Verbosity) (events more : List Event) :
    v.visible (events ++ more) = v.visible events ++ v.visible more :=
  List.filter_append events more

theorem visible_quiet (events : List Event) :
    quiet.visible events = events.filter fun e => e.level = .error := by
  refine List.filter_congr fun e _ => ?_
  cases hlevel : e.level <;> rfl

theorem visible_normal (events : List Event) :
    normal.visible events = events.filter fun e => e.level = .error ∨ e.level = .info := by
  refine List.filter_congr fun e _ => ?_
  cases hlevel : e.level <;> rfl

theorem visible_verbose (events : List Event) : verbose.visible events = events := by
  refine List.filter_eq_self.2 fun e _ => ?_
  cases e.level <;> rfl

end Verbosity

namespace Run

variable {α β γ : Type} {v : Verbosity} {x y : Run α} {f g : α → Run β}

theorem run_log (level : Level) (message : String) (events : List Event) :
    (log level message).run events = (.ok (), events ++ [⟨level, message⟩]) := rfl

/-- The second run ends as the first, and of its events it logs those that are shown. -/
def Shows (v : Verbosity) (x y : Run α) : Prop :=
  ∀ events, y.run (v.visible events) = ((x.run events).1, v.visible (x.run events).2)

theorem shows_pure (v : Verbosity) (a : α) : Shows v (pure a) (pure a) := fun _ => rfl

theorem shows_ofExcept {ε : Type} (v : Verbosity) (describe : ε → String) (e : Except ε α) :
    Shows v (ofExcept describe e) (ofExcept describe e) := fun _ => by
  cases e <;> rfl

theorem shows_log (v : Verbosity) (level : Level) (message : String) :
    Shows v (log level message) (v.logger level message) := by
  intro events
  rw [run_log, Verbosity.visible_append]
  unfold Verbosity.logger
  by_cases hlevel : v.shows level
  · rw [if_pos hlevel, run_log]
    simp [Verbosity.visible, hlevel]
  · rw [if_neg hlevel]
    simp [Verbosity.visible, hlevel]
    rfl

theorem Shows.bind (hx : Shows v x y) (hf : ∀ a, Shows v (f a) (g a)) :
    Shows v (x >>= f) (y >>= g) := by
  intro events
  have hy := hx events
  rcases hrun : x.run events with ⟨r, mid⟩
  rw [hrun] at hy
  cases r with
  | error message => rw [run_bind_of_error hrun, run_bind_of_error hy]
  | ok a =>
    rw [run_bind_of_ok hrun, run_bind_of_ok hy]
    exact hf a mid

theorem Shows.foldlM {step step' : β → γ → Run β} (h : ∀ b c, Shows v (step b c) (step' b c))
    (b : β) (cs : List γ) : Shows v (cs.foldlM step b) (cs.foldlM step' b) := by
  induction cs generalizing b with
  | nil => exact shows_pure v b
  | cons c cs ih =>
    rw [List.foldlM_cons, List.foldlM_cons]
    exact (h b c).bind fun b' => ih b'

theorem Shows.forM {act act' : γ → Run Unit} (h : ∀ c, Shows v (act c) (act' c)) (cs : List γ) :
    Shows v (cs.forM act) (cs.forM act') := by
  induction cs with
  | nil => exact shows_pure v ()
  | cons c cs ih =>
    exact (h c).bind fun _ => ih

end Run

/-! ## Commands -/

namespace Logger

def loadSettings (log : Logger) (files : Files) (config : Option String) : Run Settings :=
  match config with
  | none => Run.ofExcept SettingsError.message (Settings.loadOrDefault files)
  | some path => do
      log .debug s!"loading configuration from {path}"
      let text ← Run.ofExcept (fun e => s!"failed to read configuration {path}: {e.message}")
        (files.read path)
      Run.ofExcept SettingsError.message (Settings.ofText text)

def resolveLanguage (log : Logger) (asked : Option Language) (settings : Settings)
    (path : String) : Run Language :=
  match (asked.or settings.language).or (Language.ofPath? path) with
  | some l => pure l
  | none => do
      log .debug s!"cannot infer language of {path}, assuming vhdl"
      pure .vhdl

def normalize (log : Logger) (files : Files) (config : Option String) (file : String)
    (output : Option String) (asked : Option Language) : Run Ending := do
  let settings ← log.loadSettings files config
  let d ← Run.ofExcept id (readDesign files file)
  let l ← log.resolveLanguage asked settings file
  log .debug s!"normalizing {file} as {l.name}"
  let d ← Run.ofExcept DocumentError.message (settings.apply l d)
  let text ← Run.ofExcept DocumentError.message (d.toText settings.layout)
  match output with
  | none => return .print (text ++ "\n")
  | some path => return .save path (text ++ "\n") s!"wrote {d.entities.length} entities to {path}"

def port (log : Logger) (files : Files) (config : Option String) (p : Port Variable) :
    Run Ending := do
  let settings ← log.loadSettings files config
  let fields ← Run.ofExcept DocumentError.message p.write
  return .print (fields.toText settings.layout ++ "\n")

/-- Looks at one file, and counts it if it is bad. -/
def checkFile (log : Logger) (files : Files) (failures : Nat) (path : String) : Run Nat :=
  match readDesign files path with
  | .ok d => do
      log .info (s!"{path}: {d.entities.length} entities, {d.portCount} ports, " ++
        s!"{d.headers.length} packages, {d.architectures.length} architectures")
      d.entities.forM fun e =>
        log .debug s!"  {e.name}: {e.generics.length} generics, {e.ports.length} ports"
      return failures
  | .error message => do
      log .error message
      return failures + 1

/-- Looks at the files one after the other. -/
def check (log : Logger) (files : Files) (paths : List String) : Run Nat := do
  let failures ← paths.foldlM (log.checkFile files) 0
  if 0 < failures then
    log .error s!"{failures} of {paths.length} files failed"
    return 1
  else
    return 0

variable {v : Verbosity} (files : Files) (config : Option String)

theorem normalize_log (file : String) (output : Option String) (asked : Option Language) :
    normalize Run.log files config file output asked =
      HdlInterface.normalize files config file output asked := rfl

theorem port_log (p : Port Variable) :
    port Run.log files config p = HdlInterface.port files config p := rfl

theorem shows_loadSettings :
    Run.Shows v (loadSettings Run.log files config) (v.logger.loadSettings files config) := by
  cases config with
  | none => exact Run.shows_ofExcept _ _ _
  | some path =>
    exact (Run.shows_log _ _ _).bind fun _ => (Run.shows_ofExcept _ _ _).bind fun _ =>
      Run.shows_ofExcept _ _ _

theorem shows_resolveLanguage (asked : Option Language) (s : Settings) (path : String) :
    Run.Shows v (resolveLanguage Run.log asked s path) (v.logger.resolveLanguage asked s path) := by
  unfold resolveLanguage
  split
  · exact Run.shows_pure _ _
  · exact (Run.shows_log _ _ _).bind fun _ => Run.shows_pure _ _

theorem shows_normalize (file : String) (output : Option String) (asked : Option Language) :
    Run.Shows v (normalize Run.log files config file output asked)
      (v.logger.normalize files config file output asked) := by
  refine (shows_loadSettings _ _).bind fun s => (Run.shows_ofExcept _ _ _).bind fun _ =>
    (shows_resolveLanguage asked s file).bind fun _ => (Run.shows_log _ _ _).bind fun _ =>
      (Run.shows_ofExcept _ _ _).bind fun _ => (Run.shows_ofExcept _ _ _).bind fun _ => ?_
  cases output <;> exact Run.shows_pure _ _

theorem shows_port (p : Port Variable) :
    Run.Shows v (port Run.log files config p) (v.logger.port files config p) :=
  (shows_loadSettings _ _).bind fun _ => (Run.shows_ofExcept _ _ _).bind fun _ =>
    Run.shows_pure _ _

theorem shows_checkFile (failures : Nat) (path : String) :
    Run.Shows v (checkFile Run.log files failures path)
      (v.logger.checkFile files failures path) := by
  unfold checkFile
  split
  · exact (Run.shows_log _ _ _).bind fun _ =>
      (Run.Shows.forM (fun _ => Run.shows_log _ _ _) _).bind fun _ => Run.shows_pure _ _
  · exact (Run.shows_log _ _ _).bind fun _ => Run.shows_pure _ _

theorem shows_check (paths : List String) :
    Run.Shows v (check Run.log files paths) (v.logger.check files paths) := by
  refine (Run.Shows.foldlM (shows_checkFile files) 0 paths).bind fun failures => ?_
  split
  · exact (Run.shows_log _ _ _).bind fun _ => Run.shows_pure _ _
  · exact Run.shows_pure _ _

end Logger

end HdlInterface
