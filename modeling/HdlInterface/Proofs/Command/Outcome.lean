import HdlInterface.Proofs.Command.Normalize
import HdlInterface.Proofs.Files.Tree

/-!
# Outcomes

How the commands that read settings end: with no error and one text, or with one error, nothing
printed and nothing stored. A normalized text is the same whether it is printed or stored.
-/

namespace HdlInterface

/-! ## Runs -/

namespace Run

variable {α β : Type} {x : Run α} {f : α → Run β} {events mid after : List Event}
  {message : String}

theorem run_bind_of_error (h : x.run events = (.error message, after)) :
    (x >>= f).run events = (.error message, after) := by
  show (match x.run events with | (r, es) => ExceptT.bindCont f r es) = _
  rw [h]
  rfl

theorem run_bind_eq_ok {b : β} (h : (x >>= f).run events = (.ok b, after)) :
    ∃ a mid, x.run events = (.ok a, mid) ∧ (f a).run mid = (.ok b, after) := by
  rcases hx : x.run events with ⟨r, mid⟩
  cases r with
  | error message => cases (run_bind_of_error hx).symm.trans h
  | ok a => exact ⟨a, mid, rfl, (run_bind_of_ok hx).symm.trans h⟩

theorem run_map_of_ok {g : α → β} {a : α} (h : x.run events = (.ok a, after)) :
    (g <$> x).run events = (.ok (g a), after) := by
  rw [map_eq_pure_bind, run_bind_of_ok h]
  rfl

theorem run_map_of_error {g : α → β} (h : x.run events = (.error message, after)) :
    (g <$> x).run events = (.error message, after) := by
  rw [map_eq_pure_bind, run_bind_of_error h]

theorem run_ofExcept_eq_ok {ε : Type} {describe : ε → String} {e : Except ε α} {a : α}
    (h : (ofExcept describe e).run events = (.ok a, after)) : e = .ok a ∧ events = after := by
  cases e with
  | error e => cases h
  | ok b =>
    cases h
    exact ⟨rfl, rfl⟩

/-- The run only adds events, and no errors among them. -/
def Errorless (x : Run α) : Prop :=
  ∀ events, ∃ added, (x.run events).2 = events ++ added ∧ ∀ e ∈ added, e.level ≠ .error

theorem errorless_pure (a : α) : (pure a : Run α).Errorless :=
  fun events => ⟨[], (List.append_nil events).symm, nofun⟩

theorem errorless_ofExcept {ε : Type} (describe : ε → String) (e : Except ε α) :
    (ofExcept describe e).Errorless := fun events =>
  ⟨[], by cases e <;> exact (List.append_nil events).symm, nofun⟩

theorem errorless_log_debug (message : String) : (log .debug message).Errorless := fun _ =>
  ⟨[⟨.debug, message⟩], rfl, fun e he => by rw [List.mem_singleton.1 he]; nofun⟩

theorem Errorless.bind (hx : x.Errorless) (hf : ∀ a, (f a).Errorless) : (x >>= f).Errorless := by
  intro events
  obtain ⟨added, hadded, hlevels⟩ := hx events
  rcases hrun : x.run events with ⟨r, mid⟩
  obtain rfl : mid = events ++ added := by rwa [hrun] at hadded
  cases r with
  | error message =>
    rw [run_bind_of_error hrun]
    exact ⟨added, rfl, hlevels⟩
  | ok a =>
    obtain ⟨more, hmore, hmoreLevels⟩ := hf a (events ++ added)
    rw [run_bind_of_ok hrun, hmore, List.append_assoc]
    exact ⟨_, rfl, fun e he => (List.mem_append.1 he).elim (hlevels e) (hmoreLevels e)⟩

end Run

/-! ## Steps -/

theorem errorless_loadSettings (files : Files) (config : Option String) :
    (loadSettings files config).Errorless := by
  cases config with
  | none => exact Run.errorless_ofExcept _ _
  | some path =>
    exact (Run.errorless_log_debug _).bind fun _ => (Run.errorless_ofExcept _ _).bind fun _ =>
      Run.errorless_ofExcept _ _

theorem errorless_resolveLanguage (asked : Option Language) (s : Settings) (path : String) :
    (resolveLanguage asked s path).Errorless := by
  unfold resolveLanguage
  split
  · exact Run.errorless_pure _
  · exact (Run.errorless_log_debug _).bind fun _ => Run.errorless_pure _

/-- The text that normalizing comes to, and the number of entities to report with it. -/
def normalizedText (files : Files) (config : Option String) (file : String)
    (asked : Option Language) : Run (Nat × String) := do
  let settings ← loadSettings files config
  let d ← Run.ofExcept id (readDesign files file)
  let l ← resolveLanguage asked settings file
  Run.log .debug s!"normalizing {file} as {l.name}"
  let d ← Run.ofExcept DocumentError.message (settings.apply l d)
  let text ← Run.ofExcept DocumentError.message (d.toText settings.layout)
  return (d.entities.length, text)

/-- Where a normalized text goes. -/
def Ending.ofText (output : Option String) (count : Nat) (text : String) : Ending :=
  match output with
  | none => .print (text ++ "\n")
  | some path => .save path (text ++ "\n") s!"wrote {count} entities to {path}"

theorem normalize_eq_map (files : Files) (config : Option String) (file : String)
    (output : Option String) (asked : Option Language) :
    normalize files config file output asked =
      (fun r => Ending.ofText output r.1 r.2) <$> normalizedText files config file asked := by
  unfold normalize normalizedText
  simp only [map_bind, map_pure]
  cases output <;> rfl

theorem errorless_normalizedText (files : Files) (config : Option String) (file : String)
    (asked : Option Language) : (normalizedText files config file asked).Errorless :=
  (errorless_loadSettings files config).bind fun _ =>
    (Run.errorless_ofExcept _ _).bind fun _ =>
      (errorless_resolveLanguage asked _ file).bind fun _ =>
        (Run.errorless_log_debug _).bind fun _ =>
          (Run.errorless_ofExcept _ _).bind fun _ =>
            (Run.errorless_ofExcept _ _).bind fun _ => Run.errorless_pure _

/-! ## Plans -/

/-- Carries a plan out where `store` gives what is there after a text is stored at a path. A text
that cannot be stored leaves what was there before. -/
def Plan.carryOut {σ : Type} (p : Plan) (store : String → String → Except FileError σ)
    (before : σ) : Outcome × σ :=
  match p with
  | .finish outcome => (outcome, before)
  | .save events path text report =>
      match store path text with
      | .ok after => (settle events path report none, after)
      | .error e => (settle events path report (some e), before)

theorem Invocation.run_eq_carryOut (i : Invocation) (t : FileTree) :
    i.run t = (i.plan t.files).carryOut t.write t := by
  unfold Invocation.run
  cases i.plan t.files with
  | finish outcome => rfl
  | save events path text report =>
    simp only [Plan.carryOut]
    cases t.write path text <;> rfl

namespace Outcome

/-- The errors that are shown. -/
def errors (o : Outcome) (v : Verbosity) : List Event :=
  (v.visible o.events).filter fun e => e.level = .error

/-- Every verbosity shows the errors. -/
theorem errors_eq (o : Outcome) (v : Verbosity) :
    o.errors v = o.events.filter fun e => e.level = .error := by
  unfold errors Verbosity.visible
  rw [List.filter_filter]
  refine List.filter_congr fun e _ => ?_
  cases hlevel : e.level <;> simp [Verbosity.shows]

structure Succeeded (o : Outcome) (v : Verbosity) : Prop where
  exitCode : o.exitCode = 0
  errors : o.errors v = []

structure Failed (o : Outcome) (v : Verbosity) : Prop where
  exitCode : o.exitCode = 1
  stdout : o.stdout = ""
  errors : ∃ message, o.errors v = [⟨.error, message⟩]

variable {v : Verbosity} {events : List Event}

theorem filter_errors_eq_nil (h : ∀ e ∈ events, e.level ≠ .error) :
    (events.filter fun e => e.level = .error) = [] :=
  List.filter_eq_nil_iff.2 fun e he => by simpa using h e he

theorem succeeded (text : String) (h : ∀ e ∈ events, e.level ≠ .error) :
    (⟨0, text, events⟩ : Outcome).Succeeded v :=
  ⟨rfl, (errors_eq _ v).trans (filter_errors_eq_nil h)⟩

theorem failed (message : String) (h : ∀ e ∈ events, e.level ≠ .error) :
    (⟨1, "", events ++ [⟨.error, message⟩]⟩ : Outcome).Failed v :=
  ⟨rfl, rfl, message, by rw [errors_eq, List.filter_append, filter_errors_eq_nil h]; rfl⟩

end Outcome

section Plans

variable {σ : Type} {r : Run Ending} {events : List Event} {message : String}
  (store : String → String → Except FileError σ) (before : σ)

theorem Plan.carryOut_of_error (h : r.run [] = (.error message, events)) :
    (ofRun r).carryOut store before = (⟨1, "", events ++ [⟨.error, message⟩]⟩, before) := by
  rw [ofRun, h]
  rfl

theorem Plan.carryOut_of_print {text : String} (h : r.run [] = (.ok (.print text), events)) :
    (ofRun r).carryOut store before = (⟨0, text, events⟩, before) := by
  rw [ofRun, h]
  rfl

theorem Plan.carryOut_of_save {path text report : String}
    (h : r.run [] = (.ok (.save path text report), events)) :
    (ofRun r).carryOut store before =
      match store path text with
      | .ok after => (⟨0, "", events ++ [⟨.info, report⟩]⟩, after)
      | .error e =>
          (⟨1, "", events ++ [⟨.error, s!"failed to write {path}: {e.message}"⟩]⟩, before) := by
  rw [ofRun, h]
  rfl

/-- A run that reports no error itself ends with one at most, and then as if it had not been. -/
theorem Plan.carryOut_ofRun (v : Verbosity) (hr : r.Errorless) :
    ((ofRun r).carryOut store before).1.Succeeded v ∨
      ((ofRun r).carryOut store before).1.Failed v ∧
        ((ofRun r).carryOut store before).2 = before := by
  obtain ⟨added, hadded, hlevels⟩ := hr []
  rcases hrun : r.run [] with ⟨ending, events⟩
  obtain rfl : events = added := by rwa [hrun] at hadded
  match ending with
  | .error message =>
    rw [carryOut_of_error store before hrun]
    exact .inr ⟨Outcome.failed message hlevels, rfl⟩
  | .ok (.print text) =>
    rw [carryOut_of_print store before hrun]
    exact .inl (Outcome.succeeded text hlevels)
  | .ok (.save path text report) =>
    rw [carryOut_of_save store before hrun]
    cases store path text with
    | error e => exact .inr ⟨Outcome.failed _ hlevels, rfl⟩
    | ok after =>
      refine .inl (Outcome.succeeded "" fun e he => ?_)
      obtain he | he := List.mem_append.1 he
      · exact hlevels e he
      · rw [List.mem_singleton.1 he]
        nofun

/-- A run that ends with a text to print changes nothing. -/
theorem Plan.carryOut_ofRun_print (x : Run String) :
    ((ofRun (.print <$> x)).carryOut store before).2 = before := by
  rcases hrun : x.run [] with ⟨text, events⟩
  cases text with
  | error message => rw [carryOut_of_error store before (Run.run_map_of_error hrun)]
  | ok text => rw [carryOut_of_print store before (Run.run_map_of_ok hrun)]

end Plans

/-! ## Commands -/

theorem normalize_eq_print (files : Files) (config : Option String) (file : String)
    (asked : Option Language) : normalize files config file none asked =
      Ending.print <$> (fun r => r.2 ++ "\n") <$> normalizedText files config file asked := by
  rw [normalize_eq_map, Functor.map_map]
  rfl

theorem port_eq_print (files : Files) (config : Option String) (p : Port Variable) :
    ∃ x : Run String, x.Errorless ∧ port files config p = Ending.print <$> x := by
  refine ⟨do
    let settings ← loadSettings files config
    let fields ← Run.ofExcept DocumentError.message p.write
    return fields.toText settings.layout ++ "\n", ?_, ?_⟩
  · exact (errorless_loadSettings _ _).bind fun _ =>
      (Run.errorless_ofExcept _ _).bind fun _ => Run.errorless_pure _
  · simp only [port, map_bind, map_pure]

theorem Invocation.plan_normalize (g : Globals) (files : Files) (file : String)
    (output : Option String) (asked : Option Language) :
    Invocation.plan ⟨g, .normalize file output asked⟩ files =
      .ofRun (normalize files g.config file output asked) := rfl

/-- Past the usage, a command that is no check is a run that reports no error itself. -/
theorem Invocation.plan_eq_ofRun {i : Invocation} (hi : ∀ paths, i.command ≠ .check paths)
    (files : Files) : ∃ r : Run Ending, i.plan files = .ofRun r ∧ r.Errorless := by
  unfold Invocation.plan
  split
  next hcommand => exact absurd hcommand (hi _)
  next file output asked _ =>
    refine ⟨_, rfl, ?_⟩
    rw [normalize_eq_map, map_eq_pure_bind]
    exact (errorless_normalizedText _ _ _ _).bind fun _ => Run.errorless_pure _
  next direction name type value _ =>
    refine ⟨_, rfl, ?_⟩
    obtain ⟨x, hx, hport⟩ :=
      port_eq_print files i.globals.config (.ofTexts direction name type value)
    rw [hport, map_eq_pure_bind]
    exact hx.bind fun _ => Run.errorless_pure _

/-- Only a command that is given an output path changes anything. -/
theorem Invocation.carryOut_plan_snd {σ : Type} {i : Invocation} (files : Files)
    (store : String → String → Except FileError σ) (before : σ)
    (hi : ∀ file path asked, i.command ≠ .normalize file (some path) asked) :
    ((i.plan files).carryOut store before).2 = before := by
  unfold Invocation.plan
  split
  next => rfl
  next file output asked hcommand =>
    cases output with
    | some path => exact absurd hcommand (hi file path asked)
    | none =>
      rw [normalize_eq_print]
      exact Plan.carryOut_ofRun_print store before _
  next direction name type value _ =>
    obtain ⟨x, -, hport⟩ :=
      port_eq_print files i.globals.config (.ofTexts direction name type value)
    rw [hport]
    exact Plan.carryOut_ofRun_print store before x

theorem readDesign_eq_ok_iff {files : Files} {path : String} {d : Design} :
    readDesign files path = .ok d ↔
      ∃ text, files.read path = .ok text ∧ Design.ofText text = .ok d := by
  constructor
  · intro h
    unfold readDesign at h
    split at h
    next => cases h
    next text htext =>
      split at h
      next => cases h
      next hd =>
        cases h
        exact ⟨text, htext, hd⟩
  · rintro ⟨text, htext, hd⟩
    exact readDesign_eq_ok htext hd

theorem resolveLanguage_eq_ok {asked : Option Language} {s : Settings} {path : String}
    {l : Language} {events after : List Event}
    (h : (resolveLanguage asked s path).run events = (.ok l, after)) :
    l = ((asked.or s.language).or (Language.ofPath? path)).getD .vhdl := by
  unfold resolveLanguage at h
  split at h
  next hl =>
    cases h
    rw [hl]
    rfl
  next hl =>
    cases h
    rw [hl]
    rfl

/-- A normalized text comes of settings, a text to read and a language. -/
theorem normalizedText_eq_ok {files : Files} {config : Option String} {file text : String}
    {asked : Option Language} {count : Nat} {events : List Event}
    (h : (normalizedText files config file asked).run [] = (.ok (count, text), events)) :
    ∃ s loaded input l, (loadSettings files config).run [] = (.ok s, loaded) ∧
      files.read file = .ok input ∧
      l = ((asked.or s.language).or (Language.ofPath? file)).getD .vhdl ∧
      s.rewrite l input = .ok text := by
  obtain ⟨s, loaded, hs, h⟩ := Run.run_bind_eq_ok h
  obtain ⟨d, _, hd, h⟩ := Run.run_bind_eq_ok h
  obtain ⟨l, _, hl, h⟩ := Run.run_bind_eq_ok h
  obtain ⟨_, _, -, h⟩ := Run.run_bind_eq_ok h
  obtain ⟨e, _, he, h⟩ := Run.run_bind_eq_ok h
  obtain ⟨u, _, hu, h⟩ := Run.run_bind_eq_ok h
  obtain ⟨hd, -⟩ := Run.run_ofExcept_eq_ok hd
  obtain ⟨he, -⟩ := Run.run_ofExcept_eq_ok he
  cases h
  obtain ⟨hu, -⟩ := Run.run_ofExcept_eq_ok hu
  obtain ⟨input, hinput, hd⟩ := readDesign_eq_ok_iff.1 hd
  refine ⟨s, loaded, input, l, hs, hinput, resolveLanguage_eq_ok hl, ?_⟩
  simp only [Settings.rewrite, hd, ok_bind, he]
  exact hu

/-- No command goes on without settings. -/
theorem Invocation.carryOut_of_settings_error {σ : Type} {i : Invocation} {files : Files}
    (store : String → String → Except FileError σ) (before : σ)
    (hi : ∀ paths, i.command ≠ .check paths) {message : String} {events : List Event}
    (h : (loadSettings files i.globals.config).run [] = (.error message, events)) :
    (i.plan files).carryOut store before =
      (⟨1, "", events ++ [⟨.error, message⟩]⟩, before) := by
  unfold Invocation.plan
  split
  next hcommand => exact absurd hcommand (hi _)
  next => exact Plan.carryOut_of_error store before (Run.run_bind_of_error h)
  next => exact Plan.carryOut_of_error store before (Run.run_bind_of_error h)

theorem normalize_of_read_error {files : Files} {config : Option String} {file message : String}
    {output : Option String} {asked : Option Language} {s : Settings} {events : List Event}
    (hs : (loadSettings files config).run [] = (.ok s, events))
    (hd : readDesign files file = .error message) :
    (normalize files config file output asked).run [] = (.error message, events) := by
  rw [normalize, Run.run_bind_of_ok hs, hd]
  rfl

/-- How the two places where a normalized text can go differ. -/
theorem normalize_routes {σ : Type} (g : Globals) (files : Files)
    (store : String → String → Except FileError σ) (before : σ) (file : String)
    (asked : Option Language) :
    let printed := (Invocation.plan ⟨g, .normalize file none asked⟩ files).carryOut store before
    (printed.1.exitCode = 0 → ∃ s loaded input l text,
      (loadSettings files g.config).run [] = (.ok s, loaded) ∧ files.read file = .ok input ∧
        l = ((asked.or s.language).or (Language.ofPath? file)).getD .vhdl ∧
        s.rewrite l input = .ok text ∧ printed.1.stdout = text ++ "\n") ∧
    ∀ path,
      let saved :=
        (Invocation.plan ⟨g, .normalize file (some path) asked⟩ files).carryOut store before
      (saved.1.exitCode = 0 ↔
        printed.1.exitCode = 0 ∧ ∃ after, store path printed.1.stdout = .ok after) ∧
      (saved.1.exitCode = 0 →
        saved.1.stdout = "" ∧ store path printed.1.stdout = .ok saved.2) := by
  rcases hrun : (normalizedText files g.config file asked).run [] with ⟨r, events⟩
  have hrouted : ∀ output, (normalize files g.config file output asked).run [] =
      (r.map fun r => Ending.ofText output r.1 r.2, events) := fun output => by
    rw [normalize_eq_map]
    cases r with
    | error message => exact Run.run_map_of_error hrun
    | ok r => exact Run.run_map_of_ok hrun
  simp only [Invocation.plan]
  cases r with
  | error message =>
    simp only [Plan.carryOut_of_error store before (hrouted _)]
    simp
  | ok r =>
    obtain ⟨s, loaded, input, l, hs, hinput, hl, htext⟩ := normalizedText_eq_ok hrun
    rw [Plan.carryOut_of_print store before (hrouted none)]
    refine ⟨fun _ => ⟨s, loaded, input, l, r.2, hs, hinput, hl, htext, rfl⟩, fun path => ?_⟩
    rw [Plan.carryOut_of_save store before (hrouted (some path))]
    cases hstore : store path (r.2 ++ "\n") with
    | error e => simp
    | ok after => simp

/-- The command prints what a text is rewritten to. -/
theorem normalize_of_rewrite {files : Files} {config : Option String} {file input text : String}
    {asked : Option Language} {s : Settings} {l : Language} {loaded resolved : List Event}
    (hs : (loadSettings files config).run [] = (.ok s, loaded))
    (hl : (resolveLanguage asked s file).run loaded = (.ok l, resolved))
    (hfile : files.read file = .ok input) (h : s.rewrite l input = .ok text) :
    ∃ events, (normalize files config file none asked).run [] =
      (.ok (.print (text ++ "\n")), events) := by
  have hresult := normalize_run hs hl hfile
  rcases hrun : (normalize files config file none asked).run [] with ⟨r, events⟩
  rw [hrun, h] at hresult
  cases r with
  | error message => cases hresult
  | ok ending =>
    cases hresult
    exact ⟨events, rfl⟩

/-- Past the usage, a command other than a check succeeds, or reports one error, prints nothing and
leaves everything as it was. Settings come before the document. A normalized text is stored as it is
printed, and in a tree nothing but its own place changes. -/
theorem command_outcomes {σ : Type} (g : Globals) (files : Files)
    (store : String → String → Except FileError σ) (before : σ) :
    (∀ c, (∀ paths, c ≠ .check paths) →
      let run := (Invocation.plan ⟨g, c⟩ files).carryOut store before
      (run.1.Succeeded g.verbosity ∨ run.1.Failed g.verbosity ∧ run.2 = before) ∧
      ((∀ file path asked, c ≠ .normalize file (some path) asked) → run.2 = before) ∧
      (∀ message events, (loadSettings files g.config).run [] = (.error message, events) →
        run = (⟨1, "", events ++ [⟨.error, message⟩]⟩, before)) ∧
      ∀ file output asked s events message, c = .normalize file output asked →
        (loadSettings files g.config).run [] = (.ok s, events) →
        readDesign files file = .error message →
        run = (⟨1, "", events ++ [⟨.error, message⟩]⟩, before)) ∧
    (∀ file asked,
      let printed := (Invocation.plan ⟨g, .normalize file none asked⟩ files).carryOut store before
      (printed.1.exitCode = 0 → ∃ s loaded input l text,
        (loadSettings files g.config).run [] = (.ok s, loaded) ∧ files.read file = .ok input ∧
          l = ((asked.or s.language).or (Language.ofPath? file)).getD .vhdl ∧
          s.rewrite l input = .ok text ∧ printed.1.stdout = text ++ "\n") ∧
      ∀ path,
        let saved :=
          (Invocation.plan ⟨g, .normalize file (some path) asked⟩ files).carryOut store before
        (saved.1.exitCode = 0 ↔
          printed.1.exitCode = 0 ∧ ∃ after, store path printed.1.stdout = .ok after) ∧
        (saved.1.exitCode = 0 →
          saved.1.stdout = "" ∧ store path printed.1.stdout = .ok saved.2)) ∧
    (∀ (t : FileTree) c,
      Invocation.run ⟨g, c⟩ t = (Invocation.plan ⟨g, c⟩ t.files).carryOut t.write t) ∧
    ∀ (t : FileTree) file path asked,
      let saved := Invocation.run ⟨g, .normalize file (some path) asked⟩ t
      let printed := Invocation.run ⟨g, .normalize file none asked⟩ t
      saved.1.exitCode = 0 →
        (∃ place, saved.2.locate path = .ok place ∧
          saved.2.content? place = some (.file printed.1.stdout.toUTF8) ∧
          ∀ steps, steps ≠ place → saved.2.content? steps = t.content? steps) ∧
        saved.2.read path = .ok printed.1.stdout := by
  refine ⟨fun c hc => ⟨?_, ?_, ?_, ?_⟩, ?_, ?_, ?_⟩
  · obtain ⟨r, hplan, hr⟩ := Invocation.plan_eq_ofRun (i := ⟨g, c⟩) hc files
    rw [hplan]
    exact Plan.carryOut_ofRun store before g.verbosity hr
  · exact Invocation.carryOut_plan_snd (i := ⟨g, c⟩) files store before
  · exact fun message events => Invocation.carryOut_of_settings_error (i := ⟨g, c⟩) store before hc
  · rintro file output asked s events message rfl hs hd
    exact Plan.carryOut_of_error store before (normalize_of_read_error hs hd)
  · exact fun file asked => normalize_routes g files store before file asked
  · exact fun t c => Invocation.run_eq_carryOut ⟨g, c⟩ t
  · intro t file path asked saved printed hsaved
    obtain ⟨-, hstored⟩ := ((normalize_routes g t.files t.write t file asked).2 path).2 (by
      rwa [← Invocation.run_eq_carryOut])
    rw [← Invocation.run_eq_carryOut, ← Invocation.run_eq_carryOut] at hstored
    exact FileTree.frame_of_write hstored

/-- A tree with a single file, a document with no entities. -/
def FileTree.bare : FileTree :=
  ⟨[(["a.json"], .file (Fields.toText .compact [("entities", .object [])]).toUTF8)]⟩

theorem FileTree.read_bare :
    bare.read "a.json" = .ok (Fields.toText .compact [("entities", .object [])]) := by
  have hlocate : bare.locate "a.json" = .ok ["a.json"] := rfl
  have hcontent : bare.content? ["a.json"] =
      some (.file (Fields.toText .compact [("entities", .object [])]).toUTF8) := rfl
  simp only [read, hlocate, ok_bind, hcontent, fromUTF8?_toUTF8]
  rfl

theorem FileTree.write_bare (text : String) : ∃ t, bare.write "a.json" text = .ok t := ⟨_, rfl⟩

theorem ofText_bare : Design.ofText (Fields.toText .compact [("entities", .object [])]) =
    .ok .empty := by
  have hnone : ∀ c ∈ "".toList, JsonReader.isBlank c = true := nofun
  have hjson := Json.ofText?_toText .compact (v := .object [("entities", .object [])])
    (by decide) (by decide) hnone
  rw [String.append_empty, if_pos (by decide)] at hjson
  exact (Design.ofText_of_ofText? hjson).trans rfl

theorem rewrite_bare : ∃ text,
    Settings.rewrite {} .vhdl (Fields.toText .compact [("entities", .object [])]) = .ok text :=
  ⟨_, by rw [Settings.rewrite, ofText_bare]; rfl⟩

/-- Normalizing in place, and then with neither settings nor a document. -/
theorem bare_command_outcomes :
    (∃ text, Settings.rewrite {} .vhdl (Fields.toText .compact [("entities", .object [])]) =
        .ok text ∧
      let saved := Invocation.run ⟨⟨true, false, none⟩, .normalize "a.json" (some "a.json") none⟩
        .bare
      saved.1.Succeeded .quiet ∧ saved.1.stdout = "" ∧
        saved.2.read "a.json" = .ok (text ++ "\n")) ∧
    let failed := Invocation.run
      ⟨⟨true, false, some "c.toml"⟩, .normalize "b.json" (some "a.json") none⟩ .bare
    failed.1.Failed .quiet ∧ failed.2 = .bare := by
  constructor
  · obtain ⟨text, htext⟩ := rewrite_bare
    obtain ⟨events, hnormalize⟩ := normalize_of_rewrite
      (show (loadSettings FileTree.bare.files none).run [] = (.ok {}, []) from rfl)
      (show (resolveLanguage none {} "a.json").run [] = (.ok .vhdl, _) from rfl)
      FileTree.read_bare htext
    obtain ⟨hcommands, hroutes, hrun, hframe⟩ := command_outcomes ⟨true, false, none⟩
      FileTree.bare.files FileTree.bare.write FileTree.bare
    have hprinted : (Invocation.plan ⟨⟨true, false, none⟩, .normalize "a.json" none none⟩
        FileTree.bare.files).carryOut FileTree.bare.write FileTree.bare =
          (⟨0, text ++ "\n", events⟩, .bare) := by
      rw [Invocation.plan_normalize]
      exact Plan.carryOut_of_print FileTree.bare.write FileTree.bare hnormalize
    obtain ⟨hiff, hstored⟩ := (hroutes "a.json" none).2 "a.json"
    have hread := hframe .bare "a.json" "a.json" none
    rw [hrun, hrun, hprinted] at hread
    rw [hprinted] at hiff
    have hexit := hiff.2 ⟨rfl, FileTree.write_bare _⟩
    refine ⟨text, htext, ?_⟩
    rw [Invocation.run_eq_carryOut]
    refine ⟨?_, (hstored hexit).1, (hread hexit).2⟩
    refine (hcommands (.normalize "a.json" (some "a.json") none) nofun).1.resolve_right fun h => ?_
    cases h.1.exitCode.symm.trans hexit
  · obtain ⟨hsettled, -, hconfig, -⟩ := (command_outcomes ⟨true, false, some "c.toml"⟩
      FileTree.bare.files FileTree.bare.write FileTree.bare).1
      (.normalize "b.json" (some "a.json") none) nofun
    refine hsettled.resolve_left fun hsucceeded => ?_
    have hexit := hsucceeded.exitCode
    rw [hconfig _ _ rfl] at hexit
    cases hexit

end HdlInterface
