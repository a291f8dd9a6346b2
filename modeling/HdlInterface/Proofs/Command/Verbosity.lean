import HdlInterface.Proofs.Command.Check

/-!
# Verbosity

An invocation that drops events as they come, and one that collects them all and shows some in the
end, do the same (`Invocation.perform_eq`). So the flags for verbosity decide which events are
shown, and nothing else (`verbosity_filters_events`).
-/

namespace HdlInterface

/-! ## Invocations that log as they go -/

section Perform

variable {σ : Type}

/-- How a run ends: its exit code, what it prints, and what is there after it. -/
abbrev Ended (σ : Type) := Nat × String × σ

/-- Does what remains to be done, where `store` gives what is there after a text is stored. -/
def Ending.perform (log : Logger) (store : String → String → Except FileError σ) (before : σ) :
    Ending → Run (Ended σ)
  | .print text => return (0, text, before)
  | .save path text report => do
      let after ← Run.ofExcept (fun e => s!"failed to write {path}: {e.message}") (store path text)
      log .info report
      return (0, "", after)

def Command.perform (log : Logger) (config : Option String) (files : Files)
    (store : String → String → Except FileError σ) (before : σ) : Command → Run (Ended σ)
  | .check paths => do
      return (← log.check files paths, "", before)
  | .normalize file output language => do
      (← log.normalize files config file output language).perform log store before
  | .port direction name type value => do
      (← log.port files config (.ofTexts direction name type value)).perform log store before

/-- The outcome of a run; the failure of a run is its last event. -/
def Run.outcome (log : Logger) (before : σ) (x : Run (Ended σ)) : Outcome × σ :=
  match x.run [] with
  | (.ok (exitCode, stdout, after), events) => (⟨exitCode, stdout, events⟩, after)
  | (.error message, events) => (⟨1, "", ((log .error message).run events).2⟩, before)

/-- Carries an invocation out with the log of its verbosity. -/
def Invocation.perform (i : Invocation) (files : Files)
    (store : String → String → Except FileError σ) (before : σ) : Outcome × σ :=
  let log := i.globals.verbosity.logger
  (i.command.perform log i.globals.config files store before).outcome log before

variable {v : Verbosity} {files : Files} (store : String → String → Except FileError σ) (before : σ)

/-! ### Events that are dropped -/

theorem Ending.shows_perform (ending : Ending) :
    Run.Shows v (ending.perform Run.log store before) (ending.perform v.logger store before) := by
  cases ending with
  | print text => exact Run.shows_pure _ _
  | save path text report =>
    exact (Run.shows_ofExcept _ _ _).bind fun _ => (Run.shows_log _ _ _).bind fun _ =>
      Run.shows_pure _ _

theorem Command.shows_perform (config : Option String) (c : Command) :
    Run.Shows v (c.perform Run.log config files store before)
      (c.perform v.logger config files store before) := by
  cases c with
  | check paths => exact (Logger.shows_check _ _).bind fun _ => Run.shows_pure _ _
  | normalize file output language =>
    exact (Logger.shows_normalize _ _ _ _ _).bind (Ending.shows_perform store before)
  | port direction name type value =>
    exact (Logger.shows_port _ _ _).bind (Ending.shows_perform store before)

theorem Run.Shows.outcome {x y : Run (Ended σ)} (h : Shows v x y) :
    y.outcome v.logger before =
      ({ (x.outcome Run.log before).1 with
          events := v.visible (x.outcome Run.log before).1.events },
        (x.outcome Run.log before).2) := by
  have hy := h []
  rw [show v.visible [] = [] from rfl] at hy
  rcases hrun : x.run [] with ⟨r, events⟩
  rw [hrun] at hy
  unfold Run.outcome
  rw [hrun, hy]
  cases r with
  | ok ended => rfl
  | error message =>
    dsimp only
    rw [shows_log v .error message events]

/-! ### All events -/

/-- A run that is carried out as it goes does what is planned of it. -/
theorem outcome_bind_perform (r : Run Ending) :
    (r >>= Ending.perform Run.log store before).outcome Run.log before =
      (Plan.ofRun r).carryOut store before := by
  rcases hrun : r.run [] with ⟨ending, events⟩
  unfold Run.outcome
  match ending with
  | .error message =>
    rw [Run.run_bind_of_error hrun, Plan.carryOut_of_error store before hrun]
    rfl
  | .ok (.print text) =>
    rw [Run.run_bind_of_ok hrun, Plan.carryOut_of_print store before hrun]
    rfl
  | .ok (.save path text report) =>
    rw [Run.run_bind_of_ok hrun, Plan.carryOut_of_save store before hrun]
    unfold Ending.perform
    dsimp only
    cases store path text with
    | error e => rfl
    | ok after => rfl

theorem Invocation.outcome_perform (i : Invocation) :
    (i.command.perform Run.log i.globals.config files store before).outcome Run.log before =
      (i.plan files).carryOut store before := by
  unfold Invocation.plan
  cases i.command with
  | check paths =>
    have hrun := Logger.run_check files paths []
    unfold Run.outcome Command.perform
    rw [Run.run_bind_of_ok hrun]
    rfl
  | normalize file output language =>
    simp only [Command.perform, Logger.normalize_log]
    exact outcome_bind_perform store before _
  | port direction name type value =>
    simp only [Command.perform, Logger.port_log]
    exact outcome_bind_perform store before _

/-- An invocation that drops events as they come ends like one that drops them in the end. -/
theorem Invocation.perform_eq (i : Invocation) :
    i.perform files store before =
      ({ ((i.plan files).carryOut store before).1 with
          events := i.shown ((i.plan files).carryOut store before).1 },
        ((i.plan files).carryOut store before).2) := by
  rw [← i.outcome_perform store before]
  exact (Command.shows_perform store before _ _).outcome before

end Perform

/-- The flags for verbosity leave the exit code, what is printed and what is stored as they are. Of
all events, which a verbose run shows, a quiet run shows the errors, and a run with neither flag
shows those that are not for debugging. -/
theorem verbosity_filters_events {σ : Type} (c : Command) (config : Option String) (files : Files)
    (store : String → String → Except FileError σ) (before : σ) :
    let run (quiet verbose : Bool) :=
      Invocation.perform ⟨⟨quiet, verbose, config⟩, c⟩ files store before
    let all := (run false true).1.events
    (∀ quiet verbose, (run quiet verbose).1.exitCode = (run false true).1.exitCode ∧
      (run quiet verbose).1.stdout = (run false true).1.stdout ∧
      (run quiet verbose).2 = (run false true).2) ∧
    (∀ verbose, (run true verbose).1.events = all.filter fun e => e.level = .error) ∧
    (run false false).1.events = all.filter (fun e => e.level = .error ∨ e.level = .info) ∧
    (∀ quiet verbose, (run quiet verbose).1.events.filter (fun e => e.level = .error) =
      all.filter fun e => e.level = .error) ∧
    ∀ quiet verbose (t : FileTree),
      let i : Invocation := ⟨⟨quiet, verbose, config⟩, c⟩
      i.perform t.files t.write t =
        ({ (i.run t).1 with events := i.shown (i.run t).1 }, (i.run t).2) := by
  intro run all
  -- the flags have no part in the plan
  obtain ⟨planned, hrun⟩ : ∃ planned : Outcome × σ, ∀ quiet verbose, run quiet verbose =
      ({ planned.1 with events := (Verbosity.of quiet verbose).visible planned.1.events },
        planned.2) :=
    ⟨(Invocation.plan ⟨⟨false, true, config⟩, c⟩ files).carryOut store before,
      fun quiet verbose => Invocation.perform_eq store before ⟨⟨quiet, verbose, config⟩, c⟩⟩
  have hall : all = planned.1.events :=
    (congrArg (fun r => r.1.events) (hrun false true)).trans (Verbosity.visible_verbose _)
  refine ⟨fun quiet verbose => ?_, fun verbose => ?_, ?_, fun quiet verbose => ?_,
    fun quiet verbose t => ?_⟩
  · rw [hrun, hrun]
    exact ⟨rfl, rfl, rfl⟩
  · rw [hrun, hall]
    exact Verbosity.visible_quiet _
  · rw [hrun, hall]
    exact Verbosity.visible_normal _
  · rw [hrun, hall]
    exact Outcome.errors_eq planned.1 (.of quiet verbose)
  · intro i
    rw [Invocation.run_eq_carryOut]
    exact i.perform_eq t.write t

end HdlInterface
