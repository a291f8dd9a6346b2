import HdlInterface.Proofs.Command.Outcome

/-!
# Usage

Arguments that stand for options are taken as they are meant: a flag gives the flag
(`CommandForm.scan_shown`), and a value after an equals sign is given to its option whatever its
characters are (`CommandForm.scan_holding`).
-/

namespace HdlInterface

/-! ## One argument -/

/-- The option as an argument that holds its value as well. -/
def Opt.holding (o : Opt) (v : String) : String := o.shown ++ "=" ++ v

theorem Argument.of_shown (o : Opt) : Argument.of o.shown = .long o.long none := by
  cases o <;> rfl

theorem Argument.of_holding (o : Opt) (v : String) :
    Argument.of (o.holding v) = .long o.long (some v) := by
  have hlong : ∀ c ∈ o.long.toList, decide (c ≠ '=') = true :=
    List.all_eq_true.1 (by cases o <;> rfl)
  have hchars : (o.holding v).toList = '-' :: '-' :: (o.long.toList ++ '=' :: v.toList) := by
    simp [Opt.holding, Opt.shown, String.toList_append]
  unfold Argument.of
  rw [hchars]
  simp only [List.takeWhile_append_of_pos hlong, List.dropWhile_append_of_pos hlong]
  simp

namespace CommandForm

variable {x : CommandForm} {g : Given} {o : Opt}

theorem scan_shown (hfind : (x.options.find? fun p => p.long == o.long) = some o)
    (htakes : o.takesValue = false) (hgive : g.giveFlag o = .ok { g with flags := o :: g.flags })
    (rest : List String) :
    x.scan false g (o.shown :: rest) = x.scan false { g with flags := o :: g.flags } rest := by
  have hdashes : o.shown ≠ "--" := by cases o <;> decide
  rw [scan, if_neg nofun, if_neg hdashes, Argument.of_shown]
  simp only [hfind, htakes, hgive]
  rfl

theorem scan_holding {v : String} (hfind : (x.options.find? fun p => p.long == o.long) = some o)
    (htakes : o.takesValue = true) (hnew : g.value? o = none) (hadmits : o.admits v = true)
    (rest : List String) : x.scan false g (o.holding v :: rest) =
      x.scan false { g with values := (o, v) :: g.values } rest := by
  have hdashes : o.holding v ≠ "--" := fun h => by
    have hargument := (Argument.of_holding o v).symm.trans (congrArg Argument.of h)
    exact absurd (Argument.long.inj hargument).2 nofun
  have hgive : g.giveValue o v = .ok { g with values := (o, v) :: g.values } := by
    rw [Given.giveValue, hnew, if_neg nofun, if_pos hadmits]
  rw [scan, if_neg nofun, if_neg hdashes, Argument.of_holding]
  simp only [hfind, htakes, hgive]
  rfl

theorem scan_shown_if {asked : Bool}
    (hfind : (x.options.find? fun p => p.long == o.long) = some o)
    (htakes : o.takesValue = false) (hgive : g.giveFlag o = .ok { g with flags := o :: g.flags })
    (rest : List String) : x.scan false g ((if asked then [o.shown] else []) ++ rest) =
      x.scan false { g with flags := (if asked then [o] else []) ++ g.flags } rest := by
  cases asked with
  | false => rfl
  | true => exact scan_shown hfind htakes hgive rest

theorem scan_holding_toList {v : Option String}
    (hfind : (x.options.find? fun p => p.long == o.long) = some o) (htakes : o.takesValue = true)
    (hnew : g.value? o = none) (hadmits : ∀ w, o.admits w = true) (rest : List String) :
    x.scan false g (v.toList.map o.holding ++ rest) =
      x.scan false { g with values := v.toList.map (o, ·) ++ g.values } rest := by
  cases v with
  | none => rfl
  | some w => exact scan_holding hfind htakes hnew (hadmits w) rest

end CommandForm

/-! ## Asking for a port -/

/-- Arguments in front of a command that ask for these options. -/
def Globals.arguments (g : Globals) : List String :=
  (if g.quiet then [Opt.quiet.shown] else []) ++ ((if g.verbose then [Opt.verbose.shown] else []) ++
    g.config.toList.map Opt.config.holding)

/-- What is given with them. -/
def Globals.given (g : Globals) : Given :=
  { flags := (if g.verbose then [.verbose] else []) ++ (if g.quiet then [.quiet] else [])
    values := g.config.toList.map (Opt.config, ·) }

theorem Globals.scan_arguments (g : Globals) (rest : List String) :
    CommandForm.top.scan false {} (g.arguments ++ "port" :: rest) =
      .ok ⟨g.given, some ("port", rest)⟩ := by
  have hcommand : ∀ h : Given, CommandForm.top.scan false h ("port" :: rest) =
      .ok ⟨h, some ("port", rest)⟩ := fun h => by
    rw [CommandForm.scan]
    rfl
  have hverbose : ∀ h : Given, .verbose ∉ h.flags →
      h.giveFlag .verbose = .ok { h with flags := .verbose :: h.flags } := fun _ hnew => if_neg hnew
  have hnew : Opt.verbose ∉ (if g.quiet then [Opt.quiet] else []) ++ [] := by
    cases g.quiet <;> decide
  rw [arguments, List.append_assoc, List.append_assoc,
    CommandForm.scan_shown_if rfl rfl rfl, CommandForm.scan_shown_if rfl rfl (hverbose _ hnew),
    CommandForm.scan_holding_toList rfl rfl rfl fun _ => rfl, hcommand]
  simp [given]

namespace Port

variable (direction : Direction) (name type : String) (value : Option String)

/-- Arguments of the command that ask for a port. -/
def arguments : List String :=
  Opt.direction.holding direction.name :: Opt.name.holding name :: Opt.type.holding type ::
    value.toList.map Opt.value.holding

/-- What is given with them. -/
def given : Given :=
  { values := value.toList.map (Opt.value, ·) ++
      [(.type, type), (.name, name), (.direction, direction.name)] }

theorem scan_arguments : CommandForm.port.scan false {} (arguments direction name type value) =
    .ok { given := given direction name type value } := by
  have hadmits : Opt.direction.admits direction.name = true := by
    rw [Opt.admits, Direction.ofText_name]
    rfl
  rw [arguments, CommandForm.scan_holding rfl rfl rfl hadmits,
    CommandForm.scan_holding rfl rfl rfl rfl, CommandForm.scan_holding rfl rfl rfl rfl,
    ← List.append_nil (value.toList.map _),
    CommandForm.scan_holding_toList rfl rfl rfl fun _ => rfl]
  rfl

theorem ofArguments_arguments :
    Command.ofArguments "port" (arguments direction name type value) =
      .ok (given direction name type value, .port direction name type value) := by
  have hdirection : (given direction name type value).value? .direction = some direction.name := by
    cases value <;> rfl
  have hname : (given direction name type value).value? .name = some name := by
    cases value <;> rfl
  have htype : (given direction name type value).value? .type = some type := by
    cases value <;> rfl
  have hvalue : (given direction name type value).value? .value = value := by cases value <;> rfl
  simp only [Command.ofArguments, scan_arguments, ok_bind, Given.require, hdirection, hname, htype,
    hvalue, Direction.ofText_name]
  rfl

end Port

/-- The command line can ask for every port, with any of the shared options in front. -/
theorem Invocation.ofArguments_port (g : Globals) (direction : Direction) (name type : String)
    (value : Option String) :
    ofArguments (g.arguments ++ "port" :: Port.arguments direction name type value) =
      .ok ⟨g, .port direction name type value⟩ := by
  have hinner : (Port.given direction name type value).value? .config = none := by
    cases value <;> rfl
  have houter : g.given.value? .config = g.config := by
    obtain ⟨quiet, verbose, config⟩ := g
    cases config <;> rfl
  simp only [ofArguments, g.scan_arguments, ok_bind, Port.ofArguments_arguments, hinner, houter]
  obtain ⟨quiet, verbose, config⟩ := g
  cases quiet <;> cases verbose <;> rfl

end HdlInterface
