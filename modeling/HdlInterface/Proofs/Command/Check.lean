import HdlInterface.Proofs.Command.Logging

/-!
# Checks

A check reports on each file as if it were the only one, and fails if any of them is bad
(`check_judges_each`).
-/

namespace HdlInterface

/-! ## One file after the other -/

namespace Logger

theorem run_forM_log {α : Type} (level : Level) (message : α → String) (xs : List α)
    (events : List Event) :
    (xs.forM fun x => Run.log level (message x)).run events =
      (.ok (), events ++ xs.map fun x => ⟨level, message x⟩) := by
  induction xs generalizing events with
  | nil => rw [List.map_nil, List.append_nil]; rfl
  | cons x xs ih =>
    refine (Run.run_bind_of_ok (Run.run_log level (message x) events)).trans ?_
    rw [ih, List.append_assoc]
    rfl

variable (files : Files)

theorem run_checkFile (failures : Nat) (path : String) (events : List Event) :
    (checkFile Run.log files failures path).run events =
      (.ok (failures + if isBad files path then 1 else 0), events ++ fileEvents files path) := by
  unfold checkFile isBad fileEvents
  cases readDesign files path with
  | error message => rfl
  | ok d =>
    refine (Run.run_bind_of_ok (Run.run_log _ _ events)).trans ?_
    refine (Run.run_bind_of_ok (run_forM_log _ _ _ _)).trans ?_
    rw [List.append_assoc]
    rfl

theorem run_foldlM_checkFile (failures : Nat) (paths : List String) (events : List Event) :
    (paths.foldlM (checkFile Run.log files) failures).run events =
      (.ok (failures + paths.countP (isBad files)),
        events ++ paths.flatMap (fileEvents files)) := by
  induction paths generalizing failures events with
  | nil => rw [List.flatMap_nil, List.append_nil]; rfl
  | cons path paths ih =>
    rw [List.foldlM_cons, Run.run_bind_of_ok (run_checkFile files failures path events), ih,
      List.flatMap_cons, List.append_assoc, List.countP_cons, Nat.add_right_comm, Nat.add_assoc]

/-- Going from file to file adds up to the same events and the same exit code. -/
theorem run_check (paths : List String) (events : List Event) :
    (check Run.log files paths).run events =
      (.ok (HdlInterface.check files paths).2,
        events ++ (HdlInterface.check files paths).1) := by
  unfold check HdlInterface.check
  rw [Run.run_bind_of_ok (run_foldlM_checkFile files 0 paths events), Nat.zero_add]
  by_cases hfailures : paths.countP (isBad files) = 0
  · rw [if_pos hfailures, if_neg (by omega)]
    rfl
  · rw [if_neg hfailures, if_pos (by omega)]
    refine (Run.run_bind_of_ok (Run.run_log _ _ _)).trans ?_
    rw [List.append_assoc]
    rfl

end Logger

/-! ## Reports -/

/-- A text can be read at the path, and a design in the text. -/
def Files.Accepts (files : Files) (path : String) : Prop :=
  ∃ text d, files.read path = .ok text ∧ Design.ofText text = .ok d

theorem isBad_iff {files : Files} {path : String} : isBad files path ↔ ¬files.Accepts path := by
  have haccepts : files.Accepts path ↔ ∃ d, readDesign files path = .ok d := by
    simp only [readDesign_eq_ok_iff, Files.Accepts]
    exact exists_comm
  rw [haccepts, isBad]
  cases readDesign files path <;> simp [Except.toBool]

instance (files : Files) : DecidablePred files.Accepts := fun path =>
  decidable_of_iff (isBad files path = false) (by rw [← Bool.not_eq_true, isBad_iff, not_not])

/-- What is reported about a file where this was read: what its design holds, or why there is
none. -/
def report (path : String) : Except FileError String → List Event
  | .error e => [⟨.error, s!"failed to read {path}: {e.message}"⟩]
  | .ok text =>
      match Design.ofText text with
      | .error e => [⟨.error, s!"{path}: {e.message}"⟩]
      | .ok d =>
          let ports := d.entities.foldr (fun e count => e.ports.length + count) 0
          ⟨.info, s!"{path}: {d.entities.length} entities, {ports} ports, " ++
              s!"{d.headers.length} packages, {d.architectures.length} architectures"⟩ ::
            d.entities.map fun e =>
              ⟨.debug, s!"  {e.name}: {e.generics.length} generics, {e.ports.length} ports"⟩

theorem Design.portCount_eq_foldr (d : Design) :
    d.portCount = d.entities.foldr (fun e count => e.ports.length + count) 0 := by
  rw [portCount, List.length_flatMap, List.sum_eq_foldr, List.foldr_map]

theorem fileEvents_eq_report (files : Files) (path : String) :
    fileEvents files path = report path (files.read path) := by
  unfold fileEvents readDesign report
  cases files.read path with
  | error e => rfl
  | ok text =>
    dsimp only
    cases Design.ofText text with
    | error e => rfl
    | ok d =>
      simp only [Design.portCount_eq_foldr]
      rfl

/-- The last event of a check, if there were failures. -/
def tally (failures files : Nat) : List Event :=
  if failures = 0 then [] else [⟨.error, s!"{failures} of {files} files failed"⟩]

theorem check_eq (files : Files) (paths : List String) : check files paths =
    (paths.flatMap (fun path => report path (files.read path)) ++
      tally (paths.countP fun path => ¬files.Accepts path) paths.length,
      if ∀ path ∈ paths, files.Accepts path then 0 else 1) := by
  have hcount : paths.countP (isBad files) = paths.countP fun path => ¬files.Accepts path :=
    List.countP_congr fun path _ => by rw [isBad_iff, decide_eq_true_iff]
  have hevents : paths.flatMap (fileEvents files) =
      paths.flatMap fun path => report path (files.read path) :=
    List.flatMap_congr fun path _ => fileEvents_eq_report files path
  have hall : paths.countP (isBad files) = 0 ↔ ∀ path ∈ paths, files.Accepts path := by
    simp only [List.countP_eq_zero, isBad_iff, not_not]
  unfold check tally
  simp only [hevents, ← hcount]
  by_cases hfailures : paths.countP (isBad files) = 0
  · rw [if_pos hfailures, if_pos hfailures, if_pos (hall.1 hfailures), List.append_nil]
  · rw [if_neg hfailures, if_neg hfailures, if_neg (mt hall.2 hfailures)]

theorem FileTree.read_eq_ok_iff {t : FileTree} {path text : String} : t.read path = .ok text ↔
    ∃ place bytes, t.locate path = .ok place ∧ t.content? place = some (.file bytes) ∧
      String.fromUTF8? bytes = some text := by
  unfold read
  rw [bind_eq_ok_iff]
  constructor
  · rintro ⟨place, hplace, h⟩
    split at h
    next bytes hbytes =>
      split at h
      next text' htext =>
        obtain rfl := pure_eq_ok_iff.1 h
        exact ⟨place, bytes, hplace, hbytes, htext⟩
      next => cases h
    next => cases h
  · rintro ⟨place, bytes, hplace, hbytes, htext⟩
    refine ⟨place, hplace, ?_⟩
    simp only [hbytes, htext]
    rfl

theorem accepts_files_iff {t : FileTree} {path : String} : t.files.Accepts path ↔
    ∃ place bytes text d, t.locate path = .ok place ∧ t.content? place = some (.file bytes) ∧
      String.fromUTF8? bytes = some text ∧ Design.ofText text = .ok d := by
  constructor
  · rintro ⟨text, d, htext, hd⟩
    obtain ⟨place, bytes, hplace, hbytes, hutf8⟩ := FileTree.read_eq_ok_iff.1 htext
    exact ⟨place, bytes, text, d, hplace, hbytes, hutf8, hd⟩
  · rintro ⟨place, bytes, text, d, hplace, hbytes, hutf8, hd⟩
    exact ⟨text, d, FileTree.read_eq_ok_iff.2 ⟨place, bytes, hplace, hbytes, hutf8⟩, hd⟩

/-- Nothing but what is read at its paths matters to a check. -/
theorem check_congr {files files' : Files} {paths : List String}
    (h : ∀ path ∈ paths, files'.read path = files.read path) :
    check files' paths = check files paths := by
  have hread : ∀ path ∈ paths, readDesign files' path = readDesign files path :=
    fun path hpath => by rw [readDesign, readDesign, h path hpath]
  have hevents : paths.flatMap (fileEvents files') = paths.flatMap (fileEvents files) :=
    List.flatMap_congr fun path hpath => by rw [fileEvents, fileEvents, hread path hpath]
  have hcount : paths.countP (isBad files') = paths.countP (isBad files) :=
    List.countP_congr fun path hpath => by rw [isBad, isBad, hread path hpath]
  simp only [check, hevents, hcount]

/-- A check says of each file what it would say of it alone, in the order in which the files are
given, and last how many are bad, if any is. It succeeds if none is. It prints and changes nothing,
and depends on nothing but what is read at the paths it is given. -/
theorem check_judges_each {σ : Type} (g : Globals) (files : Files)
    (store : String → String → Except FileError σ) (before : σ) (paths : List String) :
    let outcome := ((Invocation.plan ⟨g, .check paths⟩ files).carryOut store before).1
    (outcome.stdout = "" ∧
      outcome.exitCode = if ∀ path ∈ paths, files.Accepts path then 0 else 1) ∧
    Verbosity.verbose.visible outcome.events =
      paths.flatMap (fun path => report path (files.read path)) ++
        tally (paths.countP fun path => ¬files.Accepts path) paths.length ∧
    (Logger.check Run.log files paths).run [] = (.ok outcome.exitCode, outcome.events) ∧
    (∀ (g' : Globals) (files' : Files) (store' : String → String → Except FileError σ) before',
      (∀ path ∈ paths, files'.read path = files.read path) →
        (Invocation.plan ⟨g', .check paths⟩ files').carryOut store' before' =
          (outcome, before')) ∧
    (∀ (g' : Globals) (t : FileTree), (∀ path ∈ paths, t.read path = files.read path) →
      Invocation.run ⟨g', .check paths⟩ t = (outcome, t)) ∧
    ∀ (t : FileTree) path, t.files.Accepts path ↔ ∃ place bytes text d,
      t.locate path = .ok place ∧ t.content? place = some (.file bytes) ∧
        String.fromUTF8? bytes = some text ∧ Design.ofText text = .ok d := by
  intro outcome
  have houtcome : outcome = ⟨(check files paths).2, "", (check files paths).1⟩ := rfl
  refine ⟨⟨rfl, ?_⟩, ?_, ?_, fun g' files' store' before' h => ?_, fun g' t h => ?_,
    fun t path => accepts_files_iff⟩
  · rw [houtcome, check_eq]
  · rw [houtcome, Verbosity.visible_verbose, check_eq]
  · rw [Logger.run_check, List.nil_append, houtcome]
  · rw [houtcome, ← check_congr h]
    rfl
  · have hcheck : check t.files paths = check files paths := check_congr h
    rw [Invocation.run_eq_carryOut, houtcome, ← hcheck]
    rfl

/-- The same tree with settings that cannot be parsed. -/
def FileTree.bareWithSettings : FileTree :=
  ⟨bare.entries ++ [(["hdlconv.toml"], .file "sort = 1".toUTF8)]⟩

theorem FileTree.read_bare_missing : bare.read "b.json" = .error .notFound := by
  have hlocate : bare.locate "b.json" = .error .notFound := rfl
  rw [read, hlocate]
  rfl

theorem FileTree.read_bareWithSettings :
    bareWithSettings.read "a.json" = .ok (Fields.toText .compact [("entities", .object [])]) := by
  have hlocate : bareWithSettings.locate "a.json" = .ok ["a.json"] := rfl
  have hcontent : bareWithSettings.content? ["a.json"] =
      some (.file (Fields.toText .compact [("entities", .object [])]).toUTF8) := rfl
  exact read_eq_ok_iff.2 ⟨_, _, hlocate, hcontent, fromUTF8?_toUTF8 _⟩

theorem FileTree.read_bareWithSettings_missing :
    bareWithSettings.read "b.json" = .error .notFound := by
  have hlocate : bareWithSettings.locate "b.json" = .error .notFound := rfl
  rw [read, hlocate]
  rfl

/-- A file that is checked twice, and one that is not there. Settings make no difference. -/
theorem bare_check_judges_each :
    let paths := ["a.json", "b.json", "a.json"]
    ∃ outcome, Invocation.run ⟨⟨true, false, none⟩, .check paths⟩ .bare = (outcome, .bare) ∧
      outcome.exitCode = 1 ∧
      Verbosity.verbose.visible outcome.events =
        [⟨.info, "a.json: 0 entities, 0 ports, 0 packages, 0 architectures"⟩,
          ⟨.error, "failed to read b.json: No such file or directory (os error 2)"⟩,
          ⟨.info, "a.json: 0 entities, 0 ports, 0 packages, 0 architectures"⟩,
          ⟨.error, "1 of 3 files failed"⟩] ∧
      Invocation.run ⟨⟨false, true, some "c.toml"⟩, .check paths⟩ .bareWithSettings =
        (outcome, .bareWithSettings) := by
  intro paths
  have hgood : FileTree.bare.files.Accepts "a.json" :=
    ⟨_, .empty, FileTree.read_bare, ofText_bare⟩
  have hbad : ¬FileTree.bare.files.Accepts "b.json" := by
    rintro ⟨text, d, htext, -⟩
    cases FileTree.read_bare_missing.symm.trans htext
  have hreport : report "a.json" (FileTree.bare.files.read "a.json") =
      [⟨.info, "a.json: 0 entities, 0 ports, 0 packages, 0 architectures"⟩] := by
    rw [show FileTree.bare.files.read "a.json" = _ from FileTree.read_bare, report]
    dsimp only
    rw [ofText_bare]
    rfl
  have hmissing : report "b.json" (FileTree.bare.files.read "b.json") =
      [⟨.error, "failed to read b.json: No such file or directory (os error 2)"⟩] := by
    rw [show FileTree.bare.files.read "b.json" = _ from FileTree.read_bare_missing]
    rfl
  have hcount : (paths.countP fun path => ¬FileTree.bare.files.Accepts path) = 1 := by
    rw [List.countP_cons_of_neg (by simpa using hgood),
      List.countP_cons_of_pos (by simpa using hbad),
      List.countP_cons_of_neg (by simpa using hgood), List.countP_nil]
  obtain ⟨⟨-, hexit⟩, hevents, -, -, hrun, -⟩ := check_judges_each ⟨true, false, none⟩
    FileTree.bare.files FileTree.bare.write .bare paths
  have htally : tally 1 paths.length = [⟨.error, "1 of 3 files failed"⟩] := by decide
  refine ⟨_, hrun _ _ fun _ _ => rfl, ?_, ?_, ?_⟩
  · rw [hexit, if_neg fun h => hbad (h "b.json" (by decide))]
  · rw [hevents, hcount, htally, List.flatMap_cons, List.flatMap_cons, List.flatMap_cons, hreport,
      hmissing]
    rfl
  · refine hrun _ _ fun path hpath => ?_
    simp only [paths, List.mem_cons, List.not_mem_nil, or_false] at hpath
    rcases hpath with rfl | rfl | rfl
    · exact FileTree.read_bareWithSettings.trans FileTree.read_bare.symm
    · exact FileTree.read_bareWithSettings_missing.trans FileTree.read_bare_missing.symm
    · exact FileTree.read_bareWithSettings.trans FileTree.read_bare.symm

end HdlInterface
