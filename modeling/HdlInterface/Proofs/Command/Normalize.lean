import HdlInterface.Command.Run
import HdlInterface.Proofs.Design.Depth
import HdlInterface.Proofs.Design.Rewriting

/-!
# Normalizing twice

Normalizing a text that is the outcome of normalizing changes nothing.
-/

namespace HdlInterface

/-! ## Designs -/

namespace Settings

variable {s : Settings} {l : Language} {d e : Design}

theorem apply_eq_ok_iff : s.apply l d = .ok e ↔
    ∃ c, (if s.normalizeCase then d.canonical l else .ok d) = .ok c ∧
      (if s.sort then c.arrange else c) = e := by
  unfold apply
  split_ifs <;> simp only [bind_eq_ok_iff, pure_eq_ok_iff, Except.ok.injEq]

/-- What canonical names and arranging keep is kept. -/
theorem apply_keeps {P : Design → Prop} (hcanonical : ∀ c, d.canonical l = .ok c → P d → P c)
    (harrange : ∀ c, P c → P c.arrange) (he : s.apply l d = .ok e) (hd : P d) : P e := by
  obtain ⟨c, hc, rfl⟩ := apply_eq_ok_iff.1 he
  have hPc : P c := by
    split_ifs at hc with hcase
    · exact hcanonical c hc hd
    · exact Except.ok.inj hc ▸ hd
  split_ifs
  · exact harrange c hPc
  · exact hPc

theorem storable_apply (he : s.apply l d = .ok e) (hd : d.Storable) : e.Storable := by
  refine apply_keeps (fun c hc hd => ?_) (fun c hc => hc.arrange) he hd
  obtain ⟨hrepeat, rfl⟩ := Design.canonical_eq_ok_iff.1 hc
  exact hd.mapNames hrepeat

theorem depth_apply (he : s.apply l d = .ok e) : e.depth = d.depth := by
  refine apply_keeps (P := fun c => c.depth = d.depth) (fun c hc _ => ?_) (fun c hc => ?_) he rfl
  · obtain ⟨-, rfl⟩ := Design.canonical_eq_ok_iff.1 hc
    exact d.depth_mapNames l.canonical
  · exact c.depth_arrange.trans hc

/-- The numbers that a check reports. -/
theorem counts_apply (he : s.apply l d = .ok e) :
    e.entities.length = d.entities.length ∧ e.portCount = d.portCount ∧
      e.headers.length = d.headers.length ∧ e.architectures.length = d.architectures.length := by
  refine apply_keeps (P := fun c => c.entities.length = d.entities.length ∧
    c.portCount = d.portCount ∧ c.headers.length = d.headers.length ∧
    c.architectures.length = d.architectures.length) (fun c hc _ => ?_) (fun c hc => ?_) he
    ⟨rfl, rfl, rfl, rfl⟩
  · obtain ⟨-, rfl⟩ := Design.canonical_eq_ok_iff.1 hc
    rw [Design.portCount_mapNames]
    simp [Design.mapNames]
  · rw [Design.portCount_arrange]
    simpa [Design.arrange] using hc

theorem apply_apply (he : s.apply l d = .ok e) : s.apply l e = .ok e := by
  obtain ⟨c, hc, rfl⟩ := apply_eq_ok_iff.1 he
  refine apply_eq_ok_iff.2 ⟨if s.sort then c.arrange else c, ?_, ?_⟩
  · split_ifs at hc with hcase
    · rw [if_pos hcase, Design.canonical_eq_ok_iff]
      obtain ⟨hrepeat, rfl⟩ := Design.canonical_eq_ok_iff.1 hc
      have hself := d.mapNames_canonical l
      split_ifs
      · rw [Design.mapNames_arrange hself]
        exact ⟨Design.firstRepeat_arrange hrepeat, rfl⟩
      · rw [hself]
        exact ⟨hrepeat, rfl⟩
    · rw [if_neg hcase]
  · split_ifs
    · exact c.arrange_arrange
    · rfl

/-! ## Texts -/

/-- The text of the normalized design in a text. -/
def rewrite (s : Settings) (l : Language) (text : String) : Except DocumentError String := do
  let d ← Design.ofText text
  let e ← s.apply l d
  e.toText s.layout

end Settings

/-! ## Runs -/

theorem toOption_bind {ε α β : Type} {x : Except ε α} {f : α → Except ε β} :
    (x >>= f).toOption = x.toOption.bind fun a => (f a).toOption := by
  cases x <;> rfl

namespace Run

variable {α β : Type} {x : Run α} {f : α → Run β} {events events' : List Event}

theorem run_bind_of_ok {a : α} (h : x.run events = (.ok a, events')) :
    (x >>= f).run events = (f a).run events' := by
  show (match x.run events with | (r, es) => ExceptT.bindCont f r es) = _
  rw [h]
  rfl

theorem run_ofExcept_bind {ε : Type} {message : ε → String} {e : Except ε α} :
    ((ofExcept message e >>= f).run events).1.toOption =
      e.toOption.bind fun a => ((f a).run events).1.toOption := by
  cases e <;> rfl

end Run

/-- What the command prints, once it has settings, a text and a language. -/
theorem normalize_run {files : Files} {config : Option String} {file text : String}
    {asked : Option Language} {s : Settings} {l : Language} {before between after : List Event}
    (hs : (loadSettings files config).run before = (.ok s, between))
    (hl : (resolveLanguage asked s file).run between = (.ok l, after))
    (hfile : files.read file = .ok text) :
    ((normalize files config file none asked).run before).1.toOption =
      (s.rewrite l text).toOption.map fun u => .print (u ++ "\n") := by
  rw [normalize, Run.run_bind_of_ok hs, Run.run_ofExcept_bind]
  have hlog : ∀ message, (Run.log .debug message).run after =
      (.ok (), after ++ [⟨.debug, message⟩]) := fun _ => rfl
  simp only [Run.run_bind_of_ok hl, Run.run_bind_of_ok (hlog _), Run.run_ofExcept_bind]
  have hdesign : (readDesign files file).toOption = (Design.ofText text).toOption := by
    simp only [readDesign, hfile]
    cases Design.ofText text <;> rfl
  rw [hdesign]
  simp only [Settings.rewrite, toOption_bind, Option.map_eq_bind, Option.bind_assoc]
  rfl

theorem readDesign_eq_ok {files : Files} {path text : String} {d : Design}
    (hfile : files.read path = .ok text) (hd : Design.ofText text = .ok d) :
    readDesign files path = .ok d := by
  simp only [readDesign, hfile, hd]

/-- A check of a single file that holds a design. -/
theorem check_of_readDesign {files : Files} {path : String} {d : Design}
    (h : readDesign files path = .ok d) : check files [path] = (fileEvents files path, 0) := by
  have hgood : isBad files path = false := by
    rw [isBad, h]
    rfl
  simp [check, hgood]

/-- What is written nests no deeper than what was read, so it is read again, and as the design that
was written. -/
theorem normalize_twice {t u : String} {v : Json} {s : Settings} {l : Language}
    (hv : Json.ofText? t = some v) (hi : v.Integral) (hu : s.rewrite l t = .ok u) :
    s.rewrite l (u ++ "\n") = .ok u ∧
      (∃ w, Json.ofText? u = some w ∧ Json.ofText? (u ++ "\n") = some w ∧ w.depth ≤ v.depth ∧
        v.depth ≤ 127) ∧
      ∃ d e, Design.ofText t = .ok d ∧ Design.ofText (u ++ "\n") = .ok e ∧
        e.entities.length = d.entities.length ∧ e.portCount = d.portCount ∧
        e.headers.length = d.headers.length ∧ e.architectures.length = d.architectures.length ∧
        ∀ files path, files.read path = .ok (u ++ "\n") → check files [path] =
          (⟨.info, s!"{path}: {d.entities.length} entities, {d.portCount} ports, " ++
              s!"{d.headers.length} packages, {d.architectures.length} architectures"⟩ ::
            e.entities.map entityEvent, 0) := by
  simp only [Settings.rewrite, bind_eq_ok_iff] at hu
  obtain ⟨d, hd, e, he, hu⟩ := hu
  obtain ⟨w, hw, rfl⟩ := Design.toText_eq_ok_iff.1 hu
  have hstorable := Settings.storable_apply he (Design.storable_of_ofText hv hi hd)
  have hdepth : (Json.object w).depth ≤ v.depth := by
    obtain ⟨m, hm, hread⟩ := Design.exists_object_of_ofText hd
    obtain rfl := Option.some.inj (hv.symm.trans hm)
    calc (Json.object w).depth ≤ e.depth := Design.depth_toFields_le hw
      _ = d.depth := Settings.depth_apply he
      _ ≤ (Json.object m).depth := Design.depth_le_of_ofFields hread
  have hlimit : v.depth ≤ Json.depthLimit := Json.depth_le_of_ofText? hv
  have hnone : ∀ c ∈ "".toList, JsonReader.isBlank c = true := nofun
  have hnewline : ∀ c ∈ "\n".toList, JsonReader.isBlank c = true := fun c hc => by
    rw [List.mem_singleton.1 (show c ∈ ['\n'] from hc)]
    decide
  have hbare := hstorable.ofText?_toText hw s.layout hnone
  have hjson := hstorable.ofText?_toText hw s.layout hnewline
  have hread := hstorable.ofText_toText hw s.layout hnewline
  rw [if_pos (Nat.le_trans hdepth hlimit)] at hbare hjson hread
  rw [String.append_empty] at hbare
  refine ⟨?_, ⟨_, hbare, hjson, hdepth, hlimit⟩, d, e, hd, hread, ?_⟩
  · simp only [Settings.rewrite, hread, ok_bind, Settings.apply_apply he, hu]
  · obtain ⟨hentities, hports, hheaders, harchitectures⟩ := Settings.counts_apply he
    refine ⟨hentities, hports, hheaders, harchitectures, fun files path hfile => ?_⟩
    have hdesign := readDesign_eq_ok hfile hread
    simp only [check_of_readDesign hdesign, fileEvents, hdesign, hentities, hports, hheaders,
      harchitectures]

/-- Names with capitals, and ports out of order, in a document that is not in written form. -/
theorem gateFields_normalize_twice :
    ∃ u, Settings.rewrite {} .vhdl ((Design.gateFields "in").toText .compact) = .ok u ∧
      Settings.rewrite {} .vhdl (u ++ "\n") = .ok u := by
  have hv : Json.ofText? ((Design.gateFields "in").toText .compact) =
      some (.object (Design.gateFields "in")) := by
    have hnone : ∀ c ∈ "".toList, JsonReader.isBlank c = true := nofun
    have hread := Json.ofText?_toText .compact (v := .object (Design.gateFields "in"))
      (by decide) (by decide) hnone
    rwa [String.append_empty, if_pos (by decide)] at hread
  have hd : Design.ofText ((Design.gateFields "in").toText .compact) = .ok .gate := by
    rw [Design.ofText_of_ofText? hv]
    exact Design.ofFields_gateFields rfl
  have he : Settings.apply {} .vhdl .gate = .ok (Design.gate.mapNames lowerCase).arrange :=
    Settings.apply_eq_ok_iff.2 ⟨_, Design.canonical_eq_ok_iff.2 ⟨by decide +kernel, rfl⟩, rfl⟩
  have hstorable := Settings.storable_apply he (Design.storable_of_ofText hv (by decide) hd)
  obtain ⟨w, hw⟩ := Design.exists_toFields_of_lossless hstorable.lossless
  have hu : Settings.rewrite {} .vhdl ((Design.gateFields "in").toText .compact) =
      .ok (w.toText (.indented 2)) := by
    simp only [Settings.rewrite, hd, he, ok_bind, Design.toText, hw]
    rfl
  exact ⟨_, hu, (normalize_twice hv (by decide) hu).1⟩

end HdlInterface
