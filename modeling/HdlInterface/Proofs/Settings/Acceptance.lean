import HdlInterface.Proofs.Settings.Description

/-!
# Which settings are accepted

A text with a valid table is accepted, unless documents are to be pretty and the indentation is out
of bounds; a text with any other table is unparsable (`ofText_by_table`). Only the table matters:
two texts whose tables are equal up to the order of keys have the same outcome.
-/

namespace HdlInterface.Settings

open Toml

/-! ## The indentation -/

/-- If documents are to be pretty, the indentation lies within bounds. -/
def IndentFits (entries : Entries) : Prop :=
  ∀ n, IsPretty entries true → IsIndent entries n → 1 ≤ n ∧ n ≤ 8

theorem indentFits_iff {entries : Entries} (hentries : Keyed Value.WellFormed entries)
    {s : Settings} (h : Describes entries s) :
    IndentFits entries ↔ (s.pretty = true → 1 ≤ s.indent ∧ s.indent ≤ indentLimit) := by
  constructor
  · intro hfits hpretty
    exact hfits s.indent (hpretty ▸ h.pretty) h.indent
  · intro hfits n hpretty hn
    have htrue : s.pretty = true := h.pretty.unique hentries meansBoolean_unique hpretty
    obtain rfl : s.indent = n := h.indent.unique hentries meansNatural_unique hn
    exact hfits htrue

/-! ## Equal tables -/

theorem meansLanguage_of_same (v w : Value) (l : Option Language) (h : v.Same w)
    (hv : MeansLanguage v l) : MeansLanguage w l := by
  rcases hv with ⟨rfl, rfl⟩ | ⟨rfl, rfl⟩
  · cases h
    exact .inl ⟨rfl, rfl⟩
  · cases h
    exact .inr ⟨rfl, rfl⟩

theorem meansBoolean_of_same (v w : Value) (b : Bool) (h : v.Same w) (hv : MeansBoolean v b) :
    MeansBoolean w b := by
  cases hv
  cases h
  rfl

theorem meansNatural_of_same (v w : Value) (n : Nat) (h : v.Same w) (hv : MeansNatural v n) :
    MeansNatural w n := by
  obtain ⟨k, rfl, hk⟩ := hv
  cases h
  exact ⟨k, rfl, hk⟩

section Same

variable {m n : Entries} {sec key : String} (h : m.Same n)
include h

theorem Given.of_same {v : Value} (hv : Given m sec key v) :
    ∃ w, Given n sec key w ∧ v.Same w := by
  obtain ⟨inner, hinner, hv⟩ := hv
  obtain ⟨t, ht, hsame⟩ := Entries.exists_mem_of_same h hinner
  cases hsame with
  | table hkeys hvalues =>
      obtain ⟨w, hw, hvw⟩ := Entries.exists_mem_of_same (.table hkeys hvalues) hv
      exact ⟨w, ⟨_, ht, hw⟩, hvw⟩

theorem GivenOr.of_same {α : Type} {means : Value → α → Prop} {default a : α}
    (hmeans : ∀ v w a, v.Same w → means v a → means w a)
    (ha : GivenOr m sec key means default a) : GivenOr n sec key means default a := by
  rcases ha with ⟨v, hv, ha⟩ | ⟨hnone, ha⟩
  · obtain ⟨w, hw, hsame⟩ := hv.of_same h
    exact .inl ⟨w, hw, hmeans v w a hsame ha⟩
  · refine .inr ⟨fun w hw => ?_, ha⟩
    obtain ⟨v, hv, -⟩ := hw.of_same h.symm
    exact hnone v hv

theorem Describes.of_same {s : Settings} (hs : Describes m s) : Describes n s where
  language := hs.language.of_same h meansLanguage_of_same
  pretty := GivenOr.of_same h meansBoolean_of_same hs.pretty
  indent := GivenOr.of_same h meansNatural_of_same hs.indent
  sort := hs.sort.of_same h meansBoolean_of_same
  normalizeCase := hs.normalizeCase.of_same h meansBoolean_of_same

theorem Sectioned.of_same (hm : Sectioned m) : Sectioned n where
  isTable {sec w} hsec hw := by
    obtain ⟨v, hv, hsame⟩ := Entries.exists_mem_of_same h.symm hw
    obtain ⟨inner, rfl⟩ := hm.isTable hsec hv
    cases hsame
    exact ⟨_, rfl⟩
  language inner hinner := by
    obtain ⟨v, hv, hsame⟩ := hinner.of_same h.symm
    cases hsame
    exact hm.language _ hv

theorem Valid.of_same (hm : Valid m) : Valid n where
  sections e he := by
    obtain ⟨v, hv, -⟩ := Entries.exists_mem_of_same h.symm he
    exact hm.sections (e.1, v) hv
  input {key w} hw := by
    obtain ⟨v, hv, hsame⟩ := hw.of_same h.symm
    obtain ⟨hkey, rfl | rfl⟩ := hm.input hv
    · cases hsame
      exact ⟨hkey, .inl rfl⟩
    · cases hsame
      exact ⟨hkey, .inr rfl⟩
  output {key w} hw := by
    obtain ⟨v, hv, hsame⟩ := hw.of_same h.symm
    rcases hm.output hv with ⟨hkey, b, rfl⟩ | ⟨hkey, k, rfl, hk⟩
    · cases hsame
      exact .inl ⟨hkey, b, rfl⟩
    · cases hsame
      exact .inr ⟨hkey, k, rfl, hk⟩

/-- Neither the order of the keys nor the notation matters. -/
theorem ofEntries?_eq_of_same (hm : Keyed Value.WellFormed m) (hn : Keyed Value.WellFormed n)
    (hsections : Sectioned m) : ofEntries? n = ofEntries? m := by
  ext s
  rw [ofEntries?_eq_some_iff_describes hn (hsections.of_same h),
    ofEntries?_eq_some_iff_describes hm hsections]
  exact ⟨fun ⟨hv, hs⟩ => ⟨hv.of_same h.symm, hs.of_same h.symm⟩,
    fun ⟨hv, hs⟩ => ⟨hv.of_same h, hs.of_same h⟩⟩

end Same

/-! ## Texts -/

section Texts

variable {text : String} {entries : Entries}

theorem ofText_of_entries (h : Toml.ofText? text = some entries) : ofText text =
    match ofEntries? entries with
    | some s => s.check
    | none => .error .unparsable := by
  rw [ofText, h]
  rfl

/-- Settings that are accepted have a layout with an indentation within bounds. -/
theorem layout_of_ofText {s : Settings} (h : ofText text = .ok s) :
    s.layout = .compact ∨ ∃ n, 1 ≤ n ∧ n ≤ indentLimit ∧ s.layout = .indented n := by
  rw [ofText] at h
  split at h
  · next t ht =>
      rw [check] at h
      split_ifs at h with hbounds
      cases h
      rw [layout]
      split_ifs with hpretty
      · rw [not_and_not_right] at hbounds
        obtain ⟨hlow, hhigh⟩ := hbounds hpretty
        exact .inr ⟨s.indent, hlow, hhigh, rfl⟩
      · exact .inl rfl
  · cases h

variable (htext : Toml.ofText? text = some entries) (hsections : Sectioned entries)
include htext hsections

theorem ofText_of_not_valid (h : ¬Valid entries) : ofText text = .error .unparsable := by
  have hnone : ofEntries? entries = none := by
    refine Option.eq_none_iff_forall_ne_some.2 fun s hs => h ?_
    exact ((ofEntries?_eq_some_iff_describes (wellFormed_of_ofText? htext) hsections).1 hs).1
  rw [ofText_of_entries htext, hnone]

theorem ofText_of_valid (h : Valid entries) : ∃ s, Describes entries s ∧ ofText text = s.check := by
  obtain ⟨s, hs⟩ := h.exists_describes
  refine ⟨s, hs, ?_⟩
  rw [ofText_of_entries htext,
    (ofEntries?_eq_some_iff_describes (wellFormed_of_ofText? htext) hsections).2 ⟨h, hs⟩]

theorem ofText_of_indentFits (h : Valid entries) (hfits : IndentFits entries) :
    ∃ s, Describes entries s ∧ ofText text = .ok s := by
  obtain ⟨s, hs, hcheck⟩ := ofText_of_valid htext hsections h
  have hbounds := (indentFits_iff (wellFormed_of_ofText? htext) hs).1 hfits
  exact ⟨s, hs, by rw [hcheck, check, if_neg (not_and_not_right.2 hbounds)]⟩

theorem ofText_of_not_indentFits (h : Valid entries) (hfits : ¬IndentFits entries) :
    ∃ n, IsIndent entries n ∧ ofText text = .error (.indentOutOfBounds n) := by
  obtain ⟨s, hs, hcheck⟩ := ofText_of_valid htext hsections h
  have hbounds := mt (indentFits_iff (wellFormed_of_ofText? htext) hs).2 hfits
  refine ⟨s.indent, hs.indent, ?_⟩
  rw [hcheck, check, if_pos (Classical.not_imp.1 hbounds)]

end Texts

/-- Settings that are accepted have a layout with an indentation from 1 to 8. A text that is no
document is refused as such. Take a document whose sections are tables and whose language is not.
It is accepted if it is valid and its indentation fits; it is refused for the indentation if it is
valid and its indentation does not fit, and as unparsable if it is not valid. What is accepted are
the settings given and the defaults of the others, and the order of keys and the notation of
tables do not matter. -/
theorem ofText_by_table (text : String) :
    (∀ s, ofText text = .ok s →
      s.layout = .compact ∨ ∃ n, 1 ≤ n ∧ n ≤ 8 ∧ s.layout = .indented n) ∧
    (Toml.ofText? text = none → ofText text = .error .unparsable) ∧
    ∀ entries, Toml.ofText? text = some entries → Sectioned entries →
      ((∃ s, ofText text = .ok s) ↔ Valid entries ∧ IndentFits entries) ∧
      ((∃ n, ofText text = .error (.indentOutOfBounds n)) ↔
        Valid entries ∧ ¬IndentFits entries) ∧
      (ofText text = .error .unparsable ↔ ¬Valid entries) ∧
      (∀ s, ofText text = .ok s → Describes entries s) ∧
      ∀ text' entries', Toml.ofText? text' = some entries' → entries.Same entries' →
        ofText text' = ofText text := by
  refine ⟨fun s => layout_of_ofText, fun hnone => ?_, fun entries htext hsections => ?_⟩
  · rw [ofText, hnone]
    rfl
  have hsame : ∀ text' entries', Toml.ofText? text' = some entries' → entries.Same entries' →
      ofText text' = ofText text := fun text' entries' htext' h => by
    rw [ofText_of_entries htext', ofText_of_entries htext,
      ofEntries?_eq_of_same h (wellFormed_of_ofText? htext) (wellFormed_of_ofText? htext')
        hsections]
  by_cases hvalid : Valid entries
  · by_cases hfits : IndentFits entries
    · obtain ⟨s, hs, hok⟩ := ofText_of_indentFits htext hsections hvalid hfits
      refine ⟨?_, ?_, ?_, fun t ht => ?_, hsame⟩
      · simp [hok, hvalid, hfits]
      · simp [hok, hfits]
      · simp [hok, hvalid]
      · rw [hok] at ht
        cases ht
        exact hs
    · obtain ⟨n, -, herror⟩ := ofText_of_not_indentFits htext hsections hvalid hfits
      refine ⟨?_, ?_, ?_, fun t ht => ?_, hsame⟩
      · simp [herror, hfits]
      · simp [herror, hvalid, hfits]
      · simp [herror, hvalid]
      · rw [herror] at ht
        cases ht
  · have herror := ofText_of_not_valid htext hsections hvalid
    refine ⟨?_, ?_, ?_, fun t ht => ?_, hsame⟩
    · simp [herror, hvalid]
    · simp [herror, hvalid]
    · simp [herror, hvalid]
    · rw [herror] at ht
      cases ht

/-- An indentation that no layout uses. -/
def unusedIndent : Entries :=
  [("output", .table [("pretty", .boolean false), ("indent", .integer 0)])]

theorem given_unusedIndent_iff {sec key : String} {v : Value} :
    Given unusedIndent sec key v ↔ sec = "output" ∧
      (key = "pretty" ∧ v = .boolean false ∨ key = "indent" ∧ v = .integer 0) := by
  constructor
  · rintro ⟨inner, hinner, hv⟩
    cases List.mem_singleton.1 hinner
    exact ⟨rfl, by simpa using hv⟩
  · rintro ⟨rfl, hv⟩
    exact ⟨_, List.mem_singleton_self _, by simpa using hv⟩

theorem sectioned_unusedIndent : Sectioned unusedIndent where
  isTable _ hv := by
    cases List.mem_singleton.1 hv
    exact ⟨_, rfl⟩
  language _ h := absurd (given_unusedIndent_iff.1 h).1 (by decide)

theorem valid_unusedIndent : Valid unusedIndent where
  sections e he := by
    cases List.mem_singleton.1 he
    exact .inr rfl
  input h := absurd (given_unusedIndent_iff.1 h).1 (by decide)
  output h := by
    obtain ⟨-, ⟨rfl, rfl⟩ | ⟨rfl, rfl⟩⟩ := given_unusedIndent_iff.1 h
    · exact .inl ⟨.inl rfl, _, rfl⟩
    · exact .inr ⟨rfl, 0, rfl, by decide⟩

theorem indentFits_unusedIndent : IndentFits unusedIndent := by
  intro n hpretty
  rcases hpretty with ⟨v, hv, htrue⟩ | ⟨hnone, -⟩
  · cases htrue
    simp [given_unusedIndent_iff] at hv
  · exact absurd (given_unusedIndent_iff.2 ⟨rfl, .inl ⟨rfl, rfl⟩⟩) (hnone _)

/-- Documents are compact, so the indentation may be anything; and an inline table with the keys
the other way round describes the same settings. -/
theorem unusedIndent_by_table :
    Toml.ofText? "[output]\npretty = false\nindent = 0\n" = some unusedIndent ∧
      Sectioned unusedIndent ∧
      (∃ s, ofText "[output]\npretty = false\nindent = 0\n" = .ok s) ∧
      ofText "output = \x7bindent = 0, pretty = false\x7d" =
        ofText "[output]\npretty = false\nindent = 0\n" := by
  have htext : Toml.ofText? "[output]\npretty = false\nindent = 0\n" = some unusedIndent := by
    decide +kernel
  have hinline : Toml.ofText? "output = \x7bindent = 0, pretty = false\x7d" =
      some [("output", .table [("indent", .integer 0), ("pretty", .boolean false)])] := by
    decide +kernel
  obtain ⟨hok, -, -, -, hsame⟩ := (ofText_by_table _).2.2 unusedIndent htext sectioned_unusedIndent
  refine ⟨htext, sectioned_unusedIndent, hok.2 ⟨valid_unusedIndent, indentFits_unusedIndent⟩,
    hsame _ _ hinline ?_⟩
  refine .table (fun key => Iff.rfl) fun key v w hv hw => ?_
  cases List.mem_singleton.1 hv
  cases List.mem_singleton.1 hw
  refine .table (fun key => ?_) fun key v w hv hw => ?_
  · simp [keys, or_comm]
  · simp only [List.mem_cons, List.not_mem_nil, or_false, Prod.mk.injEq] at hv hw
    rcases hv with ⟨rfl, rfl⟩ | ⟨rfl, rfl⟩
    · obtain rfl : w = .boolean false := by simpa using hw
      exact .boolean false
    · obtain rfl : w = .integer 0 := by simpa using hw
      exact .integer 0

end HdlInterface.Settings
