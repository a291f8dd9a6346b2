import Mathlib.Tactic.SplitIfs
import HdlInterface.Settings
import HdlInterface.Proofs.Toml.Tables

/-!
# Tables that describe settings

What settings are read from the table of a document (`ofEntries?_eq_some_iff_describes`). The table
is `Valid` if all its keys are known and each value is one that its setting takes, and then it
`Describes` one lot of settings: the values given, and the defaults where none is given. The values
of a section are read one by one; a missing section reads as an empty one.
-/

namespace HdlInterface.Settings

open Toml

/-! ## Validity and description -/

/-- The document gives `v` for the setting `key` of a section. -/
def Given (entries : Entries) (sec key : String) (v : Value) : Prop :=
  ∃ inner, (sec, .table inner) ∈ entries ∧ (key, v) ∈ inner

/-- The sections are tables, and the language is not. -/
structure Sectioned (entries : Entries) : Prop where
  isTable : ∀ {sec v}, sec = "input" ∨ sec = "output" → (sec, v) ∈ entries →
    ∃ inner, v = .table inner
  language : ∀ inner, ¬Given entries "input" "language" (.table inner)

/-- All keys are those of settings, and each value is one that its setting takes. -/
structure Valid (entries : Entries) : Prop where
  sections : ∀ e ∈ entries, e.1 = "input" ∨ e.1 = "output"
  input : ∀ {key v}, Given entries "input" key v →
    key = "language" ∧ (v = .string "vhdl" ∨ v = .string "verilog")
  output : ∀ {key v}, Given entries "output" key v →
    (key = "pretty" ∨ key = "sort" ∨ key = "normalize_case") ∧ (∃ b, v = .boolean b) ∨
      key = "indent" ∧ ∃ n : Int64, v = .integer n ∧ 0 ≤ n.toInt

/-- `a` is what the value given means, or the default if no value is given. -/
def GivenOr {α : Type} (entries : Entries) (sec key : String) (means : Value → α → Prop)
    (default a : α) : Prop :=
  (∃ v, Given entries sec key v ∧ means v a) ∨ (∀ v, ¬Given entries sec key v) ∧ a = default

def MeansLanguage (v : Value) (l : Option Language) : Prop :=
  v = .string "vhdl" ∧ l = some .vhdl ∨ v = .string "verilog" ∧ l = some .verilog

def MeansBoolean (v : Value) (b : Bool) : Prop := v = .boolean b

def MeansNatural (v : Value) (n : Nat) : Prop := ∃ k : Int64, v = .integer k ∧ k.toInt = n

def IsPretty (entries : Entries) (b : Bool) : Prop :=
  GivenOr entries "output" "pretty" MeansBoolean true b

def IsIndent (entries : Entries) (n : Nat) : Prop :=
  GivenOr entries "output" "indent" MeansNatural 2 n

/-- The settings are the ones given, or their defaults. -/
structure Describes (entries : Entries) (s : Settings) : Prop where
  language : GivenOr entries "input" "language" MeansLanguage none s.language
  pretty : IsPretty entries s.pretty
  indent : IsIndent entries s.indent
  sort : GivenOr entries "output" "sort" MeansBoolean true s.sort
  normalizeCase : GivenOr entries "output" "normalize_case" MeansBoolean true s.normalizeCase

section Tables

variable {entries : Entries} {sec key : String}

/-- One value at most is given for a setting. -/
theorem Given.unique (hentries : Keyed Value.WellFormed entries) {v w : Value}
    (hv : Given entries sec key v) (hw : Given entries sec key w) : v = w := by
  obtain ⟨inner, hinner, hv⟩ := hv
  obtain ⟨inner', hinner', hw⟩ := hw
  cases Entries.eq_of_mem hentries.nodup hinner hinner'
  cases hentries.each _ hinner with
  | table hkeys => exact Entries.eq_of_mem hkeys hv hw

variable {α : Type} {means : Value → α → Prop} {default a b : α}

theorem GivenOr.unique (hentries : Keyed Value.WellFormed entries)
    (hmeans : ∀ v a b, means v a → means v b → a = b)
    (ha : GivenOr entries sec key means default a)
    (hb : GivenOr entries sec key means default b) : a = b := by
  rcases ha with ⟨v, hv, ha⟩ | ⟨hnone, rfl⟩
  · rcases hb with ⟨w, hw, hb⟩ | ⟨hnone, -⟩
    · rw [hv.unique hentries hw] at ha
      exact hmeans w a b ha hb
    · exact absurd hv (hnone v)
  · rcases hb with ⟨w, hw, -⟩ | ⟨-, rfl⟩
    · exact absurd hw (hnone w)
    · rfl

theorem GivenOr.of_given (hentries : Keyed Value.WellFormed entries)
    (h : GivenOr entries sec key means default a) {v : Value} (hv : Given entries sec key v) :
    means v a := by
  rcases h with ⟨w, hw, ha⟩ | ⟨hnone, -⟩
  · rwa [hv.unique hentries hw]
  · exact absurd hv (hnone v)

theorem exists_givenOr (h : ∀ v, Given entries sec key v → ∃ a, means v a) :
    ∃ a, GivenOr entries sec key means default a := by
  by_cases hgiven : ∃ v, Given entries sec key v
  · obtain ⟨v, hv⟩ := hgiven
    obtain ⟨a, ha⟩ := h v hv
    exact ⟨a, .inl ⟨v, hv, ha⟩⟩
  · exact ⟨default, .inr ⟨fun v hv => hgiven ⟨v, hv⟩, rfl⟩⟩

theorem meansBoolean_unique (v : Value) (b c : Bool) (hb : MeansBoolean v b)
    (hc : MeansBoolean v c) : b = c := by
  cases hb.symm.trans hc
  rfl

theorem meansNatural_unique (v : Value) (m n : Nat) (hm : MeansNatural v m)
    (hn : MeansNatural v n) : m = n := by
  obtain ⟨k, rfl, hm⟩ := hm
  obtain ⟨_, ⟨⟩, hn⟩ := hn
  omega

end Tables

/-! ## Reading a value -/

theorem boolean?_eq_some_iff {v : Value} {b : Bool} : boolean? v = some b ↔ MeansBoolean v b := by
  cases v <;> simp [boolean?, MeansBoolean]

theorem natural?_eq_some_iff {v : Value} {n : Nat} : natural? v = some n ↔ MeansNatural v n := by
  cases v with
  | integer k =>
      simp only [natural?, MeansNatural, Value.integer.injEq, exists_eq_left']
      split_ifs with hk
      · rw [Option.some.injEq]
        omega
      · simp only [false_iff]
        omega
  | _ => simp [natural?, MeansNatural]

/-- A language that is no table is the name of one. -/
theorem language?_eq_some_iff {v : Value} (hv : ∀ inner, v ≠ .table inner) {l : Option Language} :
    some <$> language? v = some l ↔ MeansLanguage v l := by
  cases v with
  | string s =>
      constructor
      · intro h
        obtain ⟨k, hk, rfl⟩ := Option.map_eq_some_iff.1 h
        have hname := List.find?_some hk
        obtain rfl := eq_of_beq hname
        cases k with
        | vhdl => exact .inl ⟨rfl, rfl⟩
        | verilog => exact .inr ⟨rfl, rfl⟩
      · rintro (⟨⟨⟩, rfl⟩ | ⟨⟨⟩, rfl⟩)
        · exact congrArg (some <$> ·) (Language.ofName?_name .vhdl)
        · exact congrArg (some <$> ·) (Language.ofName?_name .verilog)
  | table inner => exact absurd rfl (hv inner)
  | _ => simp [language?, MeansLanguage]

/-! ## Reading a section -/

/-- The entries of a section; none if the document has no such table. -/
def sectionEntries (entries : Entries) (sec : String) : Entries :=
  match entries.value? sec with
  | some (.table inner) => inner
  | _ => []

theorem members?_table_eq_some_iff {names : List String} {entries : Entries}
    {values : List (Option Value)} :
    members? names (.table entries) = some values ↔
      (∀ e ∈ entries, e.1 ∈ names) ∧ values = names.map entries.value? := by
  have hall : (entries.all fun e => names.contains e.1) = true ↔ ∀ e ∈ entries, e.1 ∈ names := by
    simp only [List.all_eq_true, List.contains_iff_mem]
  rw [members?, ← hall, Option.ite_none_right_eq_some, Option.some.injEq, eq_comm (a := values)]

section Sections

variable {entries : Entries} {sec key : String}

theorem mem_sectionEntries_iff (hentries : Keyed Value.WellFormed entries) {v : Value} :
    (key, v) ∈ sectionEntries entries sec ↔ Given entries sec key v := by
  constructor
  · intro hv
    rw [sectionEntries] at hv
    split at hv
    · next inner hinner => exact ⟨inner, Entries.mem_of_value? hinner, hv⟩
    · cases hv
  · rintro ⟨inner, hinner, hv⟩
    rwa [sectionEntries, (Entries.value?_eq_some_iff hentries.nodup).2 hinner]

theorem nodup_keys_sectionEntries (hentries : Keyed Value.WellFormed entries) (sec : String) :
    (keys (sectionEntries entries sec)).Nodup := by
  rw [sectionEntries]
  split
  · next inner hinner =>
      cases hentries.each _ (Entries.mem_of_value? hinner) with
      | table hkeys => exact hkeys
  · exact List.nodup_nil

/-- A missing section reads as an empty one. -/
theorem orDefault_section {α : Type} {read : Value → Option α} {default : α}
    (hsec : ∀ v, (sec, v) ∈ entries → ∃ inner, v = .table inner)
    (hempty : read (.table []) = some default) :
    orDefault read default (entries.value? sec) = read (.table (sectionEntries entries sec)) := by
  rw [sectionEntries]
  cases hv : entries.value? sec with
  | none => exact hempty.symm
  | some v =>
      obtain ⟨inner, rfl⟩ := hsec v (Entries.mem_of_value? hv)
      rfl

/-- A reader that finds out what values mean reads the value given or the default. -/
theorem orDefault_eq_some_iff (hentries : Keyed Value.WellFormed entries) {α : Type}
    {read : Value → Option α} {means : Value → α → Prop} {default a : α}
    (hread : ∀ v, Given entries sec key v → (read v = some a ↔ means v a)) :
    orDefault read default ((sectionEntries entries sec).value? key) = some a ↔
      GivenOr entries sec key means default a := by
  have hkeys := nodup_keys_sectionEntries hentries sec
  have hgiven : ∀ v, (sectionEntries entries sec).value? key = some v ↔
      Given entries sec key v := fun v =>
    (Entries.value?_eq_some_iff hkeys).trans (mem_sectionEntries_iff hentries)
  cases hv : (sectionEntries entries sec).value? key with
  | none =>
      have hnone : ∀ v, ¬Given entries sec key v := fun v h => by
        rw [(hgiven v).2 h] at hv
        cases hv
      simp [orDefault, GivenOr, hnone, eq_comm]
  | some v =>
      have hsome := (hgiven v).1 hv
      have hunique : ∀ w, Given entries sec key w ↔ w = v := fun w =>
        ⟨fun h => h.unique hentries hsome, fun h => h ▸ hsome⟩
      simp [orDefault, GivenOr, hunique, hread v hsome]

end Sections

theorem withInput_eq_some_iff {s t : Settings} {entries : Entries} :
    withInput s (.table entries) = some t ↔
      (∀ e ∈ entries, e.1 ∈ ["language"]) ∧
        orDefault (fun v => some <$> language? v) none (entries.value? "language") =
          some t.language ∧
        t = { s with language := t.language } := by
  simp only [withInput, Option.bind_eq_bind, Option.bind_eq_some_iff, members?_table_eq_some_iff]
  constructor
  · rintro ⟨values, ⟨hkeys, rfl⟩, h⟩
    simp only [List.map_cons, List.map_nil, Option.bind_eq_some_iff] at h
    obtain ⟨l, hl, ht⟩ := h
    cases ht
    exact ⟨hkeys, hl, rfl⟩
  · rintro ⟨hkeys, hl, ht⟩
    refine ⟨_, ⟨hkeys, rfl⟩, ?_⟩
    simp only [List.map_cons, List.map_nil, Option.bind_eq_some_iff]
    exact ⟨_, hl, congrArg some ht.symm⟩

theorem withOutput_eq_some_iff {s t : Settings} {entries : Entries} :
    withOutput s (.table entries) = some t ↔
      (∀ e ∈ entries, e.1 ∈ ["pretty", "indent", "sort", "normalize_case"]) ∧
        orDefault boolean? s.pretty (entries.value? "pretty") = some t.pretty ∧
        orDefault natural? s.indent (entries.value? "indent") = some t.indent ∧
        orDefault boolean? s.sort (entries.value? "sort") = some t.sort ∧
        orDefault boolean? s.normalizeCase (entries.value? "normalize_case") =
          some t.normalizeCase ∧
        t.language = s.language := by
  simp only [withOutput, Option.bind_eq_bind, Option.bind_eq_some_iff, members?_table_eq_some_iff]
  constructor
  · rintro ⟨values, ⟨hkeys, rfl⟩, h⟩
    simp only [List.map_cons, List.map_nil, Option.bind_eq_some_iff] at h
    obtain ⟨pretty, hpretty, indent, hindent, sort, hsort, normalizeCase, hnormalize, ht⟩ := h
    cases ht
    exact ⟨hkeys, hpretty, hindent, hsort, hnormalize, rfl⟩
  · rintro ⟨hkeys, hpretty, hindent, hsort, hnormalize, hlanguage⟩
    refine ⟨_, ⟨hkeys, rfl⟩, ?_⟩
    simp only [List.map_cons, List.map_nil, Option.bind_eq_some_iff]
    refine ⟨_, hpretty, _, hindent, _, hsort, _, hnormalize, ?_⟩
    rw [← hlanguage]

/-- What the settings of a document are, section by section. -/
theorem ofEntries?_eq_some_iff {entries : Entries} (hentries : Keyed Value.WellFormed entries)
    (hsections : Sectioned entries) {s : Settings} :
    ofEntries? entries = some s ↔
      (∀ e ∈ entries, e.1 ∈ ["input", "output"]) ∧
        (∀ e ∈ sectionEntries entries "input", e.1 ∈ ["language"]) ∧
        (∀ e ∈ sectionEntries entries "output",
          e.1 ∈ ["pretty", "indent", "sort", "normalize_case"]) ∧
        Describes entries s := by
  have hinput : orDefault (withInput {}) {} (entries.value? "input") =
      withInput {} (.table (sectionEntries entries "input")) :=
    orDefault_section (fun v => hsections.isTable (.inl rfl)) rfl
  have houtput : ∀ t, orDefault (withOutput t) t (entries.value? "output") =
      withOutput t (.table (sectionEntries entries "output")) := fun t =>
    orDefault_section (fun v => hsections.isTable (.inr rfl)) rfl
  have hlanguage : ∀ l, orDefault (fun v => some <$> language? v) none
      ((sectionEntries entries "input").value? "language") = some l ↔
        GivenOr entries "input" "language" MeansLanguage none l := fun l =>
    orDefault_eq_some_iff hentries fun v hv =>
      language?_eq_some_iff fun inner h => hsections.language inner (h ▸ hv)
  have hboolean : ∀ key b, orDefault boolean? true
      ((sectionEntries entries "output").value? key) = some b ↔
        GivenOr entries "output" key MeansBoolean true b := fun key b =>
    orDefault_eq_some_iff hentries fun v _ => boolean?_eq_some_iff
  have hnatural : ∀ n, orDefault natural? 2
      ((sectionEntries entries "output").value? "indent") = some n ↔
        IsIndent entries n := fun n =>
    orDefault_eq_some_iff hentries fun v _ => natural?_eq_some_iff
  simp only [ofEntries?, Option.bind_eq_bind, Option.bind_eq_some_iff, members?_table_eq_some_iff]
  constructor
  · rintro ⟨values, ⟨hkeys, rfl⟩, h⟩
    simp only [List.map_cons, List.map_nil, Option.bind_eq_some_iff, hinput, houtput,
      withInput_eq_some_iff, withOutput_eq_some_iff] at h
    obtain ⟨t, ⟨hin, hl, ht⟩, hout, hpretty, hindent, hsort, hnormalize, hs⟩ := h
    rw [ht] at hpretty hindent hsort hnormalize
    exact ⟨hkeys, hin, hout, (hlanguage _).1 (hs ▸ hl), (hboolean _ _).1 hpretty,
      (hnatural _).1 hindent, (hboolean _ _).1 hsort, (hboolean _ _).1 hnormalize⟩
  · rintro ⟨hkeys, hin, hout, h⟩
    refine ⟨_, ⟨hkeys, rfl⟩, ?_⟩
    simp only [List.map_cons, List.map_nil, Option.bind_eq_some_iff, hinput, houtput,
      withInput_eq_some_iff, withOutput_eq_some_iff]
    exact ⟨{ language := s.language }, ⟨hin, (hlanguage _).2 h.language, rfl⟩, hout,
      (hboolean _ _).2 h.pretty, (hnatural _).2 h.indent, (hboolean _ _).2 h.sort,
      (hboolean _ _).2 h.normalizeCase, rfl⟩

/-! ## Valid tables -/

section Tables

variable {entries : Entries}

theorem valid_of_describes (hentries : Keyed Value.WellFormed entries)
    (hkeys : ∀ e ∈ entries, e.1 ∈ ["input", "output"])
    (hin : ∀ e ∈ sectionEntries entries "input", e.1 ∈ ["language"])
    (hout : ∀ e ∈ sectionEntries entries "output",
      e.1 ∈ ["pretty", "indent", "sort", "normalize_case"]) {s : Settings}
    (h : Describes entries s) : Valid entries where
  sections e he := by simpa using hkeys e he
  input {key v} hv := by
    have hkey := hin _ ((mem_sectionEntries_iff hentries).2 hv)
    obtain rfl := List.mem_singleton.1 hkey
    exact ⟨rfl, (h.language.of_given hentries hv).imp And.left And.left⟩
  output {key v} hv := by
    have hkey := hout _ ((mem_sectionEntries_iff hentries).2 hv)
    simp only [List.mem_cons, List.not_mem_nil, or_false] at hkey
    rcases hkey with rfl | rfl | rfl | rfl
    · exact .inl ⟨.inl rfl, _, h.pretty.of_given hentries hv⟩
    · obtain ⟨n, hn, hindent⟩ := h.indent.of_given hentries hv
      exact .inr ⟨rfl, n, hn, by omega⟩
    · exact .inl ⟨.inr (.inl rfl), _, h.sort.of_given hentries hv⟩
    · exact .inl ⟨.inr (.inr rfl), _, h.normalizeCase.of_given hentries hv⟩

theorem Valid.exists_means_boolean (h : Valid entries) {key : String} (hkey : key ≠ "indent")
    {v : Value} (hv : Given entries "output" key v) : ∃ b, MeansBoolean v b := by
  rcases h.output hv with ⟨-, hb⟩ | ⟨hindent, -⟩
  · exact hb
  · exact absurd hindent hkey

theorem Valid.exists_describes (h : Valid entries) : ∃ s, Describes entries s := by
  obtain ⟨language, hlanguage⟩ : ∃ l,
      GivenOr entries "input" "language" MeansLanguage none l := by
    refine exists_givenOr fun v hv => ?_
    rcases (h.input hv).2 with rfl | rfl
    · exact ⟨_, .inl ⟨rfl, rfl⟩⟩
    · exact ⟨_, .inr ⟨rfl, rfl⟩⟩
  have hboolean : ∀ key, key ≠ "indent" → ∃ b,
      GivenOr entries "output" key MeansBoolean true b := fun key hkey =>
    exists_givenOr fun v hv => h.exists_means_boolean hkey hv
  obtain ⟨pretty, hpretty⟩ := hboolean "pretty" (by decide)
  obtain ⟨sort, hsort⟩ := hboolean "sort" (by decide)
  obtain ⟨normalizeCase, hnormalize⟩ := hboolean "normalize_case" (by decide)
  obtain ⟨indent, hindent⟩ : ∃ n, IsIndent entries n := by
    refine exists_givenOr fun v hv => ?_
    rcases h.output hv with ⟨hkey, -⟩ | ⟨-, n, rfl, hn⟩
    · exact absurd hkey (by decide)
    · exact ⟨n.toInt.toNat, n, rfl, by omega⟩
  exact ⟨⟨language, pretty, indent, sort, normalizeCase⟩,
    hlanguage, hpretty, hindent, hsort, hnormalize⟩

/-- The settings of a document are those that its table describes, if it is valid. -/
theorem ofEntries?_eq_some_iff_describes (hentries : Keyed Value.WellFormed entries)
    (hsections : Sectioned entries) {s : Settings} :
    ofEntries? entries = some s ↔ Valid entries ∧ Describes entries s := by
  rw [ofEntries?_eq_some_iff hentries hsections]
  constructor
  · rintro ⟨hkeys, hin, hout, h⟩
    exact ⟨valid_of_describes hentries hkeys hin hout h, h⟩
  · rintro ⟨hvalid, h⟩
    refine ⟨fun e he => by simpa using hvalid.sections e he, fun e he => ?_, fun e he => ?_, h⟩
    · have hkey := (hvalid.input ((mem_sectionEntries_iff hentries).1 he)).1
      exact List.mem_singleton.2 hkey
    · rcases hvalid.output ((mem_sectionEntries_iff hentries).1 he) with
        ⟨hkey | hkey | hkey, -⟩ | ⟨hkey, -⟩ <;> simp [hkey]

end Tables

end HdlInterface.Settings
