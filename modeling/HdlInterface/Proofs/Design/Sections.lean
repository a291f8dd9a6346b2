import Mathlib.Data.Finset.Card
import HdlInterface.Proofs.Design.Collision
import HdlInterface.Proofs.Design.Refusal
import HdlInterface.Proofs.Json.Repeated

/-!
# The sections of a text

A section is read from the entries of its text once repeated keys are resolved, and only if each
declares its own key as its name. So no name is read twice, and nothing that is inserted into a
design while it is read is ever refused (`Design.keyed_sections`).
-/

namespace HdlInterface

/-! ## Inserting what was read -/

namespace Design

/-- The reader that inserts each unit into a design that holds those before it. -/
def ofFieldsOneByOne (m : Fields) : Except DocumentError Design := do
  let imports ← m.optional "imports" Fields.array
  let headers ← m.optional "packageHeaders"
    (Fields.keyed PackageHeader.ofFields PackageHeader.name)
  let withHeaders ← headers.foldlM insertHeader { empty with imports }
  let entities ← m.keyed Entity.ofFields Entity.name "entities"
  let withEntities ← entities.foldlM insertEntity withHeaders
  let bodies ← m.optional "packages" (Fields.keyed PackageBody.ofFields PackageBody.name)
  let withBodies ← bodies.foldlM insertBody withEntities
  let architectures ← m.optional "architectures" (Fields.list Architecture.ofFields)
  return { withBodies with architectures, extra := m.without sections }

def ofTextOneByOne (text : String) : Except DocumentError Design := do
  match Json.ofText? text with
  | none => throw .malformed
  | some v => ofFieldsOneByOne (← v.fieldsAt "design")

/-- Things under different names are all inserted. -/
theorem foldlM_insert_of_nodup {α : Type} {name : α → String}
    {insert : Design → α → Except DocumentError Design} {put : List α → Design}
    (hinsert : ∀ done x, insert (put done) x = (addNamed name done x).map put) {xs : List α}
    (hxs : (xs.map name).Nodup) : xs.foldlM insert (put []) = .ok (put xs) := by
  have hnone : firstRepeated (fun _ => none) name [] xs = none := by
    rw [firstRepeated_eq_none_iff]
    exact ⟨fun _ _ => rfl, hxs, nofun⟩
  have hfold := @foldlM_insert α (fun _ => none) name insert put hinsert id xs
  rw [List.map_id, hnone] at hfold
  exact hfold

theorem ofFieldsOneByOne_eq {m : Fields} (hm : (Json.object m).WellFormed) :
    ofFieldsOneByOne m = ofFields m := by
  refine bind_congr fun imports => bind_congr_of_ok fun headers hheaders => ?_
  let start : Design := { empty with imports }
  let withHeaders : Design := { start with headers }
  have hinsert : headers.foldlM insertHeader start = .ok withHeaders :=
    foldlM_insert_of_nodup start.insertHeader_eq (nodup_names_of_optional hm hheaders)
  rw [hinsert, ok_bind]
  refine bind_congr_of_ok fun entities hentities => ?_
  let withEntities : Design := { withHeaders with entities }
  have hinsert : entities.foldlM insertEntity withHeaders = .ok withEntities :=
    foldlM_insert_of_nodup withHeaders.insertEntity_eq (nodup_names_of_keyed hm hentities)
  rw [hinsert, ok_bind]
  refine bind_congr_of_ok fun bodies hbodies => ?_
  have hinsert : bodies.foldlM insertBody withEntities = .ok { withEntities with bodies } :=
    foldlM_insert_of_nodup withEntities.insertBody_eq (nodup_names_of_optional hm hbodies)
  rw [hinsert, ok_bind]

theorem ofTextOneByOne_eq (text : String) : ofTextOneByOne text = ofText text := by
  rw [ofTextOneByOne, ofText]
  cases hv : Json.ofText? text with
  | none => rfl
  | some v =>
      refine bind_congr_of_ok fun m hm => ?_
      obtain rfl := Fields.fieldsAt_eq_ok_iff.1 hm
      exact ofFieldsOneByOne_eq (Json.wellFormed_of_ofText? hv)

end Design

/-! ## Entries of a section -/

/-- What is read from an object has the name that the object declares. -/
def ReadsName {α : Type} (read : Fields → Except DocumentError α) (name : α → String) : Prop :=
  ∀ n x, read n = .ok x → n.value? "name" = some (.string (name x))

namespace Fields

/-- The entry under `k` of the section under `key`, once repeated keys are resolved. -/
def EntryAt (m : Fields) (key k : String) (n : Fields) : Prop :=
  ∃ entries : Fields, m.last? key = some (.object entries) ∧ entries.last? k = some (.object n)

/-- The entries hold exactly these things: one for each key, in the order in which the keys occur
first, and read from the last entry under its name, which declares that name. -/
structure Hold {α : Type} (entries : Fields) (read : Fields → Except DocumentError α)
    (name : α → String) (xs : List α) : Prop where
  names : xs.map name = entries.keys.eraseDups
  nodup : (xs.map name).Nodup
  length : xs.length = entries.keys.toFinset.card
  entry : ∀ x ∈ xs, ∃ n : Fields, entries.last? (name x) = some (.object n) ∧
    n.last? "name" = some (.string (name x)) ∧ read n.merged = .ok x

section Keyed

variable {α : Type} {read : Fields → Except DocumentError α} {name : α → String} {m : Fields}
  {key : String}

theorem mem_merged_iff {entries n : Fields} {k : String} : (k, .object n) ∈ entries.merged ↔
    ∃ n', entries.last? k = some (.object n') ∧ n = merged n' := by
  rw [← value?_eq_some_iff entries.nodup_keys_merged, value?_merged_eq_object_iff]

theorem hold_of_keyed (hname : ReadsName read name) {xs : List α}
    (h : m.merged.keyed read name key = .ok xs) :
    ∃ entries : Fields, m.last? key = some (.object entries) ∧ entries.Hold read name xs := by
  obtain ⟨_, hsection, h⟩ := keyed_eq_ok_iff.1 h
  obtain ⟨entries, hentries, rfl⟩ := value?_merged_eq_object_iff.1 hsection
  have hnames : xs.map name = entries.keys.eraseDups := by
    rw [← keys_of_keyed h, keys_merged]
  have hnodup : (xs.map name).Nodup := keys_of_keyed h ▸ entries.nodup_keys_merged
  refine ⟨entries, hentries, hnames, hnodup, ?_, fun x hx => ?_⟩
  · have hkeys : (xs.map name).toFinset = entries.keys.toFinset := by
      ext k
      rw [hnames, List.mem_toFinset, List.mem_toFinset, List.mem_eraseDups]
    rw [← hkeys, List.toFinset_card_of_nodup hnodup, List.length_map]
  · obtain ⟨f, hf, _, rfl, hread⟩ := exists_of_mem_right h hx
    obtain ⟨n, hn, rfl⟩ := mem_merged_iff.1 hf
    exact ⟨n, hn, value?_merged_eq_string_iff.1 (hname _ x hread), hread⟩

/-- In a section that is read, every entry declares its own key as its name. -/
theorem name_of_keyed (hname : ReadsName read name) {xs : List α}
    (h : m.merged.keyed read name key = .ok xs) {k : String} {n : Fields}
    (hn : m.EntryAt key k n) : ∃ x ∈ xs, read n.merged = .ok x ∧
      n.last? "name" = some (.string k) := by
  obtain ⟨entries, hentries, hn⟩ := hn
  obtain ⟨_, hsection, h⟩ := keyed_eq_ok_iff.1 h
  rw [value?_merged_eq_object_iff.2 ⟨entries, hentries, rfl⟩] at hsection
  cases hsection
  obtain ⟨x, hx, _, hf, hread⟩ := exists_of_mem_left h (mem_merged_iff.2 ⟨n, hn, rfl⟩)
  obtain ⟨rfl, hfields⟩ := Prod.mk.inj hf
  cases hfields
  exact ⟨x, hx, hread, value?_merged_eq_string_iff.1 (hname _ x hread)⟩

/-- A section is refused for one of its entries, or because an entry declares another name. -/
theorem keyed_failsOnly {P : DocumentError → Prop} (hP : ∀ e : DocumentError, e.Nameless → P e)
    (hname : ReadsName read name)
    (hread : ∀ k n, m.EntryAt key k n → FailsOnly P (read n.merged))
    (hmismatch : ∀ k n s, m.EntryAt key k n → n.last? "name" = some (.string s) → k ≠ s →
      P (.nameMismatch k s)) : FailsOnly P (m.merged.keyed read name key) := by
  refine ((m.merged.object_nameless key).imp hP).bind fun entries' hsection => .mapM ?_
  obtain ⟨entries, hentries, rfl⟩ :=
    value?_merged_eq_object_iff.1 (object_eq_ok_iff.1 hsection)
  rintro ⟨k, v⟩ hf
  refine ((v.fieldsAt_nameless key).imp hP).bind fun n' hn' => ?_
  obtain rfl := fieldsAt_eq_ok_iff.1 hn'
  obtain ⟨n, hn, rfl⟩ := mem_merged_iff.1 hf
  have hentry : m.EntryAt key k n := ⟨entries, hentries, hn⟩
  refine (hread k n hentry).bind fun x hx => ?_
  split_ifs with hk
  · exact .ok x
  · exact .error (hmismatch k n (name x) hentry
      (value?_merged_eq_string_iff.1 (hname _ x hx)) (Ne.symm hk))

/-! ### Optional sections -/

theorem hold_of_optional (hname : ReadsName read name) {xs : List α}
    (h : m.merged.optional key (keyed read name) = .ok xs) :
    (m.last? key = none ∧ xs = []) ∨
      ∃ entries : Fields, m.last? key = some (.object entries) ∧ entries.Hold read name xs := by
  rcases optional_eq_ok_iff.1 h with ⟨hkey, rfl⟩ | ⟨-, h⟩
  · rw [value?_merged, Option.map_eq_none_iff] at hkey
    exact .inl ⟨hkey, rfl⟩
  · exact .inr (hold_of_keyed hname h)

theorem EntryAt.keyed_of_optional {k : String} {n : Fields} (hn : m.EntryAt key k n) {xs : List α}
    (h : m.merged.optional key (keyed read name) = .ok xs) :
    m.merged.keyed read name key = .ok xs := by
  obtain ⟨entries, hentries, -⟩ := hn
  rwa [optional_of_present (value?_merged_eq_object_iff.2 ⟨entries, hentries, rfl⟩)] at h

theorem optional_failsOnly {P : DocumentError → Prop}
    {read : Fields → String → Except DocumentError (List α)} (h : FailsOnly P (read m key)) :
    FailsOnly P (m.optional key read) := by
  unfold optional
  split
  · exact h
  · exact .ok []

end Keyed

end Fields

/-! ## Names that are read -/

theorem Entity.readsName : ReadsName Entity.ofFields Entity.name := fun _ _ h =>
  (Entity.ofFields_eq_ok_iff.1 h).1

theorem PackageHeader.readsName : ReadsName PackageHeader.ofFields PackageHeader.name :=
  fun _ _ h => (PackageHeader.ofFields_eq_ok_iff.1 h).1

theorem PackageBody.readsName : ReadsName PackageBody.ofFields PackageBody.name := fun _ _ h =>
  (PackageBody.ofFields_eq_ok_iff.1 h).1

/-! ## Documents -/

namespace Design

/-- An entry of one of the sections of a document, or a component of one of its headers. -/
inductive HasEntry (m : Fields) : String → Fields → Prop
  | unit {key k : String} {n : Fields} (hkey : key ∈ ["packageHeaders", "entities", "packages"])
      (h : m.EntryAt key k n) : HasEntry m k n
  | component {header k : String} {fields n : Fields}
      (hheader : m.EntryAt "packageHeaders" header fields)
      (h : fields.EntryAt "components" k n) : HasEntry m k n

/-- Why a document can be refused. -/
inductive Refusal (m : Fields) : DocumentError → Prop
  | nameless {e : DocumentError} (h : e.Nameless) : Refusal m e
  | misnamed {k s : String} {n : Fields} (h : HasEntry m k n)
      (hname : n.last? "name" = some (.string s)) (hne : k ≠ s) : Refusal m (.nameMismatch k s)

/-- The units of a design are what the sections of a document hold. -/
structure IsReadFrom (d : Design) (m : Fields) : Prop where
  entities : ∃ entries : Fields, m.last? "entities" = some (.object entries) ∧
    entries.Hold Entity.ofFields Entity.name d.entities
  headers : (m.last? "packageHeaders" = none ∧ d.headers = []) ∨
    ∃ entries : Fields, m.last? "packageHeaders" = some (.object entries) ∧
      entries.Hold PackageHeader.ofFields PackageHeader.name d.headers
  components : ∀ h ∈ d.headers, ∃ n components : Fields, m.EntryAt "packageHeaders" h.name n ∧
    n.last? "components" = some (.object components) ∧
      components.Hold Entity.ofFields Entity.name h.components
  bodies : (m.last? "packages" = none ∧ d.bodies = []) ∨
    ∃ entries : Fields, m.last? "packages" = some (.object entries) ∧
      entries.Hold PackageBody.ofFields PackageBody.name d.bodies

variable {m : Fields} {d : Design}

/-! ### Accepted documents -/

theorem isReadFrom_of_ofFields (h : ofFields m.merged = .ok d) : d.IsReadFrom m := by
  obtain ⟨-, hheaders, hentities, hbodies, -, -⟩ := ofFields_eq_ok_iff.1 h
  have hheld := Fields.hold_of_optional PackageHeader.readsName hheaders
  refine ⟨Fields.hold_of_keyed Entity.readsName hentities, hheld, fun h hh => ?_,
    Fields.hold_of_optional PackageBody.readsName hbodies⟩
  rcases hheld with ⟨-, hnone⟩ | ⟨entries, hsection, hheld⟩
  · rw [hnone] at hh
    cases hh
  · obtain ⟨n, hn, -, hread⟩ := hheld.entry h hh
    obtain ⟨-, hcomponents, -⟩ := PackageHeader.ofFields_eq_ok_iff.1 hread
    obtain ⟨components, hsection', hheld'⟩ :=
      Fields.hold_of_keyed Entity.readsName hcomponents
    exact ⟨n, components, ⟨entries, hsection, hn⟩, hsection', hheld'⟩

/-- In an accepted document, every entry declares its own key as its name. -/
theorem HasEntry.name_of_ofFields {k : String} {n : Fields} (hn : HasEntry m k n)
    (h : ofFields m.merged = .ok d) : n.last? "name" = some (.string k) := by
  obtain ⟨-, hheaders, hentities, hbodies, -, -⟩ := ofFields_eq_ok_iff.1 h
  cases hn with
  | unit hkey hn =>
      simp only [List.mem_cons, List.not_mem_nil, or_false] at hkey
      rcases hkey with rfl | rfl | rfl
      · obtain ⟨-, -, -, hname⟩ := Fields.name_of_keyed PackageHeader.readsName
          (hn.keyed_of_optional hheaders) hn
        exact hname
      · obtain ⟨-, -, -, hname⟩ := Fields.name_of_keyed Entity.readsName hentities hn
        exact hname
      · obtain ⟨-, -, -, hname⟩ := Fields.name_of_keyed PackageBody.readsName
          (hn.keyed_of_optional hbodies) hn
        exact hname
  | component hheader hn =>
      obtain ⟨header, -, hread, -⟩ := Fields.name_of_keyed PackageHeader.readsName
        (hheader.keyed_of_optional hheaders) hheader
      obtain ⟨-, hcomponents, -⟩ := PackageHeader.ofFields_eq_ok_iff.1 hread
      obtain ⟨-, -, -, hname⟩ := Fields.name_of_keyed Entity.readsName hcomponents hn
      exact hname

/-! ### Refused documents -/

theorem header_failsOnly {k : String} {n : Fields} (hn : m.EntryAt "packageHeaders" k n) :
    FailsOnly (Refusal m) (PackageHeader.ofFields n.merged) := by
  have hcomponents : FailsOnly (Refusal m)
      (n.merged.keyed Entity.ofFields Entity.name "components") :=
    Fields.keyed_failsOnly (fun _ => .nameless) Entity.readsName
      (fun _ c _ => (Entity.ofFields_nameless c.merged).imp fun _ => .nameless)
      fun _ _ _ hc => .misnamed (.component hn hc)
  refine ((n.merged.text_nameless "name").imp fun _ => .nameless).bind fun name _ => ?_
  refine hcomponents.bind fun components _ => ?_
  exact (n.merged.functions_nameless.imp fun _ => .nameless).bind fun functions _ => .ok _

/-- Nothing is refused because a name is taken. -/
theorem ofFields_failsOnly (m : Fields) : FailsOnly (Refusal m) (ofFields m.merged) := by
  have hheaders : FailsOnly (Refusal m)
      (m.merged.keyed PackageHeader.ofFields PackageHeader.name "packageHeaders") :=
    Fields.keyed_failsOnly (fun _ => .nameless) PackageHeader.readsName
      (fun _ _ hn => header_failsOnly hn) fun _ _ _ hn => .misnamed (.unit (by simp) hn)
  have hentities : FailsOnly (Refusal m)
      (m.merged.keyed Entity.ofFields Entity.name "entities") :=
    Fields.keyed_failsOnly (fun _ => .nameless) Entity.readsName
      (fun _ n _ => (Entity.ofFields_nameless n.merged).imp fun _ => .nameless)
      fun _ _ _ hn => .misnamed (.unit (by simp) hn)
  have hbodies : FailsOnly (Refusal m)
      (m.merged.keyed PackageBody.ofFields PackageBody.name "packages") :=
    Fields.keyed_failsOnly (fun _ => .nameless) PackageBody.readsName
      (fun _ n _ => (PackageBody.ofFields_nameless n.merged).imp fun _ => .nameless)
      fun _ _ _ hn => .misnamed (.unit (by simp) hn)
  have himports := (m.merged.array_nameless "imports").imp fun _ => Refusal.nameless (m := m)
  have harchitectures := (m.merged.list_nameless "architectures" fun n _ =>
    Architecture.ofFields_nameless n).imp fun _ => Refusal.nameless (m := m)
  refine (Fields.optional_failsOnly himports).bind fun imports _ => ?_
  refine (Fields.optional_failsOnly hheaders).bind fun headers _ => ?_
  refine hentities.bind fun entities _ => ?_
  refine (Fields.optional_failsOnly hbodies).bind fun bodies _ => ?_
  exact (Fields.optional_failsOnly harchitectures).bind fun architectures _ => .ok _

/-! ### Texts -/

/-- A text is refused because it is no object, or it is read as the object of its fields once
repeated keys are resolved. -/
theorem ofText_cases (text : String) :
    (∃ e : DocumentError, e.Nameless ∧ ofText text = .error e) ∨
      ∃ m : Fields, Json.verbatim? text = some (.object m) ∧ ofText text = ofFields m.merged := by
  have hread := Json.ofText?_eq_merged text
  cases hv : Json.verbatim? text with
  | none =>
      rw [hv] at hread
      exact .inl ⟨.malformed, trivial, ofText_of_malformed hread⟩
  | some v =>
      rw [hv] at hread
      cases v with
      | object m => exact .inr ⟨m, rfl, ofText_of_ofText? hread⟩
      | _ => exact .inl ⟨.unexpectedType "design" .object, trivial, by rw [ofText, hread]; rfl⟩

/-- No name is ever found to be taken while a text is read. In an accepted text, the sections hold
the units of the design, each under its own name; a text with an entry under another name than it
declares is refused, and if that is the reason, the entry is in the text. -/
theorem keyed_sections (text : String) :
    ofTextOneByOne text = ofText text ∧
      (∀ name, ofText text ≠ .error (.redefinition name)) ∧
      (∀ d, ofText text = .ok d →
        ∃ m, Json.verbatim? text = some (.object m) ∧ d.IsReadFrom m) ∧
      (∀ (m : Fields) (k s : String) (n : Fields), Json.verbatim? text = some (.object m) →
        HasEntry m k n → n.last? "name" = some (.string s) → k ≠ s → ∀ d, ofText text ≠ .ok d) ∧
      ∀ k s, ofText text = .error (.nameMismatch k s) → k ≠ s ∧
        ∃ m n : Fields, Json.verbatim? text = some (.object m) ∧ HasEntry m k n ∧
          n.last? "name" = some (.string s) := by
  refine ⟨ofTextOneByOne_eq text, ?_⟩
  rcases ofText_cases text with ⟨e, he, htext⟩ | ⟨m, hm, htext⟩
  · rw [htext]
    refine ⟨?_, nofun, fun _ _ _ _ _ _ _ _ => nofun, ?_⟩
    · rintro name ⟨⟩
      exact he.elim
    · rintro k s ⟨⟩
      exact he.elim
  · rw [htext, hm]
    have hfails := ofFields_failsOnly m
    refine ⟨fun name hname => ?_, fun d hd => ⟨m, rfl, isReadFrom_of_ofFields hd⟩, ?_, ?_⟩
    · cases hfails _ hname with
      | nameless h => exact h.elim
    · rintro _ k s n ⟨⟩ hn hs hne d hd
      -- if the document were accepted, the entry would declare its key
      have hk := hn.name_of_ofFields hd
      rw [hs] at hk
      cases hk
      exact hne rfl
    · intro k s hmismatch
      cases hfails _ hmismatch with
      | nameless h => exact h.elim
      | misnamed hn hs hne => exact ⟨hne, m, _, rfl, hn, hs⟩

/-- An entity without an interface under a key. -/
def bareEntity (key name : String) : String × Json :=
  (key, .object [("name", .string name), ("generics", .array []), ("ports", .array [])])

/-- A document that repeats the key of an entity. -/
def repeated : Fields :=
  [("entities", .object [("b", .null), bareEntity "a" "a", bareEntity "b" "b"])]

/-- A document with an entity under the name of another. -/
def misnamed : Fields := [("entities", .object [bareEntity "b" "a"])]

/-- The key that is repeated has its first place and its last value. -/
theorem repeated_keyed_sections :
    (∃ d, ofText (repeated.toText .compact) = .ok d ∧ d.entities.map Entity.name = ["b", "a"] ∧
      ∃ m, Json.verbatim? (repeated.toText .compact) = some (.object m) ∧ d.IsReadFrom m) ∧
    ofText (misnamed.toText .compact) = .error (.nameMismatch "b" "a") ∧
      ∃ m n : Fields, Json.verbatim? (misnamed.toText .compact) = some (.object m) ∧
        HasEntry m "b" n ∧ n.last? "name" = some (.string "a") := by
  constructor
  · have hnames : (ofText (repeated.toText .compact)).toOption.map (·.entities.map Entity.name) =
        some ["b", "a"] := by decide +kernel
    obtain ⟨-, -, hread, -⟩ := keyed_sections (repeated.toText .compact)
    cases hd : ofText (repeated.toText .compact) with
    | error e =>
        rw [hd] at hnames
        cases hnames
    | ok d =>
        rw [hd] at hnames
        exact ⟨d, rfl, Option.some.inj hnames, hread d hd⟩
  · have hblanks : ∀ c ∈ "".toList, JsonReader.isBlank c = true := nofun
    have hread := Json.ofText?_toText (v := .object misnamed) .compact (by decide) (by decide)
      hblanks
    rw [String.append_empty, if_pos (by decide)] at hread
    have hmismatch : ofText (misnamed.toText .compact) = .error (.nameMismatch "b" "a") := by
      rw [Fields.toText, ofText_of_ofText? hread]
      rfl
    obtain ⟨-, -, -, -, hmisnamed⟩ := keyed_sections (misnamed.toText .compact)
    exact ⟨hmismatch, (hmisnamed _ _ hmismatch).2⟩

end Design

end HdlInterface
