import HdlInterface.Proofs.Design.Document
import HdlInterface.Proofs.Interface.Rewriting

/-!
# Documents that are rewritten

What becomes of the document of a design that is read and written again: each object keeps what it
has, fields with a meaning first, but for interfaces, which lose other fields. It is equal to what
was read exactly if it has all sections and its interfaces are in written form
(`Design.rewriting`).
-/

namespace HdlInterface

/-! ## Optional sections -/

section

variable {α : Type} {R : Fields → Fields → Prop} {m : Fields} {key : String}
  {read : Fields → Except DocumentError α} {write : α → Except DocumentError Fields}
  {name : α → String} {xs : List α} {v : Json}

/-- A section that is absent counts as empty. -/
theorem rewritten_optional_keyed (hm : (Json.object m).WellFormed)
    (hR : ∀ m x n, (Json.object m).WellFormed → read m = .ok x → write x = .ok n → R m n)
    (hread : m.optional key (Fields.keyed read name) = .ok xs)
    (hwrite : Json.ofKeyed write name xs = .ok v) :
    ∃ entries entries', (m.value? key).getD (.object []) = .object entries ∧
      v = .object entries' ∧ List.Forall₂ (Fields.Entries R) entries entries' := by
  rcases Fields.optional_eq_ok_iff.1 hread with ⟨hnone, rfl⟩ | ⟨-, hread⟩
  · refine ⟨[], [], by simp [hnone], ?_, .nil⟩
    exact (Except.ok.inj hwrite).symm
  · obtain ⟨entries, entries', hentries, hv, h⟩ := rewritten_keyed hm hR hread hwrite
    exact ⟨entries, entries', by simp [hentries], hv, h⟩

theorem rewritten_optional_list (hm : (Json.object m).WellFormed)
    (hR : ∀ m x n, (Json.object m).WellFormed → read m = .ok x → write x = .ok n → R m n)
    (hread : m.optional key (Fields.list read) = .ok xs)
    (hwrite : Json.ofList write xs = .ok v) :
    ∃ items items', (m.value? key).getD (.array []) = .array items ∧
      v = .array items' ∧ List.Forall₂ (Json.Objects R) items items' := by
  rcases Fields.optional_eq_ok_iff.1 hread with ⟨hnone, rfl⟩ | ⟨-, hread⟩
  · refine ⟨[], [], by simp [hnone], ?_, .nil⟩
    exact (Except.ok.inj hwrite).symm
  · obtain ⟨items, items', hitems, hv, h⟩ := rewritten_list hm hR hread hwrite
    exact ⟨items, items', by simp [hitems], hv, h⟩

end

/-! ## Packages -/

namespace PackageHeader

inductive Rewritten (m : Fields) : Fields → Prop
  | intro {name : String} {components components' : Fields} {functions : Json}
      (hname : m.value? "name" = some (.string name))
      (hcomponents : m.value? "components" = some (.object components))
      (hcomponents' : List.Forall₂ (Fields.Entries Entity.Rewritten) components components')
      (hfunctions : m.value? "functions" = some functions) :
      Rewritten m ([("name", .string name), ("components", .object components'),
        ("functions", functions)] ++ m.without knownKeys)

/-- All components are in written form. -/
def Written (m : Fields) : Prop := m.EveryEntry Entity.Written "components"

theorem rewritten_of_ofFields (m : Fields) (h : PackageHeader) (n : Fields)
    (hm : (Json.object m).WellFormed) (hread : ofFields m = .ok h) (hwrite : h.toFields = .ok n) :
    Rewritten m n := by
  have hlossless := lossless_of_ofFields hm hread
  obtain ⟨hname, hcomponents, hfunctions, hextra⟩ := ofFields_eq_ok_iff.1 hread
  have hnodup : h.extra.keys.Nodup := hextra ▸ Fields.nodup_keys_without knownKeys hm.nodup_keys
  obtain ⟨v, hv, rfl⟩ := eq_append_of_toFields hlossless hnodup hwrite
  obtain ⟨components, components', hcomponents, rfl, h'⟩ :=
    rewritten_keyed hm Entity.rewritten_of_ofFields hcomponents hv
  rw [hextra]
  exact .intro hname hcomponents h' hfunctions

theorem same_iff (m n : Fields) (h : Rewritten m n) (hm : (Json.object m).WellFormed) :
    n.same m = true ↔ Written m := by
  obtain ⟨hname, hcomponents, hcomponents', hfunctions⟩ := h
  have hsame := same_entries_iff Entity.same_iff (hm.of_value? hcomponents) hcomponents'
  have hself := (hm.of_value? hfunctions)
  refine (Fields.same_append_without_iff rfl (by simp) hm).trans ?_
  rw [and_iff_right]
  · simp only [List.forall_mem_cons, List.not_mem_nil, false_implies, implies_true, and_true, hname,
      hcomponents, hfunctions, Option.some.injEq, forall_eq', Json.same_string, hsame, true_and,
      Json.same_refl _ hself]
    exact (everyEntry_iff hcomponents).symm
  · simp [Fields.mem_keys_of_value? hname, Fields.mem_keys_of_value? hcomponents,
      Fields.mem_keys_of_value? hfunctions]

end PackageHeader

namespace PackageBody

inductive Rewritten (m : Fields) : Fields → Prop
  | intro {name : String} {functions : Json} (hname : m.value? "name" = some (.string name))
      (hfunctions : m.value? "functions" = some functions) :
      Rewritten m ([("name", .string name), ("functions", functions)] ++ m.without knownKeys)

theorem rewritten_of_ofFields (m : Fields) (b : PackageBody) (n : Fields)
    (hm : (Json.object m).WellFormed) (hread : ofFields m = .ok b)
    (hwrite : Except.ok b.toFields = (.ok n : Except DocumentError Fields)) : Rewritten m n := by
  cases hwrite
  have hlossless := lossless_of_ofFields hread
  obtain ⟨hname, hfunctions, hextra⟩ := ofFields_eq_ok_iff.1 hread
  have hnodup : b.extra.keys.Nodup := hextra ▸ Fields.nodup_keys_without knownKeys hm.nodup_keys
  rw [toFields_eq_append hlossless hnodup, hextra]
  exact .intro hname hfunctions

theorem same_of_rewritten (m n : Fields) (h : Rewritten m n) (hm : (Json.object m).WellFormed) :
    n.same m = true ↔ True := by
  obtain ⟨hname, hfunctions⟩ := h
  have hself := Json.same_refl _ (hm.of_value? hfunctions)
  refine (Fields.same_append_without_iff rfl (by simp) hm).trans ?_
  simp [hname, hfunctions, Json.same_string, hself, Fields.mem_keys_of_value? hname,
    Fields.mem_keys_of_value? hfunctions]

end PackageBody

/-! ## Architectures -/

namespace Instance

inductive Rewritten (m : Fields) : Fields → Prop
  | intro {name : String} {reference : Json} (hname : m.value? "name" = some (.string name))
      (hreference : m.value? "entityName" = some reference) :
      Rewritten m ([("name", .string name), ("entityName", reference)] ++ m.without knownKeys)

theorem rewritten_of_ofFields (m : Fields) (i : Instance) (n : Fields)
    (hm : (Json.object m).WellFormed) (hread : ofFields m = .ok i)
    (hwrite : Except.ok i.toFields = (.ok n : Except DocumentError Fields)) : Rewritten m n := by
  cases hwrite
  have hlossless := lossless_of_ofFields hread
  obtain ⟨hname, hreference, hextra⟩ := ofFields_eq_ok_iff.1 hread
  have hnodup : i.extra.keys.Nodup := hextra ▸ Fields.nodup_keys_without knownKeys hm.nodup_keys
  rw [toFields_eq_append hlossless hnodup, hextra]
  exact .intro hname hreference

theorem same_of_rewritten (m n : Fields) (h : Rewritten m n) (hm : (Json.object m).WellFormed) :
    n.same m = true ↔ True := by
  obtain ⟨hname, hreference⟩ := h
  have hself := Json.same_refl _ (hm.of_value? hreference)
  refine (Fields.same_append_without_iff rfl (by simp) hm).trans ?_
  simp [hname, hreference, Json.same_string, hself, Fields.mem_keys_of_value? hname,
    Fields.mem_keys_of_value? hreference]

end Instance

namespace Architecture

inductive Rewritten (m : Fields) : Fields → Prop
  | intro {name entity : String} {instances instances' : List Json}
      (hname : m.value? "name" = some (.string name))
      (hentity : m.value? "entityName" = some (.string entity))
      (hinstances : m.value? "componentInstances" = some (.array instances))
      (hinstances' : List.Forall₂ (Json.Objects Instance.Rewritten) instances instances') :
      Rewritten m ([("name", .string name), ("entityName", .string entity),
        ("componentInstances", .array instances')] ++ m.without knownKeys)

theorem rewritten_of_ofFields (m : Fields) (a : Architecture) (n : Fields)
    (hm : (Json.object m).WellFormed) (hread : ofFields m = .ok a)
    (hwrite : Except.ok a.toFields = (.ok n : Except DocumentError Fields)) : Rewritten m n := by
  cases hwrite
  have hlossless := lossless_of_ofFields hread
  obtain ⟨hname, hentity, hinstances, hextra⟩ := ofFields_eq_ok_iff.1 hread
  have hnodup : a.extra.keys.Nodup := hextra ▸ Fields.nodup_keys_without knownKeys hm.nodup_keys
  obtain ⟨instances, instances', hinstances, h, hinstances'⟩ :=
    rewritten_list hm Instance.rewritten_of_ofFields hinstances (ofList_plain a.instances)
  rw [toFields_eq_append hlossless hnodup, hextra, h]
  exact .intro hname hentity hinstances hinstances'

theorem same_of_rewritten (m n : Fields) (h : Rewritten m n) (hm : (Json.object m).WellFormed) :
    n.same m = true ↔ True := by
  obtain ⟨hname, hentity, hinstances, hinstances'⟩ := h
  have hitems := (Json.all_array.1 (hm.of_value? hinstances)).2
  have hself := same_items_iff Instance.same_of_rewritten hitems hinstances'
  refine (Fields.same_append_without_iff rfl (by simp) hm).trans ?_
  simp [hname, hentity, hinstances, Json.same_string, hself,
    Fields.mem_keys_of_value? hname, Fields.mem_keys_of_value? hentity,
    Fields.mem_keys_of_value? hinstances]

end Architecture

/-! ## Designs -/

namespace Design

/-- The sections come first, and the other fields follow as they were. -/
inductive Rewritten (m : Fields) : Fields → Prop
  | intro {imports architectures architectures' : List Json}
      {headers headers' entities entities' bodies bodies' : Fields}
      (himports : (m.value? "imports").getD (.array []) = .array imports)
      (hheaders : (m.value? "packageHeaders").getD (.object []) = .object headers)
      (hheaders' : List.Forall₂ (Fields.Entries PackageHeader.Rewritten) headers headers')
      (hentities : m.value? "entities" = some (.object entities))
      (hentities' : List.Forall₂ (Fields.Entries Entity.Rewritten) entities entities')
      (hbodies : (m.value? "packages").getD (.object []) = .object bodies)
      (hbodies' : List.Forall₂ (Fields.Entries PackageBody.Rewritten) bodies bodies')
      (harchitectures : (m.value? "architectures").getD (.array []) = .array architectures)
      (harchitectures' :
        List.Forall₂ (Json.Objects Architecture.Rewritten) architectures architectures') :
      Rewritten m ([("imports", .array imports), ("packageHeaders", .object headers'),
        ("entities", .object entities'), ("packages", .object bodies'),
        ("architectures", .array architectures')] ++ m.without sections)

/-- All sections are there, with entities and components in written form. -/
structure Written (m : Fields) : Prop where
  sections : ∀ key ∈ sections, key ∈ m.keys
  headers : m.EveryEntry PackageHeader.Written "packageHeaders"
  entities : m.EveryEntry Entity.Written "entities"

theorem rewritten_of_ofFields {m w : Fields} {d : Design} (hm : (Json.object m).WellFormed)
    (hread : ofFields m = .ok d) (hw : d.toFields = .ok w) : Rewritten m w := by
  have hlossless := lossless_of_ofFields hm hread
  have hwellFormed := wellFormed_of_ofFields hm hread
  obtain ⟨himports, hheaders, hentities, hbodies, harchitectures, hextra⟩ :=
    ofFields_eq_ok_iff.1 hread
  obtain ⟨vh, ve, vb, hvh, hve, hvb, rfl⟩ :=
    eq_append_of_toFields hwellFormed.extra hlossless.extra hw
  obtain ⟨headers, headers', hheaders, rfl, hheaders'⟩ :=
    rewritten_optional_keyed hm PackageHeader.rewritten_of_ofFields hheaders hvh
  obtain ⟨entities, entities', hentities, rfl, hentities'⟩ :=
    rewritten_keyed hm Entity.rewritten_of_ofFields hentities hve
  obtain ⟨bodies, bodies', hbodies, rfl, hbodies'⟩ :=
    rewritten_optional_keyed hm PackageBody.rewritten_of_ofFields hbodies hvb
  obtain ⟨architectures, architectures', harchitectures, h, harchitectures'⟩ :=
    rewritten_optional_list hm Architecture.rewritten_of_ofFields harchitectures
      (ofList_plain d.architectures)
  rw [h, hextra]
  refine .intro ?_ hheaders hheaders' hentities hentities' hbodies hbodies' harchitectures
    harchitectures'
  rcases Fields.optional_eq_ok_iff.1 himports with ⟨hnone, hnil⟩ | ⟨-, himports⟩
  · rw [hnone, hnil]
    rfl
  · rw [Fields.array_eq_ok_iff.1 himports]
    rfl

theorem same_iff {m w : Fields} (h : Rewritten m w) (hm : (Json.object m).WellFormed) :
    w.same m = true ↔ Written m := by
  obtain ⟨himports, hheaders, hheaders', hentities, hentities', hbodies, hbodies',
    harchitectures, harchitectures'⟩ := h
  have hwritten : Written m ↔ (∀ key ∈ sections, key ∈ m.keys) ∧
      m.EveryEntry PackageHeader.Written "packageHeaders" ∧
      m.EveryEntry Entity.Written "entities" :=
    ⟨fun ⟨hs, hh, he⟩ => ⟨hs, hh, he⟩, fun ⟨hs, hh, he⟩ => ⟨hs, hh, he⟩⟩
  rw [hwritten]
  refine (Fields.same_append_without_iff rfl (by simp) hm).trans (and_congr_right fun hkeys => ?_)
  -- no section is absent, so that none of them is read from its default
  have hvalue : ∀ {key : String} {default v : Json}, key ∈ sections →
      (m.value? key).getD default = v → m.value? key = some v := by
    rintro key default v hkey rfl
    obtain ⟨u, hu⟩ := Fields.exists_value?_of_mem_keys (hkeys key hkey)
    simp [hu]
  have himports := hvalue (by decide) himports
  have hheaders := hvalue (by decide) hheaders
  have hbodies := hvalue (by decide) hbodies
  have harchitectures := hvalue (by decide) harchitectures
  have hself := Json.same_refl _ (hm.of_value? himports)
  have hsameHeaders :=
    same_entries_iff PackageHeader.same_iff (hm.of_value? hheaders) hheaders'
  have hsameEntities := same_entries_iff Entity.same_iff (hm.of_value? hentities) hentities'
  have hsameBodies :=
    same_entries_iff PackageBody.same_of_rewritten (hm.of_value? hbodies) hbodies'
  have hsameArchitectures := same_items_iff Architecture.same_of_rewritten
    (Json.all_array.1 (hm.of_value? harchitectures)).2 harchitectures'
  rw [everyEntry_iff hheaders, everyEntry_iff hentities]
  simp [himports, hheaders, hentities, hbodies, harchitectures, hself, hsameHeaders,
    hsameEntities, hsameBodies, hsameArchitectures]

/-- What is read is written again, and equal to what was read exactly if that is in written
form. -/
theorem rewriting {m : Fields} {d : Design} (hm : (Json.object m).WellFormed)
    (hread : ofFields m = .ok d) :
    ∃ w, d.toFields = .ok w ∧ Rewritten m w ∧ (w.same m = true ↔ Written m) := by
  obtain ⟨w, hw⟩ := exists_toFields_of_lossless (lossless_of_ofFields hm hread)
  have hrewritten := rewritten_of_ofFields hm hread hw
  exact ⟨w, hw, hrewritten, same_iff hrewritten hm⟩

/-- A document with all sections, in an order of its own, and a port with this direction. -/
def gateFields (direction : String) : Fields :=
  let port (direction name : String) : Json := .object
    [("direction", .string direction), ("variable", .object
      [("value", .null), ("type", .object [("literal", .object
        [("value", .string "ΟΔΟΣ"), ("type", .string "ID")])]), ("name", .string name)])]
  [("note", .null), ("entities", .object [("Gate", .object
      [("name", .string "Gate"), ("ports", .array [port "OUT" "Q", port direction "CLK"]),
        ("generics", .array [])])]),
    ("architectures", .array []), ("packages", .object []), ("packageHeaders", .object []),
    ("imports", .array [.null])]

def gate : Design :=
  { Design.empty with
    imports := [.null]
    entities := [⟨"Gate", [],
      [.of .output ⟨"Q", .id "ΟΔΟΣ", none⟩, .of .input ⟨"CLK", .id "ΟΔΟΣ", none⟩]⟩]
    extra := [("note", .null)] }

theorem ofFields_gateFields {direction : String} (h : Direction.ofText direction = .ok .input) :
    ofFields (gateFields direction) = .ok gate := by
  have hport : ∀ {s : String} (d : Direction) (name : String), Direction.ofText s = .ok d →
      Port.read [("direction", .string s), ("variable", .object
        [("value", .null), ("type", .object [("literal", .object
          [("value", .string "ΟΔΟΣ"), ("type", .string "ID")])]), ("name", .string name)])] =
        .ok (.of d ⟨name, .id "ΟΔΟΣ", none⟩) := by
    intro s d name hd
    refine Port.read_eq_ok_iff.2 ⟨s, d, _, _, rfl, hd, rfl, Variable.ofFields_eq_ok_iff.2 ?_, rfl⟩
    exact ⟨rfl, ⟨_, rfl, _, rfl, rfl, .inr ⟨_, rfl, rfl⟩⟩, .inl ⟨rfl, rfl⟩⟩
  refine ofFields_eq_ok_iff.2 ⟨rfl, rfl, keyed_eq_ok_iff.2 ⟨_, rfl, .cons ⟨_, rfl, ?_⟩ .nil⟩,
    rfl, rfl, rfl⟩
  refine Entity.ofFields_eq_ok_iff.2 ⟨rfl, rfl, list_eq_ok_iff.2 ⟨_, rfl, ?_⟩⟩
  exact .cons ⟨_, rfl, hport .output "Q" rfl⟩ (.cons ⟨_, rfl, hport .input "CLK" h⟩ .nil)

/-- A direction in small letters is all that keeps a document from being in written form. -/
theorem gateFields_rewriting : Written (gateFields "IN") ∧ ¬Written (gateFields "in") := by
  have hin : Direction.ofText "IN" = .ok .input := rfl
  have hsmall : Direction.ofText "in" = .ok .input := rfl
  obtain ⟨w, hw, -, hsame⟩ := rewriting (by decide) (ofFields_gateFields hin)
  obtain ⟨w', hw', -, hsame'⟩ := rewriting (by decide) (ofFields_gateFields hsmall)
  cases hw
  cases hw'
  exact ⟨hsame.1 (by decide), fun h => absurd (hsame'.2 h) (by decide)⟩

end Design

end HdlInterface
