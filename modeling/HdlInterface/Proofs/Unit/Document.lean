import HdlInterface.Proofs.Interface.Document
import HdlInterface.Unit.Document

/-!
# Design units as documents

A unit is lossless if its document holds all of it: every port is complete, no two components of a
package share a name, and no field that is kept as it is bears a key with a meaning. Lossless units
are read back as they were (`PackageHeader.ofFields_of_toFields` and its like), and what is read
from an object without repeated keys is lossless.

The raw parts of a unit are the values that are kept as they are. A property of values that holds
at every depth of them holds at every depth of the document, and the other way round.
-/

namespace HdlInterface

/-! ## Functions -/

theorem mapM_fieldsAt_eq_ok_iff {items : List Json} {functions : List Fields} {key : String} :
    items.mapM (·.fieldsAt key) = .ok functions ↔ items = functions.map .object := by
  simp only [mapM_eq_ok_iff, Fields.fieldsAt_eq_ok_iff]
  constructor
  · intro h
    simpa using map_eq_map_of_forall₂ (f := id) h fun _ _ hv => hv
  · rintro rfl
    exact List.forall₂_map_left_iff.2 (List.forall₂_same.2 fun _ _ => rfl)

theorem Fields.functions_eq_ok_iff {m : Fields} {functions : List Fields} :
    m.functions = .ok functions ↔ m.value? "functions" = some (.ofFunctions functions) := by
  simp only [Fields.functions, bind_eq_ok_iff, array_eq_ok_iff, mapM_fieldsAt_eq_ok_iff]
  constructor
  · rintro ⟨_, h, rfl⟩
    exact h
  · exact fun h => ⟨_, h, rfl⟩

theorem Json.all_ofFunctions {p : Json → Bool} {functions : List Fields} :
    (Json.ofFunctions functions).all p ↔ p (.ofFunctions functions) ∧
      ∀ m ∈ functions, (Json.object m).all p := by
  simp [Json.ofFunctions, Json.all_array]

/-! ## Package headers -/

namespace PackageHeader

structure Lossless (h : PackageHeader) : Prop where
  complete : ∀ c ∈ h.components, c.Complete
  names : (h.components.map Entity.name).Nodup
  extra : h.extra.Avoids knownKeys

instance (h : PackageHeader) : Decidable h.Lossless :=
  decidable_of_iff ((∀ c ∈ h.components, c.Complete) ∧ (h.components.map Entity.name).Nodup ∧
    h.extra.Avoids knownKeys) ⟨fun ⟨hc, hn, he⟩ => ⟨hc, hn, he⟩, fun ⟨hc, hn, he⟩ => ⟨hc, hn, he⟩⟩

/-- The values that are kept as they are. -/
def raw (h : PackageHeader) : List Json := .object h.extra :: h.functions.map .object

theorem toFields_eq_ok_iff {h : PackageHeader} {w : Fields} :
    h.toFields = .ok w ↔ ∃ components,
      Json.ofKeyed Entity.toFields Entity.name h.components = .ok components ∧
      w = Fields.assignAll [("name", .string h.name), ("components", components),
        ("functions", .ofFunctions h.functions)] h.extra := by
  simp only [toFields, bind_eq_ok_iff, pure_eq_ok_iff, @eq_comm _ w]

theorem ofFields_eq_ok_iff {m : Fields} {h : PackageHeader} :
    ofFields m = .ok h ↔ m.value? "name" = some (.string h.name) ∧
      m.keyed Entity.ofFields Entity.name "components" = .ok h.components ∧
      m.value? "functions" = some (.ofFunctions h.functions) ∧ h.extra = m.without knownKeys := by
  obtain ⟨name, components, functions, extra⟩ := h
  simp only [ofFields, bind_eq_ok_iff, pure_eq_ok_iff, Fields.text_eq_ok_iff,
    Fields.functions_eq_ok_iff]
  constructor
  · rintro ⟨name, hname, components, hcomponents, functions, hfunctions, ⟨⟩⟩
    exact ⟨hname, hcomponents, hfunctions, rfl⟩
  · rintro ⟨hname, hcomponents, hfunctions, rfl⟩
    exact ⟨name, hname, components, hcomponents, functions, hfunctions, rfl⟩

theorem exists_toFields_iff {h : PackageHeader} :
    (∃ w, h.toFields = .ok w) ↔ ∀ c ∈ h.components, c.Complete := by
  simp only [← Entity.exists_toFields_iff, ← exists_ofKeyed_iff Entity.name,
    toFields_eq_ok_iff]
  constructor
  · rintro ⟨w, components, hcomponents, -⟩
    exact ⟨components, hcomponents⟩
  · rintro ⟨components, hcomponents⟩
    exact ⟨_, components, hcomponents, rfl⟩

/-- The fields with a meaning come first, then the others. -/
theorem eq_append_of_toFields {h : PackageHeader} {w : Fields} (hh : h.Lossless)
    (hextra : h.extra.keys.Nodup) (hw : h.toFields = .ok w) : ∃ components,
      Json.ofKeyed Entity.toFields Entity.name h.components = .ok components ∧
      w = [("name", .string h.name), ("components", components),
        ("functions", .ofFunctions h.functions)] ++ h.extra := by
  obtain ⟨components, hcomponents, rfl⟩ := toFields_eq_ok_iff.1 hw
  exact ⟨components, hcomponents, Fields.assignAll_of_avoids rfl hextra hh.extra⟩

theorem ofFields_of_toFields {h : PackageHeader} {w : Fields} (hh : h.Lossless)
    (hextra : h.extra.keys.Nodup) (hw : h.toFields = .ok w) : ofFields w = .ok h := by
  obtain ⟨components, hcomponents, rfl⟩ := eq_append_of_toFields hh hextra hw
  refine ofFields_eq_ok_iff.2
    ⟨rfl, ?_, rfl, (Fields.without_append_of_avoids rfl hh.extra).symm⟩
  exact keyed_of_ofKeyed hh.names (fun _ _ _ hn => Entity.ofFields_of_toFields hn) hcomponents rfl

theorem lossless_of_ofFields {m : Fields} {h : PackageHeader} (hm : (Json.object m).WellFormed)
    (hread : ofFields m = .ok h) : h.Lossless := by
  obtain ⟨-, hcomponents, -, hextra⟩ := ofFields_eq_ok_iff.1 hread
  refine ⟨fun c hc => ?_, ?_, hextra ▸ Fields.avoids_without m knownKeys⟩
  · obtain ⟨-, n, -, -, hn⟩ := exists_of_mem_keyed hcomponents hc
    exact Entity.complete_of_ofFields hn
  · exact nodup_names_of_keyed hm hcomponents

theorem all_of_toFields {p : Json → Bool} (hp : Json.Lenient p) {h : PackageHeader} {w : Fields}
    (hraw : ∀ v ∈ h.raw, v.all p) (hw : h.toFields = .ok w) : (Json.object w).all p := by
  obtain ⟨components, hcomponents, rfl⟩ := toFields_eq_ok_iff.1 hw
  have hcomponents := all_ofKeyed hp hcomponents fun _ _ _ hn => Entity.all_of_toFields hp hn
  rw [raw, List.forall_mem_cons, List.forall_mem_map] at hraw
  have hfunctions := Json.all_ofFunctions.2 ⟨hp.plain _ rfl rfl, hraw.2⟩
  refine hp.object_assignAll (by simp) ?_ (Json.all_object.1 hraw.1).2
  simp [hp.string, hcomponents, hfunctions]

theorem all_raw_of_ofFields {p : Json → Bool} (hp : Json.Lenient p) {m : Fields}
    {h : PackageHeader} (hm : (Json.object m).all p) (hread : ofFields m = .ok h) :
    ∀ v ∈ h.raw, v.all p := by
  obtain ⟨-, -, hfunctions, hextra⟩ := ofFields_eq_ok_iff.1 hread
  rw [raw, List.forall_mem_cons, List.forall_mem_map, hextra]
  exact ⟨hp.object_without knownKeys hm,
    (Json.all_ofFunctions.1 (Json.all_of_value? hm hfunctions)).2⟩

end PackageHeader

/-! ## Package bodies -/

namespace PackageBody

structure Lossless (b : PackageBody) : Prop where
  extra : b.extra.Avoids knownKeys

instance (b : PackageBody) : Decidable b.Lossless :=
  decidable_of_iff (b.extra.Avoids knownKeys) ⟨fun h => ⟨h⟩, fun ⟨h⟩ => h⟩

def raw (b : PackageBody) : List Json := .object b.extra :: b.functions.map .object

theorem ofFields_eq_ok_iff {m : Fields} {b : PackageBody} :
    ofFields m = .ok b ↔ m.value? "name" = some (.string b.name) ∧
      m.value? "functions" = some (.ofFunctions b.functions) ∧ b.extra = m.without knownKeys := by
  obtain ⟨name, functions, extra⟩ := b
  simp only [ofFields, bind_eq_ok_iff, pure_eq_ok_iff, Fields.text_eq_ok_iff,
    Fields.functions_eq_ok_iff]
  constructor
  · rintro ⟨name, hname, functions, hfunctions, ⟨⟩⟩
    exact ⟨hname, hfunctions, rfl⟩
  · rintro ⟨hname, hfunctions, rfl⟩
    exact ⟨name, hname, functions, hfunctions, rfl⟩

theorem toFields_eq_append {b : PackageBody} (hb : b.Lossless) (hextra : b.extra.keys.Nodup) :
    b.toFields = [("name", .string b.name), ("functions", .ofFunctions b.functions)] ++ b.extra :=
  Fields.assignAll_of_avoids rfl hextra hb.extra

theorem ofFields_toFields {b : PackageBody} (hb : b.Lossless) (hextra : b.extra.keys.Nodup) :
    ofFields b.toFields = .ok b := by
  rw [toFields_eq_append hb hextra]
  exact ofFields_eq_ok_iff.2 ⟨rfl, rfl, (Fields.without_append_of_avoids rfl hb.extra).symm⟩

theorem lossless_of_ofFields {m : Fields} {b : PackageBody} (hread : ofFields m = .ok b) :
    b.Lossless := by
  obtain ⟨-, -, hextra⟩ := ofFields_eq_ok_iff.1 hread
  exact ⟨hextra ▸ Fields.avoids_without m knownKeys⟩

theorem all_toFields {p : Json → Bool} (hp : Json.Lenient p) {b : PackageBody}
    (hraw : ∀ v ∈ b.raw, v.all p) : (Json.object b.toFields).all p := by
  rw [raw, List.forall_mem_cons, List.forall_mem_map] at hraw
  have hfunctions := Json.all_ofFunctions.2 ⟨hp.plain _ rfl rfl, hraw.2⟩
  refine hp.object_assignAll (by simp) ?_ (Json.all_object.1 hraw.1).2
  simp [hp.string, hfunctions]

theorem all_raw_of_ofFields {p : Json → Bool} (hp : Json.Lenient p) {m : Fields} {b : PackageBody}
    (hm : (Json.object m).all p) (hread : ofFields m = .ok b) : ∀ v ∈ b.raw, v.all p := by
  obtain ⟨-, hfunctions, hextra⟩ := ofFields_eq_ok_iff.1 hread
  rw [raw, List.forall_mem_cons, List.forall_mem_map, hextra]
  exact ⟨hp.object_without knownKeys hm,
    (Json.all_ofFunctions.1 (Json.all_of_value? hm hfunctions)).2⟩

end PackageBody

/-! ## Instances -/

namespace Instance

structure Lossless (i : Instance) : Prop where
  extra : i.extra.Avoids knownKeys

instance (i : Instance) : Decidable i.Lossless :=
  decidable_of_iff (i.extra.Avoids knownKeys) ⟨fun h => ⟨h⟩, fun ⟨h⟩ => h⟩

def raw (i : Instance) : List Json := [i.reference, .object i.extra]

theorem ofFields_eq_ok_iff {m : Fields} {i : Instance} :
    ofFields m = .ok i ↔ m.value? "name" = some (.string i.name) ∧
      m.value? "entityName" = some i.reference ∧ i.extra = m.without knownKeys := by
  obtain ⟨name, reference, extra⟩ := i
  simp only [ofFields, bind_eq_ok_iff, pure_eq_ok_iff, Fields.text_eq_ok_iff,
    Fields.require_eq_ok_iff]
  constructor
  · rintro ⟨name, hname, reference, hreference, ⟨⟩⟩
    exact ⟨hname, hreference, rfl⟩
  · rintro ⟨hname, hreference, rfl⟩
    exact ⟨name, hname, reference, hreference, rfl⟩

theorem toFields_eq_append {i : Instance} (hi : i.Lossless) (hextra : i.extra.keys.Nodup) :
    i.toFields = [("name", .string i.name), ("entityName", i.reference)] ++ i.extra :=
  Fields.assignAll_of_avoids rfl hextra hi.extra

theorem ofFields_toFields {i : Instance} (hi : i.Lossless) (hextra : i.extra.keys.Nodup) :
    ofFields i.toFields = .ok i := by
  rw [toFields_eq_append hi hextra]
  exact ofFields_eq_ok_iff.2 ⟨rfl, rfl, (Fields.without_append_of_avoids rfl hi.extra).symm⟩

theorem lossless_of_ofFields {m : Fields} {i : Instance} (hread : ofFields m = .ok i) :
    i.Lossless := by
  obtain ⟨-, -, hextra⟩ := ofFields_eq_ok_iff.1 hread
  exact ⟨hextra ▸ Fields.avoids_without m knownKeys⟩

theorem all_toFields {p : Json → Bool} (hp : Json.Lenient p) {i : Instance}
    (hraw : ∀ v ∈ i.raw, v.all p) : (Json.object i.toFields).all p := by
  rw [raw, List.forall_mem_cons, List.forall_mem_singleton] at hraw
  refine hp.object_assignAll (by simp) ?_ (Json.all_object.1 hraw.2).2
  simp [hp.string, hraw.1]

theorem all_raw_of_ofFields {p : Json → Bool} (hp : Json.Lenient p) {m : Fields} {i : Instance}
    (hm : (Json.object m).all p) (hread : ofFields m = .ok i) : ∀ v ∈ i.raw, v.all p := by
  obtain ⟨-, hreference, hextra⟩ := ofFields_eq_ok_iff.1 hread
  rw [raw, List.forall_mem_cons, List.forall_mem_singleton, hextra]
  exact ⟨Json.all_of_value? hm hreference, hp.object_without knownKeys hm⟩

end Instance

/-! ## Architectures -/

namespace Architecture

structure Lossless (a : Architecture) : Prop where
  instances : ∀ i ∈ a.instances, i.Lossless
  extra : a.extra.Avoids knownKeys

instance (a : Architecture) : Decidable a.Lossless :=
  decidable_of_iff ((∀ i ∈ a.instances, i.Lossless) ∧ a.extra.Avoids knownKeys)
    ⟨fun ⟨hi, he⟩ => ⟨hi, he⟩, fun ⟨hi, he⟩ => ⟨hi, he⟩⟩

def raw (a : Architecture) : List Json := .object a.extra :: a.instances.flatMap Instance.raw

theorem ofFields_eq_ok_iff {m : Fields} {a : Architecture} :
    ofFields m = .ok a ↔ m.value? "name" = some (.string a.name) ∧
      m.value? "entityName" = some (.string a.entity) ∧
      m.list Instance.ofFields "componentInstances" = .ok a.instances ∧
      a.extra = m.without knownKeys := by
  obtain ⟨name, entity, instances, extra⟩ := a
  simp only [ofFields, bind_eq_ok_iff, pure_eq_ok_iff, Fields.text_eq_ok_iff]
  constructor
  · rintro ⟨name, hname, entity, hentity, instances, hinstances, ⟨⟩⟩
    exact ⟨hname, hentity, hinstances, rfl⟩
  · rintro ⟨hname, hentity, hinstances, rfl⟩
    exact ⟨name, hname, entity, hentity, instances, hinstances, rfl⟩

theorem toFields_eq_append {a : Architecture} (ha : a.Lossless) (hextra : a.extra.keys.Nodup) :
    a.toFields = [("name", .string a.name), ("entityName", .string a.entity),
      ("componentInstances", .array (a.instances.map fun i => .object i.toFields))] ++ a.extra :=
  Fields.assignAll_of_avoids rfl hextra ha.extra

theorem ofFields_toFields {a : Architecture} (ha : a.Lossless) (hextra : a.extra.keys.Nodup)
    (hinstances : ∀ i ∈ a.instances, i.extra.keys.Nodup) : ofFields a.toFields = .ok a := by
  rw [toFields_eq_append ha hextra]
  refine ofFields_eq_ok_iff.2 ⟨rfl, rfl, ?_, (Fields.without_append_of_avoids rfl ha.extra).symm⟩
  exact list_of_plain (fun i hi => Instance.ofFields_toFields (ha.instances i hi)
    (hinstances i hi)) rfl

theorem lossless_of_ofFields {m : Fields} {a : Architecture} (hread : ofFields m = .ok a) :
    a.Lossless := by
  obtain ⟨-, -, hinstances, hextra⟩ := ofFields_eq_ok_iff.1 hread
  refine ⟨fun i hi => ?_, hextra ▸ Fields.avoids_without m knownKeys⟩
  obtain ⟨-, n, -, -, hn⟩ := exists_of_mem_list hinstances hi
  exact Instance.lossless_of_ofFields hn

theorem all_toFields {p : Json → Bool} (hp : Json.Lenient p) {a : Architecture}
    (hraw : ∀ v ∈ a.raw, v.all p) : (Json.object a.toFields).all p := by
  rw [raw, List.forall_mem_cons, List.forall_mem_flatMap] at hraw
  have hinstances := all_ofList hp (ofList_plain a.instances) fun i hi n hn =>
    Except.ok.inj hn ▸ Instance.all_toFields hp (hraw.2 i hi)
  refine hp.object_assignAll (by simp) ?_ (Json.all_object.1 hraw.1).2
  simp [hp.string, hinstances]

theorem all_raw_of_ofFields {p : Json → Bool} (hp : Json.Lenient p) {m : Fields}
    {a : Architecture} (hm : (Json.object m).all p) (hread : ofFields m = .ok a) :
    ∀ v ∈ a.raw, v.all p := by
  obtain ⟨-, -, hinstances, hextra⟩ := ofFields_eq_ok_iff.1 hread
  rw [raw, List.forall_mem_cons, List.forall_mem_flatMap, hextra]
  refine ⟨hp.object_without knownKeys hm, fun i hi => ?_⟩
  obtain ⟨n, hn, hread⟩ := all_of_mem_list hm hinstances hi
  exact Instance.all_raw_of_ofFields hp hn hread

end Architecture

end HdlInterface
