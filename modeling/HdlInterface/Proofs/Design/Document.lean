import HdlInterface.Design.Document
import HdlInterface.Proofs.Unit.Document

/-!
# Designs as documents

A design is lossless if its units are and if no field that is kept as it is bears the key of a
section. Its document exists exactly if all ports are complete (`exists_toFields_iff`). With
different names for units of one kind, it is read back as the design it was
(`ofFields_of_toFields`); and what is read from an object without repeated keys is such a design
(`lossless_of_ofFields`, `uniqueNames_of_ofFields`).
-/

namespace HdlInterface

/-! ## Optional sections -/

theorem Fields.optional_eq_ok_iff {α : Type} {m : Fields} {key : String}
    {read : Fields → String → Except DocumentError (List α)} {xs : List α} :
    m.optional key read = .ok xs ↔
      (m.value? key = none ∧ xs = []) ∨ (m.value? key ≠ none ∧ read m key = .ok xs) := by
  unfold optional
  split
  · next v h => simp [h]
  · next h => simp [h, eq_comm]

/-- What is found in an optional section is found there. -/
theorem Fields.read_of_mem_optional {α : Type} {m : Fields} {key : String}
    {read : Fields → String → Except DocumentError (List α)} {xs : List α} {x : α}
    (h : m.optional key read = .ok xs) (hx : x ∈ xs) : read m key = .ok xs := by
  rcases optional_eq_ok_iff.1 h with ⟨-, rfl⟩ | ⟨-, h⟩
  · cases hx
  · exact h

theorem Fields.optional_of_present {α : Type} {m : Fields} {key : String} {v : Json}
    {read : Fields → String → Except DocumentError (List α)} (hv : m.value? key = some v) :
    m.optional key read = read m key := by
  unfold optional
  rw [hv]

namespace Design

/-! ## Raw parts -/

/-- The values that are kept as they are. -/
def raw (d : Design) : List Json :=
  .object d.extra :: (d.imports ++ d.headers.flatMap PackageHeader.raw ++
    d.bodies.flatMap PackageBody.raw ++ d.architectures.flatMap Architecture.raw)

/-- No object that is kept repeats a key. -/
def WellFormed (d : Design) : Prop := ∀ v ∈ d.raw, v.WellFormed

/-- Every number that is kept is an integer. -/
def Integral (d : Design) : Prop := ∀ v ∈ d.raw, v.Integral

instance (d : Design) : Decidable d.WellFormed := inferInstanceAs (Decidable (∀ v ∈ d.raw, _))

instance (d : Design) : Decidable d.Integral := inferInstanceAs (Decidable (∀ v ∈ d.raw, _))

theorem forall_raw_iff {d : Design} {P : Json → Prop} :
    (∀ v ∈ d.raw, P v) ↔ P (.object d.extra) ∧ (∀ v ∈ d.imports, P v) ∧
      (∀ h ∈ d.headers, ∀ v ∈ h.raw, P v) ∧ (∀ b ∈ d.bodies, ∀ v ∈ b.raw, P v) ∧
      ∀ a ∈ d.architectures, ∀ v ∈ a.raw, P v := by
  simp only [raw, List.forall_mem_cons, List.forall_mem_append, List.forall_mem_flatMap, and_assoc]

namespace WellFormed

variable {d : Design} (hd : d.WellFormed)

include hd

theorem extra : d.extra.keys.Nodup := (forall_raw_iff.1 hd).1.nodup_keys

theorem header {h : PackageHeader} (hh : h ∈ d.headers) : h.extra.keys.Nodup :=
  ((forall_raw_iff.1 hd).2.2.1 h hh (.object h.extra) List.mem_cons_self).nodup_keys

theorem body {b : PackageBody} (hb : b ∈ d.bodies) : b.extra.keys.Nodup :=
  ((forall_raw_iff.1 hd).2.2.2.1 b hb (.object b.extra) List.mem_cons_self).nodup_keys

theorem architecture {a : Architecture} (ha : a ∈ d.architectures) : a.extra.keys.Nodup :=
  ((forall_raw_iff.1 hd).2.2.2.2 a ha (.object a.extra) List.mem_cons_self).nodup_keys

theorem instance_ {a : Architecture} (ha : a ∈ d.architectures) {i : Instance}
    (hi : i ∈ a.instances) : i.extra.keys.Nodup := by
  have hraw : Json.object i.extra ∈ a.raw :=
    List.mem_cons_of_mem _ (List.mem_flatMap.2 ⟨i, hi, by simp [Instance.raw]⟩)
  exact ((forall_raw_iff.1 hd).2.2.2.2 a ha _ hraw).nodup_keys

end WellFormed

/-! ## Lossless designs -/

/-- No two units of one kind share a name; architectures may. -/
structure UniqueNames (d : Design) : Prop where
  headers : (d.headers.map PackageHeader.name).Nodup
  entities : (d.entities.map Entity.name).Nodup
  bodies : (d.bodies.map PackageBody.name).Nodup

instance (d : Design) : Decidable d.UniqueNames :=
  decidable_of_iff ((d.headers.map PackageHeader.name).Nodup ∧
    (d.entities.map Entity.name).Nodup ∧ (d.bodies.map PackageBody.name).Nodup)
    ⟨fun ⟨hh, he, hb⟩ => ⟨hh, he, hb⟩, fun ⟨hh, he, hb⟩ => ⟨hh, he, hb⟩⟩

structure Lossless (d : Design) : Prop where
  headers : ∀ h ∈ d.headers, h.Lossless
  entities : ∀ e ∈ d.entities, e.Complete
  bodies : ∀ b ∈ d.bodies, b.Lossless
  architectures : ∀ a ∈ d.architectures, a.Lossless
  extra : d.extra.Avoids sections

instance (d : Design) : Decidable d.Lossless :=
  decidable_of_iff ((∀ h ∈ d.headers, h.Lossless) ∧ (∀ e ∈ d.entities, e.Complete) ∧
    (∀ b ∈ d.bodies, b.Lossless) ∧ (∀ a ∈ d.architectures, a.Lossless) ∧
    d.extra.Avoids sections)
    ⟨fun ⟨hh, he, hb, ha, hx⟩ => ⟨hh, he, hb, ha, hx⟩,
      fun ⟨hh, he, hb, ha, hx⟩ => ⟨hh, he, hb, ha, hx⟩⟩

/-! ## Writing -/

theorem toFields_eq_ok_iff {d : Design} {w : Fields} : d.toFields = .ok w ↔
    ∃ headers entities bodies,
      Json.ofKeyed PackageHeader.toFields PackageHeader.name d.headers = .ok headers ∧
      Json.ofKeyed Entity.toFields Entity.name d.entities = .ok entities ∧
      Json.ofKeyed (fun b => .ok b.toFields) PackageBody.name d.bodies = .ok bodies ∧
      w = Fields.assignAll [("imports", .array d.imports), ("packageHeaders", headers),
        ("entities", entities), ("packages", bodies),
        ("architectures", .array (d.architectures.map fun a => .object a.toFields))] d.extra := by
  simp only [toFields, bind_eq_ok_iff, pure_eq_ok_iff, @eq_comm _ w]
  constructor
  · rintro ⟨headers, hheaders, entities, hentities, bodies, hbodies, hw⟩
    exact ⟨headers, entities, bodies, hheaders, hentities, hbodies, hw⟩
  · rintro ⟨headers, entities, bodies, hheaders, hentities, hbodies, hw⟩
    exact ⟨headers, hheaders, entities, hentities, bodies, hbodies, hw⟩

theorem exists_toFields_iff {d : Design} : (∃ w, d.toFields = .ok w) ↔
    (∀ h ∈ d.headers, ∀ c ∈ h.components, c.Complete) ∧ ∀ e ∈ d.entities, e.Complete := by
  have hheaders : (∃ v, Json.ofKeyed PackageHeader.toFields PackageHeader.name d.headers = .ok v) ↔
      ∀ h ∈ d.headers, ∀ c ∈ h.components, c.Complete := by
    simp only [exists_ofKeyed_iff, PackageHeader.exists_toFields_iff]
  have hentities : (∃ v, Json.ofKeyed Entity.toFields Entity.name d.entities = .ok v) ↔
      ∀ e ∈ d.entities, e.Complete := by
    simp only [exists_ofKeyed_iff, Entity.exists_toFields_iff]
  simp only [← hheaders, ← hentities, toFields_eq_ok_iff]
  constructor
  · rintro ⟨w, headers, entities, bodies, hheaders, hentities, -⟩
    exact ⟨⟨headers, hheaders⟩, entities, hentities⟩
  · rintro ⟨⟨headers, hheaders⟩, entities, hentities⟩
    obtain ⟨bodies, hbodies⟩ := (exists_ofKeyed_iff PackageBody.name).2 fun b _ =>
      ⟨b.toFields, rfl⟩
    exact ⟨_, headers, entities, bodies, hheaders, hentities, hbodies, rfl⟩

/-- The sections come first, then the other fields. -/
theorem eq_append_of_toFields {d : Design} {w : Fields} (hextra : d.extra.keys.Nodup)
    (havoids : d.extra.Avoids sections) (hw : d.toFields = .ok w) : ∃ headers entities bodies,
      Json.ofKeyed PackageHeader.toFields PackageHeader.name d.headers = .ok headers ∧
      Json.ofKeyed Entity.toFields Entity.name d.entities = .ok entities ∧
      Json.ofKeyed (fun b => .ok b.toFields) PackageBody.name d.bodies = .ok bodies ∧
      w = [("imports", .array d.imports), ("packageHeaders", headers), ("entities", entities),
        ("packages", bodies),
        ("architectures", .array (d.architectures.map fun a => .object a.toFields))] ++
          d.extra := by
  obtain ⟨headers, entities, bodies, hheaders, hentities, hbodies, rfl⟩ :=
    toFields_eq_ok_iff.1 hw
  exact ⟨headers, entities, bodies, hheaders, hentities, hbodies,
    Fields.assignAll_of_avoids rfl hextra havoids⟩

theorem all_of_toFields {p : Json → Bool} (hp : Json.Lenient p) {d : Design} {w : Fields}
    (hraw : ∀ v ∈ d.raw, v.all p) (hw : d.toFields = .ok w) : (Json.object w).all p := by
  obtain ⟨headers, entities, bodies, hheaders, hentities, hbodies, rfl⟩ :=
    toFields_eq_ok_iff.1 hw
  obtain ⟨hextra, himports, hrawHeaders, hrawBodies, hrawArchitectures⟩ := forall_raw_iff.1 hraw
  have hheaders := all_ofKeyed hp hheaders fun h hh _ hn =>
    PackageHeader.all_of_toFields hp (hrawHeaders h hh) hn
  have hentities := all_ofKeyed hp hentities fun _ _ _ hn => Entity.all_of_toFields hp hn
  have hbodies := all_ofKeyed hp hbodies fun b hb n hn =>
    Except.ok.inj hn ▸ PackageBody.all_toFields hp (hrawBodies b hb)
  have harchitectures := all_ofList hp (ofList_plain d.architectures) fun a ha n hn =>
    Except.ok.inj hn ▸ Architecture.all_toFields hp (hrawArchitectures a ha)
  refine hp.object_assignAll (by simp) ?_ (Json.all_object.1 hextra).2
  simp [hp.array himports, hheaders, hentities, hbodies, harchitectures]

/-! ## Reading -/

theorem ofFields_eq_ok_iff {m : Fields} {d : Design} : ofFields m = .ok d ↔
    m.optional "imports" Fields.array = .ok d.imports ∧
    m.optional "packageHeaders" (Fields.keyed PackageHeader.ofFields PackageHeader.name) =
      .ok d.headers ∧
    m.keyed Entity.ofFields Entity.name "entities" = .ok d.entities ∧
    m.optional "packages" (Fields.keyed PackageBody.ofFields PackageBody.name) = .ok d.bodies ∧
    m.optional "architectures" (Fields.list Architecture.ofFields) = .ok d.architectures ∧
    d.extra = m.without sections := by
  obtain ⟨imports, headers, entities, bodies, architectures, extra⟩ := d
  simp only [ofFields, bind_eq_ok_iff, pure_eq_ok_iff]
  constructor
  · rintro ⟨imports, himports, headers, hheaders, entities, hentities, bodies, hbodies,
      architectures, harchitectures, ⟨⟩⟩
    exact ⟨himports, hheaders, hentities, hbodies, harchitectures, rfl⟩
  · rintro ⟨himports, hheaders, hentities, hbodies, harchitectures, rfl⟩
    exact ⟨imports, himports, headers, hheaders, entities, hentities, bodies, hbodies,
      architectures, harchitectures, rfl⟩

theorem lossless_of_ofFields {m : Fields} {d : Design} (hm : (Json.object m).WellFormed)
    (hread : ofFields m = .ok d) : d.Lossless := by
  obtain ⟨-, hheaders, hentities, hbodies, harchitectures, hextra⟩ := ofFields_eq_ok_iff.1 hread
  constructor
  case headers =>
    intro h hh
    obtain ⟨n, hn, hread⟩ := all_of_mem_keyed hm (Fields.read_of_mem_optional hheaders hh) hh
    exact PackageHeader.lossless_of_ofFields hn hread
  case entities =>
    intro e he
    obtain ⟨-, n, -, -, hread⟩ := exists_of_mem_keyed hentities he
    exact Entity.complete_of_ofFields hread
  case bodies =>
    intro b hb
    obtain ⟨-, n, -, -, hread⟩ :=
      exists_of_mem_keyed (Fields.read_of_mem_optional hbodies hb) hb
    exact PackageBody.lossless_of_ofFields hread
  case architectures =>
    intro a ha
    obtain ⟨-, n, -, -, hread⟩ :=
      exists_of_mem_list (Fields.read_of_mem_optional harchitectures ha) ha
    exact Architecture.lossless_of_ofFields hread
  case extra => exact hextra ▸ Fields.avoids_without m sections

theorem nodup_names_of_optional {α : Type} {read : Fields → Except DocumentError α}
    {name : α → String} {m : Fields} {key : String} {xs : List α} (hm : (Json.object m).WellFormed)
    (h : m.optional key (Fields.keyed read name) = .ok xs) : (xs.map name).Nodup := by
  rcases Fields.optional_eq_ok_iff.1 h with ⟨-, rfl⟩ | ⟨-, h⟩
  · exact .nil
  · exact nodup_names_of_keyed hm h

theorem uniqueNames_of_ofFields {m : Fields} {d : Design} (hm : (Json.object m).WellFormed)
    (hread : ofFields m = .ok d) : d.UniqueNames := by
  obtain ⟨-, hheaders, hentities, hbodies, -, -⟩ := ofFields_eq_ok_iff.1 hread
  exact ⟨nodup_names_of_optional hm hheaders, nodup_names_of_keyed hm hentities,
    nodup_names_of_optional hm hbodies⟩

theorem all_raw_of_ofFields {p : Json → Bool} (hp : Json.Lenient p) {m : Fields} {d : Design}
    (hm : (Json.object m).all p) (hread : ofFields m = .ok d) : ∀ v ∈ d.raw, v.all p := by
  obtain ⟨himports, hheaders, -, hbodies, harchitectures, hextra⟩ := ofFields_eq_ok_iff.1 hread
  refine forall_raw_iff.2
    ⟨hextra ▸ hp.object_without sections hm, fun v hv => ?_, fun h hh => ?_, fun b hb => ?_,
      fun a ha => ?_⟩
  · have himports := Fields.array_eq_ok_iff.1 (Fields.read_of_mem_optional himports hv)
    exact (Json.all_array.1 (Json.all_of_value? hm himports)).2 v hv
  · obtain ⟨n, hn, hread⟩ := all_of_mem_keyed hm (Fields.read_of_mem_optional hheaders hh) hh
    exact PackageHeader.all_raw_of_ofFields hp hn hread
  · obtain ⟨n, hn, hread⟩ := all_of_mem_keyed hm (Fields.read_of_mem_optional hbodies hb) hb
    exact PackageBody.all_raw_of_ofFields hp hn hread
  · obtain ⟨n, hn, hread⟩ := all_of_mem_list hm (Fields.read_of_mem_optional harchitectures ha) ha
    exact Architecture.all_raw_of_ofFields hp hn hread

theorem wellFormed_of_ofFields {m : Fields} {d : Design} (hm : (Json.object m).WellFormed)
    (hread : ofFields m = .ok d) : d.WellFormed :=
  all_raw_of_ofFields Json.lenient_distinctKeys hm hread

/-! ## Reading back -/

theorem ofFields_of_toFields {d : Design} {w : Fields} (hd : d.WellFormed) (hn : d.UniqueNames)
    (hl : d.Lossless) (hw : d.toFields = .ok w) : ofFields w = .ok d := by
  obtain ⟨headers, entities, bodies, hheaders, hentities, hbodies, rfl⟩ :=
    eq_append_of_toFields hd.extra hl.extra hw
  refine ofFields_eq_ok_iff.2
    ⟨?_, ?_, ?_, ?_, ?_, (Fields.without_append_of_avoids rfl hl.extra).symm⟩
  · rfl
  · rw [Fields.optional_of_present rfl]
    exact keyed_of_ofKeyed hn.headers (fun h hh _ hn =>
      PackageHeader.ofFields_of_toFields (hl.headers h hh) (hd.header hh) hn) hheaders rfl
  · exact keyed_of_ofKeyed hn.entities (fun _ _ _ hn => Entity.ofFields_of_toFields hn)
      hentities rfl
  · rw [Fields.optional_of_present rfl]
    exact keyed_of_ofKeyed hn.bodies (fun b hb _ hn => Except.ok.inj hn ▸
      PackageBody.ofFields_toFields (hl.bodies b hb) (hd.body hb)) hbodies rfl
  · rw [Fields.optional_of_present rfl]
    exact list_of_plain (fun a ha => Architecture.ofFields_toFields (hl.architectures a ha)
      (hd.architecture ha) fun i hi => hd.instance_ ha hi) rfl

theorem exists_toFields_of_lossless {d : Design} (hl : d.Lossless) : ∃ w, d.toFields = .ok w :=
  exists_toFields_iff.2 ⟨fun h hh => (hl.headers h hh).complete, hl.entities⟩

end Design

end HdlInterface
