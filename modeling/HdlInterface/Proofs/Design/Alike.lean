import HdlInterface.Proofs.Design.Equality
import HdlInterface.Proofs.Unit.Alike

/-!
# Designs of equal documents

Two documents are alike if they differ only in the order of fields, and not in the order of the
entries of a section, which is the order of the units. Equal designs are read from them, or none for
the same reason.
-/

namespace HdlInterface

/-! ## Optional sections -/

theorem Fields.optional_alike {α β : Type} {S : α → β → Prop} {R : Json → Json → Prop}
    {m n : Fields} {key : String} {read : Fields → String → Except DocumentError (List α)}
    {read' : Fields → String → Except DocumentError (List β)}
    (h : Option.Rel R (m.value? key) (n.value? key))
    (hread : ReadAlike (List.Forall₂ S) (read m key) (read' n key)) :
    ReadAlike (List.Forall₂ S) (m.optional key read) (n.optional key read') := by
  unfold optional
  generalize m.value? key = x at h
  generalize n.value? key = y at h
  cases h with
  | none => exact .ok .nil
  | some => exact hread

namespace Design

variable {m n : Fields}

/-- How the fields of two documents are related: the entries of sections stand in the same order,
and all other values are equal. -/
def SameField (key : String) : Json → Json → Prop :=
  if key = "packageHeaders" then Json.Lift (Fields.SameEntries PackageHeader.SameFields)
  else if key = "entities" ∨ key = "packages" then Json.Lift (Fields.SameEntries Fields.Same)
  else Json.Same

/-- Documents that differ in the order of fields only. -/
abbrev SameFields : Fields → Fields → Prop := Fields.Related SameField

theorem ofFields_alike (h : SameFields m n) :
    ReadAlike Design.Same (Design.ofFields m) (Design.ofFields n) := by
  have himports := h.value? "imports"
  have hheaders := h.value? "packageHeaders"
  have hentities := h.value? "entities"
  have hbodies := h.value? "packages"
  have harchitectures := h.value? "architectures"
  refine (Fields.optional_alike himports (Fields.array_alike himports)).bind
    fun imports imports' himports => ?_
  refine (Fields.optional_alike hheaders (Fields.keyed_alike hheaders
    (fun _ _ => PackageHeader.ofFields_alike) fun _ _ hhk => hhk.name)).bind
    fun headers headers' hheaders => ?_
  refine (Fields.keyed_alike hentities (fun _ _ => Entity.ofFields_alike)
    fun _ _ hab => congrArg Entity.name hab).bind fun entities entities' hentities => ?_
  refine (Fields.optional_alike hbodies (Fields.keyed_alike hbodies
    (fun _ _ => PackageBody.ofFields_alike) fun _ _ hbc => hbc.name)).bind
    fun bodies bodies' hbodies => ?_
  refine (Fields.optional_alike harchitectures (Fields.list_alike harchitectures
    fun _ _ _ => Architecture.ofFields_alike)).bind
    fun architectures architectures' harchitectures => .ok ?_
  rw [List.forall₂_eq_eq_eq] at hentities
  refine ⟨himports, hheaders, hentities, hbodies, harchitectures, h.without fun key hkey => ?_⟩
  simp only [sections, List.mem_cons, List.not_mem_nil, or_false, not_or] at hkey
  obtain ⟨-, hheader, hentity, hbody, -⟩ := hkey
  rw [SameField, if_neg hheader, if_neg (not_or.2 ⟨hentity, hbody⟩)]

/-! ## Equality is respected -/

/-- Equality disregards the order of fields at every depth, is an equivalence, and is respected by
all operations and by reading. -/
theorem equality_respected :
    (∀ m n : Fields, (Json.object m).WellFormed → (Json.object n).WellFormed →
      (m.same n = true ↔
        ∀ key, Option.Rel (fun v w => v.same w = true) (m.value? key) (n.value? key))) ∧
    (∀ vs ws : List Json, (Json.array vs).same (.array ws) = true ↔
      List.Forall₂ (fun v w => v.same w = true) vs ws) ∧
    Equivalence (fun d e : {d : Design // d.WellFormed} => d.1.same e.1 = true) ∧
    (∀ d e : Design, d.WellFormed → e.WellFormed → d.same e = true →
      Alike Eq (fun m n : Fields => m.same n = true) d.toFields e.toFields ∧
      (∀ l, Alike Eq (fun d e : Design => d.same e = true) (d.canonical l) (e.canonical l)) ∧
      d.arrange.same e.arrange = true ∧
      ∀ name,
        Option.Rel (fun h k => h.same k = true) (d.header? name) (e.header? name) ∧
        d.entity? name = e.entity? name ∧
        Option.Rel (fun b c => b.same c = true) (d.body? name) (e.body? name)) ∧
    ∀ m n, SameFields m n → Alike DocumentError.Same (fun d e : Design => d.same e = true)
      (ofFields m) (ofFields n) := by
  refine ⟨fun m n hm hn => ?_, fun vs ws => Json.same_array, ⟨?_, ?_, ?_⟩, ?_, ?_⟩
  · exact Fields.same_iff_rel hm hn
  · exact fun d => same_refl d.2
  · exact fun {d e} h => (same_def.2 ⟨d.2, e.2, h⟩).symm.same
  · exact fun {c d e} h h' => ((same_def.2 ⟨c.2, d.2, h⟩).trans (same_def.2 ⟨d.2, e.2, h'⟩)).same
  · intro d e hd he h
    have hsame : d.Same e := same_def.2 ⟨hd, he, h⟩
    refine ⟨(toFields_alike hsame).imp fun _ _ hmn => hmn.2.2,
      fun l => (canonical_alike hsame l).imp fun _ _ => Same.same, hsame.arrange.same,
      fun name => ⟨rel_imp (header?_rel hsame name) fun _ _ _ _ hhk => ?_,
        entity?_eq_of_same hsame name, rel_imp (body?_rel hsame name) fun _ _ _ _ hbc => ?_⟩⟩
    · exact (PackageHeader.same_def.1 hhk).2.2
    · exact (PackageBody.same_def.1 hbc).2.2
  · exact fun m n h => (ofFields_alike h).imp fun _ _ => Same.same

/-- A design that keeps a field of its document, in either order. -/
def revised (revision : Fields) : Design := { empty with extra := [("revision", .object revision)] }

def revisedFields (revision : Fields) : Fields :=
  [("revision", .object revision), ("entities", .object [])]

def majorFirst : Fields := [("major", .number (.integer (.ofNat32 1))), ("minor", .null)]

def minorFirst : Fields := [("minor", .null), ("major", .number (.integer (.ofNat32 1)))]

theorem sameFields_revisedFields :
    SameFields (revisedFields majorFirst) (revisedFields minorFirst).reverse := by
  refine ⟨by decide, by decide, fun key => ?_⟩
  by_cases hrevision : key = "revision"
  · subst hrevision
    exact .some (show Json.Same _ _ from ⟨by decide, by decide, by decide⟩)
  by_cases hentities : key = "entities"
  · subst hentities
    exact .some (show Json.Lift _ _ _ from .object .nil)
  · simp only [revisedFields, List.reverse_cons, List.reverse_nil, List.nil_append,
      List.cons_append, Fields.value?_cons, Ne.symm hrevision, Ne.symm hentities, if_false]
    exact .none

theorem revised_equality_respected :
    Alike Eq (fun m n : Fields => m.same n = true) (revised majorFirst).toFields
      (revised minorFirst).toFields ∧
    ofFields (revisedFields majorFirst) = .ok (revised majorFirst) ∧
    ofFields (revisedFields minorFirst).reverse = .ok (revised minorFirst) ∧
    (revised majorFirst).same (revised minorFirst) = true := by
  obtain ⟨-, -, -, hoperations, hreading⟩ := equality_respected
  have hmajor : ofFields (revisedFields majorFirst) = .ok (revised majorFirst) := rfl
  have hminor : ofFields (revisedFields minorFirst).reverse = .ok (revised minorFirst) := rfl
  have hread := hreading _ _ sameFields_revisedFields
  rw [hmajor, hminor] at hread
  cases hread with
  | ok hsame =>
    exact ⟨(hoperations _ _ (by decide) (by decide) hsame).1, hmajor, hminor, hsame⟩

end Design

end HdlInterface
