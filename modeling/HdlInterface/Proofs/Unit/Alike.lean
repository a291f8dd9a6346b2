import HdlInterface.Proofs.Interface.Alike
import HdlInterface.Proofs.Unit.Equality

/-!
# Design units of equal fields

Equal units are read from equal objects, or none for the same reason. The components of a package
are a section, so their order counts.
-/

namespace HdlInterface

variable {m n : Fields}

theorem Fields.functions_alike (h : Option.Rel Json.Same (m.value? "functions")
    (n.value? "functions")) : ReadAlike (List.Forall₂ Fields.Same) m.functions n.functions :=
  (array_alike h).bind fun _ _ hitems => Alike.mapM hitems fun _ _ hvw =>
    Json.fieldsAt_alike hvw.lift

/-- How the fields of two headers are related: the components stand in the same order, and all
other values are equal. -/
def PackageHeader.SameField (key : String) : Json → Json → Prop :=
  if key = "components" then Json.Lift (Fields.SameEntries Fields.Same) else Json.Same

/-- Objects that describe the same package header. -/
abbrev PackageHeader.SameFields : Fields → Fields → Prop := Fields.Related SameField

theorem PackageHeader.ofFields_alike (h : SameFields m n) :
    ReadAlike PackageHeader.Same (PackageHeader.ofFields m) (PackageHeader.ofFields n) := by
  refine (Fields.text_alike (h.value? "name")).bind fun name _ hname => ?_
  refine (Fields.keyed_alike (h.value? "components") (fun _ _ => Entity.ofFields_alike)
    fun _ _ hab => congrArg Entity.name hab).bind fun components _ hcomponents => ?_
  refine (Fields.functions_alike (h.value? "functions")).bind fun fs gs hfunctions => .ok ?_
  rw [List.forall₂_eq_eq_eq] at hcomponents
  refine ⟨hname, hcomponents, hfunctions, h.without fun key hkey => if_neg ?_⟩
  rintro rfl
  exact hkey (by decide)

theorem PackageBody.ofFields_alike (h : m.Same n) :
    ReadAlike PackageBody.Same (PackageBody.ofFields m) (PackageBody.ofFields n) := by
  refine (Fields.text_alike (h.value? "name")).bind fun name _ hname => ?_
  refine (Fields.functions_alike (h.value? "functions")).bind fun fs gs hfunctions => .ok ?_
  exact ⟨hname, hfunctions, h.without knownKeys⟩

theorem Instance.ofFields_alike (h : m.Same n) :
    ReadAlike Instance.Same (Instance.ofFields m) (Instance.ofFields n) := by
  refine (Fields.text_alike (h.value? "name")).bind fun name _ hname => ?_
  refine (Fields.require_alike (h.value? "entityName")).bind fun v w hvw => .ok ?_
  exact ⟨hname, hvw, h.without knownKeys⟩

theorem Architecture.ofFields_alike (h : m.Same n) :
    ReadAlike Architecture.Same (Architecture.ofFields m) (Architecture.ofFields n) := by
  refine (Fields.text_alike (h.value? "name")).bind fun name _ hname => ?_
  refine (Fields.text_alike (h.value? "entityName")).bind fun entity _ hentity => ?_
  refine (Fields.list_alike (h.value? "componentInstances")
    fun _ _ _ => Instance.ofFields_alike).bind fun is js hinstances => .ok ?_
  exact ⟨hname, hentity, hinstances, h.without knownKeys⟩

end HdlInterface
