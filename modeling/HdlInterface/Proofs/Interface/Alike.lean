import HdlInterface.Proofs.Expr.Alike
import HdlInterface.Interface.Document

/-!
# Interfaces of equal fields

The same variable, port or entity is read from equal objects, or none for the same reason.
-/

namespace HdlInterface

variable {m n : Fields}

theorem Variable.ofFields_alike (h : m.Same n) :
    ReadAlike Eq (Variable.ofFields m) (Variable.ofFields n) := by
  refine (Fields.text_alike (h.value? "name")).bind fun name _ hname => ?_
  refine (h.object_alike "type").bind fun k l hkl => ?_
  refine (Expr.ofFields_alike hkl).bind fun type _ htype => ?_
  subst hname htype
  have hvalue := Fields.present?_rel (h.value? "value")
  generalize m.present? "value" = v at hvalue
  generalize n.present? "value" = w at hvalue
  cases hvalue with
  | none => exact .of_eq _
  | some hvw =>
    refine (Json.fieldsAt_alike hvw.lift).bind fun k l hkl => ?_
    exact (Expr.ofFields_alike hkl).bind fun x _ hx => .ok (hx ▸ rfl)

theorem Port.read_alike (h : m.Same n) : ReadAlike Eq (Port.read m) (Port.read n) := by
  refine (Fields.text_alike (h.value? "direction")).bind fun text _ htext => ?_
  subst htext
  refine (Alike.of_eq (Direction.ofText text)).bind fun d _ hd => ?_
  refine (h.object_alike "variable").bind fun k l hkl => ?_
  exact (Variable.ofFields_alike hkl).bind fun v _ hv => .ok (hd ▸ hv ▸ rfl)

theorem Entity.ofFields_alike (h : m.Same n) :
    ReadAlike Eq (Entity.ofFields m) (Entity.ofFields n) := by
  refine (Fields.text_alike (h.value? "name")).bind fun name _ hname => ?_
  refine (Fields.list_alike (h.value? "generics") fun _ _ _ => Variable.ofFields_alike).bind
    fun generics _ hgenerics => ?_
  refine (Fields.list_alike (h.value? "ports") fun _ _ _ => Port.read_alike).bind
    fun ports _ hports => ?_
  rw [List.forall₂_eq_eq_eq] at hgenerics hports
  subst hname hgenerics hports
  exact .of_eq _

end HdlInterface
