import HdlInterface.Design.Document
import HdlInterface.Proofs.Document.Failure
import HdlInterface.Proofs.Expr.Alike

/-!
# Why a document is refused

Nothing below a section is refused for its name: expressions, interfaces and units are only refused
for a field that is missing or holds something else than it has to.
-/

namespace HdlInterface

/-- The error is not about a name. -/
def DocumentError.Nameless : DocumentError → Prop
  | redefinition _ => False
  | nameMismatch _ _ => False
  | _ => True

/-- A reader that does not look at names. -/
abbrev Nameless {α : Type} (x : Except DocumentError α) : Prop := FailsOnly DocumentError.Nameless x

/-! ## Fields -/

namespace Json

theorem fieldsAt_nameless (v : Json) (key : String) : Nameless (v.fieldsAt key) := by
  cases v with
  | object m => exact .ok m
  | _ => exact .error trivial

theorem textAt_nameless (v : Json) (key : String) (expected : Shape) :
    Nameless (v.textAt key expected) := by
  cases v with
  | string s => exact .ok s
  | _ => exact .error trivial

end Json

namespace Fields

variable (m : Fields) (key : String)

theorem require_nameless : Nameless (m.require key) := by
  unfold require
  split
  · exact .ok _
  · exact .error trivial

theorem text_nameless : Nameless (m.text key) :=
  (m.require_nameless key).bind fun v _ => v.textAt_nameless key .string

theorem object_nameless : Nameless (m.object key) :=
  (m.require_nameless key).bind fun v _ => v.fieldsAt_nameless key

theorem array_nameless : Nameless (m.array key) := by
  refine (m.require_nameless key).bind fun v _ => ?_
  cases v with
  | array items => exact .ok items
  | _ => exact .error trivial

/-- The objects of a list are smaller than the object that holds it. -/
theorem list_nameless {α : Type} {read : Fields → Except DocumentError α}
    (hread : ∀ n, sizeOf n < sizeOf m → Nameless (read n)) : Nameless (m.list read key) := by
  refine (m.array_nameless key).bind fun items hitems => .mapM fun v hv => ?_
  refine (v.fieldsAt_nameless key).bind fun n hn => hread n ?_
  obtain rfl := fieldsAt_eq_ok_iff.1 hn
  exact sizeOf_of_mem_array hitems hv

theorem functions_nameless : Nameless m.functions :=
  (m.array_nameless "functions").bind fun _ _ =>
    .mapM fun v _ => v.fieldsAt_nameless "functions"

end Fields

/-! ## Expressions -/

namespace Literal

theorem integerOf_nameless (v : Json) : Nameless (integerOf v) := by
  cases v with
  | number n =>
      rw [integerOf]
      cases n.toInt64? with
      | none => exact .error trivial
      | some i => exact .ok i
  | _ => exact .error trivial

theorem ofWidth_nameless (n : Int64) (bits : Option Json) : Nameless (ofWidth n bits) := by
  unfold ofWidth
  split
  · exact .ok _
  · split
    · exact .ok _
    · exact .error trivial
  · exact .error trivial

theorem nameOf_nameless (v : Json) : Nameless (nameOf v) := by
  cases v with
  | string s => exact .ok _
  | array parts =>
      have hparts : Nameless (parts.mapM (·.textAt "value" .namePart)) :=
        .mapM fun v _ => v.textAt_nameless "value" .namePart
      exact hparts.bind fun names _ => .ok (name names)
  | _ => exact .error trivial

theorem ofFields_nameless (m : Fields) : Nameless (ofFields m) := by
  rw [ofFields_eq]
  refine (m.text_nameless "type").bind fun kind _ => ?_
  refine (m.require_nameless "value").bind fun v _ => ?_
  unfold ofParts
  split
  · exact nameOf_nameless v
  · exact (integerOf_nameless v).bind fun n _ => ofWidth_nameless n _
  · exact (v.textAt_nameless "value" .string).bind fun s _ => .ok (string s)
  · exact .error trivial

end Literal

namespace Expr

/-- The operands are smaller than the operator that holds them. -/
theorem ofOperator_nameless (m : Fields)
    (hread : ∀ n, sizeOf n < sizeOf m → Nameless (ofFields n)) : Nameless (ofOperator m) := by
  have hoperand : ∀ key, Nameless (m.object key >>= ofFields) := fun key =>
    (m.object_nameless key).bind fun n hn => hread n (Fields.sizeOf_of_object hn)
  refine (m.text_nameless "operator").bind fun o _ => ?_
  refine (hoperand "op0").bind fun x _ => ?_
  split
  · exact (m.list_nameless "operands" hread).bind fun xs _ => .ok (nary o x xs)
  · exact (hoperand "op1").bind fun y _ => .ok (binary o x y)

/-- The induction is on the size of the object. -/
theorem ofFields_nameless (m : Fields) : Nameless (ofFields m) := by
  rw [ofFields_eq]
  split
  next v _ =>
    exact (v.fieldsAt_nameless "literal").bind fun n _ => (Literal.ofFields_nameless n).map literal
  next =>
    split
    next v hv =>
      refine (v.fieldsAt_nameless "binOperator").bind fun op hop => ?_
      have hsize : sizeOf op < sizeOf m :=
        Fields.sizeOf_of_present (Fields.fieldsAt_eq_ok_iff.1 hop ▸ hv)
      exact ofOperator_nameless op fun n hn => ofFields_nameless n
    next => exact .error trivial
termination_by sizeOf m
decreasing_by omega

end Expr

/-! ## Interfaces and units -/

theorem Variable.ofFields_nameless (m : Fields) : Nameless (Variable.ofFields m) := by
  refine (m.text_nameless "name").bind fun name _ => ?_
  refine (m.object_nameless "type").bind fun t _ => (Expr.ofFields_nameless t).bind fun type _ => ?_
  split
  · exact .ok _
  · next v _ =>
      refine (v.fieldsAt_nameless "value").bind fun n _ => ?_
      exact (Expr.ofFields_nameless n).bind fun x _ => .ok _

theorem Port.read_nameless (m : Fields) : Nameless (Port.read m) := by
  refine (m.text_nameless "direction").bind fun s _ => ?_
  have hdirection : Nameless (Direction.ofText s) := by
    unfold Direction.ofText
    split
    · exact .ok _
    · exact .error trivial
  refine hdirection.bind fun direction _ => (m.object_nameless "variable").bind fun n _ => ?_
  exact (Variable.ofFields_nameless n).bind fun v _ => .ok _

theorem Entity.ofFields_nameless (m : Fields) : Nameless (Entity.ofFields m) := by
  refine (m.text_nameless "name").bind fun name _ => ?_
  refine (m.list_nameless "generics" fun n _ => Variable.ofFields_nameless n).bind ?_
  intro generics _
  exact (m.list_nameless "ports" fun n _ => Port.read_nameless n).bind fun ports _ => .ok _

theorem PackageBody.ofFields_nameless (m : Fields) : Nameless (PackageBody.ofFields m) :=
  (m.text_nameless "name").bind fun _ _ => m.functions_nameless.bind fun _ _ => .ok _

theorem Instance.ofFields_nameless (m : Fields) : Nameless (Instance.ofFields m) :=
  (m.text_nameless "name").bind fun _ _ =>
    (m.require_nameless "entityName").bind fun _ _ => .ok _

theorem Architecture.ofFields_nameless (m : Fields) : Nameless (Architecture.ofFields m) := by
  refine (m.text_nameless "name").bind fun name _ => ?_
  refine (m.text_nameless "entityName").bind fun entity _ => ?_
  refine (m.list_nameless "componentInstances" fun n _ => Instance.ofFields_nameless n).bind ?_
  exact fun instances _ => .ok _

end HdlInterface
