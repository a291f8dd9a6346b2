import HdlInterface.Expr.Document
import HdlInterface.Interface.Basic

/-!
# Interfaces as documents
-/

namespace HdlInterface

/-! ## Variables -/

/-- A missing default value is written as null. -/
def Variable.toFields (v : Variable) : Fields :=
  [("name", .string v.name), ("type", .object v.type.toFields),
    ("value", (v.value.map fun x => Json.object x.toFields).getD .null)]

def Variable.ofFields (m : Fields) : Except DocumentError Variable := do
  let name ← m.text "name"
  let type ← Expr.ofFields (← m.object "type")
  match m.present? "value" with
  | none => return { name, type, value := none }
  | some v => return { name, type, value := some (← Expr.ofFields (← v.fieldsAt "value")) }

/-! ## Ports -/

/-- A port is written only if it is complete; the direction is looked at first. -/
def Port.toFields {V : Type} (write : V → Except DocumentError Fields) (p : Port V) :
    Except DocumentError Fields :=
  match p.direction, p.signal with
  | none, _ => .error (.missingField "direction")
  | some _, none => .error (.missingField "variable")
  | some d, some v => do
      return [("direction", .string d.name), ("variable", .object (← write v))]

def Port.ofFields {V : Type} (read : Fields → Except DocumentError V) (m : Fields) :
    Except DocumentError (Port V) := do
  let direction ← Direction.ofText (← m.text "direction")
  let signal ← read (← m.object "variable")
  return .of direction signal

/-- The document of a port that declares a variable. -/
def Port.write (p : Port Variable) : Except DocumentError Fields :=
  p.toFields fun v => .ok v.toFields

def Port.read (m : Fields) : Except DocumentError (Port Variable) :=
  Port.ofFields Variable.ofFields m

/-! ## Entities -/

def Entity.toFields (e : Entity) : Except DocumentError Fields := do
  let ports ← Json.ofList Port.write e.ports
  return [("name", .string e.name),
    ("generics", .array (e.generics.map fun g => .object g.toFields)), ("ports", ports)]

/-- Other fields are disregarded. -/
def Entity.ofFields (m : Fields) : Except DocumentError Entity := do
  let name ← m.text "name"
  let generics ← m.list Variable.ofFields "generics"
  let ports ← m.list Port.read "ports"
  return { name, generics, ports }

end HdlInterface
