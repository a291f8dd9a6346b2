import HdlInterface.Interface.Document
import HdlInterface.Unit.Basic

/-!
# Design units as documents

The fields with a meaning come first. The others follow, and one of them that bears the key of a
field with a meaning takes its place.
-/

namespace HdlInterface

/-! ## Packages -/

/-- Functions are kept as they are. -/
def Json.ofFunctions (functions : List Fields) : Json :=
  .array (functions.map .object)

def Fields.functions (m : Fields) : Except DocumentError (List Fields) := do
  (← m.array "functions").mapM (·.fieldsAt "functions")

def PackageHeader.knownKeys : List String := ["name", "components", "functions"]

def PackageHeader.toFields (h : PackageHeader) : Except DocumentError Fields := do
  let components ← Json.ofKeyed Entity.toFields Entity.name h.components
  return Fields.assignAll
    [("name", .string h.name), ("components", components), ("functions", .ofFunctions h.functions)]
    h.extra

def PackageHeader.ofFields (m : Fields) : Except DocumentError PackageHeader := do
  let name ← m.text "name"
  let components ← m.keyed Entity.ofFields Entity.name "components"
  let functions ← m.functions
  return { name, components, functions, extra := m.without knownKeys }

def PackageBody.knownKeys : List String := ["name", "functions"]

def PackageBody.toFields (b : PackageBody) : Fields :=
  Fields.assignAll [("name", .string b.name), ("functions", .ofFunctions b.functions)] b.extra

def PackageBody.ofFields (m : Fields) : Except DocumentError PackageBody := do
  let name ← m.text "name"
  let functions ← m.functions
  return { name, functions, extra := m.without knownKeys }

/-! ## Architectures -/

def Instance.knownKeys : List String := ["name", "entityName"]

def Instance.toFields (i : Instance) : Fields :=
  Fields.assignAll [("name", .string i.name), ("entityName", i.reference)] i.extra

def Instance.ofFields (m : Fields) : Except DocumentError Instance := do
  let name ← m.text "name"
  let reference ← m.require "entityName"
  return { name, reference, extra := m.without knownKeys }

def Architecture.knownKeys : List String := ["name", "entityName", "componentInstances"]

def Architecture.toFields (a : Architecture) : Fields :=
  Fields.assignAll
    [("name", .string a.name), ("entityName", .string a.entity),
      ("componentInstances", .array (a.instances.map fun i => .object i.toFields))]
    a.extra

def Architecture.ofFields (m : Fields) : Except DocumentError Architecture := do
  let name ← m.text "name"
  let entity ← m.text "entityName"
  let instances ← m.list Instance.ofFields "componentInstances"
  return { name, entity, instances, extra := m.without knownKeys }

end HdlInterface
