import HdlInterface.Design.Basic
import HdlInterface.Json.Reader
import HdlInterface.Unit.Document

/-!
# Designs as documents

A document is an object with a section for each kind of unit. Only `entities` is required; all
sections are written, empty or not.
-/

namespace HdlInterface

/-- The sections of a document, in the order in which they are written. -/
def Design.sections : List String :=
  ["imports", "packageHeaders", "entities", "packages", "architectures"]

/-- Reads a section that may be absent. -/
def Fields.optional {α : Type} (m : Fields) (key : String)
    (read : Fields → String → Except DocumentError (List α)) : Except DocumentError (List α) :=
  match m.value? key with
  | some _ => read m key
  | none => .ok []

namespace Design

def toFields (d : Design) : Except DocumentError Fields := do
  let headers ← Json.ofKeyed PackageHeader.toFields PackageHeader.name d.headers
  let entities ← Json.ofKeyed Entity.toFields Entity.name d.entities
  let bodies ← Json.ofKeyed (fun b => .ok b.toFields) PackageBody.name d.bodies
  let architectures := Json.array (d.architectures.map fun a => .object a.toFields)
  return Fields.assignAll
    [("imports", .array d.imports), ("packageHeaders", headers), ("entities", entities),
      ("packages", bodies), ("architectures", architectures)]
    d.extra

def ofFields (m : Fields) : Except DocumentError Design := do
  let imports ← m.optional "imports" Fields.array
  let headers ← m.optional "packageHeaders"
    (Fields.keyed PackageHeader.ofFields PackageHeader.name)
  let entities ← m.keyed Entity.ofFields Entity.name "entities"
  let bodies ← m.optional "packages" (Fields.keyed PackageBody.ofFields PackageBody.name)
  let architectures ← m.optional "architectures" (Fields.list Architecture.ofFields)
  return { imports, headers, entities, bodies, architectures, extra := m.without sections }

/-! ## Text -/

/-- The text of a design. -/
def toText (layout : Layout) (d : Design) : Except DocumentError String := do
  return (← d.toFields).toText layout

/-- The design that is the whole of a text. -/
def ofText (text : String) : Except DocumentError Design := do
  match Json.ofText? text with
  | none => throw .malformed
  | some v => ofFields (← v.fieldsAt "design")

end Design

end HdlInterface
