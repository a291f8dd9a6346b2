import HdlInterface.Document.Error
import HdlInterface.Interface.Order
import HdlInterface.Unit.Basic

/-!
# Designs

The units of one source file, each kind in the order in which they were added. Entities, package
headers and package bodies are found by name, and a name is taken once for each kind.
-/

namespace HdlInterface

structure Design where
  imports : List Json
  headers : List PackageHeader
  entities : List Entity
  bodies : List PackageBody
  architectures : List Architecture
  extra : Fields

namespace Design

def empty : Design := ⟨[], [], [], [], [], []⟩

/-! ## Units by name -/

def header? (d : Design) (name : String) : Option PackageHeader :=
  d.headers.find? fun h => h.name == name

def entity? (d : Design) (name : String) : Option Entity :=
  d.entities.find? fun e => e.name == name

def body? (d : Design) (name : String) : Option PackageBody :=
  d.bodies.find? fun b => b.name == name

/-- The number of ports of all entities. -/
def portCount (d : Design) : Nat :=
  (d.entities.flatMap Entity.ports).length

/-! ## Adding units -/

def insertHeader (d : Design) (h : PackageHeader) : Except DocumentError Design :=
  if (d.header? h.name).isSome then
    .error (.redefinition h.name)
  else
    .ok { d with headers := d.headers ++ [h] }

def insertEntity (d : Design) (e : Entity) : Except DocumentError Design :=
  if (d.entity? e.name).isSome then
    .error (.redefinition e.name)
  else
    .ok { d with entities := d.entities ++ [e] }

def insertBody (d : Design) (b : PackageBody) : Except DocumentError Design :=
  if (d.body? b.name).isSome then
    .error (.redefinition b.name)
  else
    .ok { d with bodies := d.bodies ++ [b] }

/-! ## Arranging interfaces -/

/-- Arranges the interface of every entity and of every component by name. -/
def arrange (d : Design) : Design :=
  { d with
    headers := d.headers.map fun h => { h with components := h.components.map Entity.arrange }
    entities := d.entities.map Entity.arrange }

/-! ## Equality up to the order of fields -/

def same (d e : Design) : Bool :=
  sameList Json.same d.imports e.imports && sameList PackageHeader.same d.headers e.headers &&
    d.entities == e.entities && sameList PackageBody.same d.bodies e.bodies &&
    sameList Architecture.same d.architectures e.architectures && d.extra.same e.extra

end Design

end HdlInterface
