import HdlInterface.Interface.Basic
import HdlInterface.Language.Basic

/-!
# Design units

Package headers and bodies, and architectures with the instances they contain. Subprograms and the
fields that have no meaning here are kept as they are.
-/

namespace HdlInterface

/-! ## Packages -/

/-- The declaration of a package. -/
structure PackageHeader where
  name : String
  components : List Entity
  functions : List Fields
  extra : Fields

structure PackageBody where
  name : String
  functions : List Fields
  extra : Fields

/-! ## Architectures -/

/-- A labelled instance, with a reference to the entity that it is an instance of. -/
structure Instance where
  name : String
  reference : Json
  extra : Fields

/-- An implementation of an entity. -/
structure Architecture where
  name : String
  entity : String
  instances : List Instance
  extra : Fields

/-! ## Names -/

def PackageHeader.mapNames (f : String → String) (h : PackageHeader) : PackageHeader :=
  { h with name := f h.name, components := h.components.map (Entity.mapNames f) }

/-- Only the name of a body is an identifier. -/
def PackageBody.mapNames (f : String → String) (b : PackageBody) : PackageBody :=
  { b with name := f b.name }

def Instance.mapNames (f : String → String) (i : Instance) : Instance :=
  { i with name := f i.name, reference := i.reference.mapReference f }

def Architecture.mapNames (f : String → String) (a : Architecture) : Architecture :=
  { a with
    name := f a.name
    entity := f a.entity
    instances := a.instances.map (Instance.mapNames f) }

/-! ## Equality up to the order of fields -/

/-- The two lists agree item by item. -/
def sameList {α : Type} (same : α → α → Bool) : List α → List α → Bool
  | [], [] => true
  | x :: xs, y :: ys => same x y && sameList same xs ys
  | _, _ => false

def PackageHeader.same (h k : PackageHeader) : Bool :=
  h.name == k.name && h.components == k.components &&
    sameList Fields.same h.functions k.functions && h.extra.same k.extra

def PackageBody.same (b c : PackageBody) : Bool :=
  b.name == c.name && sameList Fields.same b.functions c.functions && b.extra.same c.extra

def Instance.same (i j : Instance) : Bool :=
  i.name == j.name && i.reference.same j.reference && i.extra.same j.extra

def Architecture.same (a b : Architecture) : Bool :=
  a.name == b.name && a.entity == b.entity && sameList Instance.same a.instances b.instances &&
    a.extra.same b.extra

end HdlInterface
