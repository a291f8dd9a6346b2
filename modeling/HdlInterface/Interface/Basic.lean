import HdlInterface.Expr.Basic
import HdlInterface.Interface.Direction

/-!
# Interfaces

Variables, ports and entities: what a unit of hardware shows to the outside.
-/

namespace HdlInterface

/-! ## Variables -/

/-- A declared name with a type mark and perhaps a default value. -/
structure Variable where
  name : String
  type : Expr
  value : Option Expr
deriving DecidableEq

/-- Applies `f` to the declared name and to every name in the type mark and the default value. -/
def Variable.mapNames (f : String → String) (v : Variable) : Variable :=
  { name := f v.name, type := v.type.mapNames f, value := v.value.map (Expr.mapNames f) }

/-! ## Ports -/

/-- A port has a direction and declares a signal. Either may still be missing while a design is
built. -/
structure Port (V : Type) where
  direction : Option Direction
  signal : Option V
deriving DecidableEq

namespace Port

variable {V : Type}

/-- A port of which nothing is known. -/
def empty : Port V := ⟨none, none⟩

/-- A port with both parts. -/
def of (direction : Direction) (signal : V) : Port V := ⟨some direction, some signal⟩

/-- Both parts of the port are there. -/
def Complete (p : Port V) : Prop := p.direction.isSome ∧ p.signal.isSome

instance (p : Port V) : Decidable p.Complete :=
  inferInstanceAs (Decidable (_ ∧ _))

/-- The name of the signal. -/
def name? (p : Port Variable) : Option String := p.signal.map Variable.name

def mapNames (f : String → String) (p : Port Variable) : Port Variable :=
  { p with signal := p.signal.map (Variable.mapNames f) }

end Port

/-! ## Entities -/

/-- A unit of hardware, or a component that stands for one: its generics and its ports. -/
structure Entity where
  name : String
  generics : List Variable
  ports : List (Port Variable)
deriving DecidableEq

namespace Entity

/-- The first port of that name. -/
def port? (e : Entity) (name : String) : Option (Port Variable) :=
  e.ports.find? fun p => p.name? == some name

/-- The first generic of that name. -/
def generic? (e : Entity) (name : String) : Option Variable :=
  e.generics.find? fun g => g.name == name

def mapNames (f : String → String) (e : Entity) : Entity :=
  { name := f e.name
    generics := e.generics.map (Variable.mapNames f)
    ports := e.ports.map (Port.mapNames f) }

end Entity

end HdlInterface
