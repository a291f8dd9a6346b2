import HdlInterface.Design.Basic

/-!
# Canonical names

Every identifier of a design is brought to the canonical form of its language. That fails if two
declarations of one scope end up with the same name; the first declaration that repeats a name is
reported.
-/

namespace HdlInterface

/-! ## Repeated names -/

/-- The first name in a list of declarations that stands among `seen` or was declared before, or
that `inner` finds inside a declaration; a declaration is searched before its own name is
compared. -/
def firstRepeated {α : Type} (inner : α → Option String) (name : α → String) (seen : List String) :
    List α → Option String
  | [] => none
  | x :: xs =>
      (inner x).or <|
        if name x ∈ seen then some (name x) else firstRepeated inner name (name x :: seen) xs

/-- The first repeated name in a list. -/
def firstRepeat (names : List String) : Option String :=
  firstRepeated (fun _ => none) id [] names

/-- Generics and ports are scopes of their own. -/
def Entity.firstRepeat (e : Entity) : Option String :=
  (HdlInterface.firstRepeat (e.generics.map Variable.name)).or
    (HdlInterface.firstRepeat (e.ports.filterMap Port.name?))

def PackageHeader.firstRepeat (h : PackageHeader) : Option String :=
  firstRepeated Entity.firstRepeat Entity.name [] h.components

/-- Headers are searched first, then entities, then bodies; each kind is a scope of its own. -/
def Design.firstRepeat (d : Design) : Option String :=
  (firstRepeated PackageHeader.firstRepeat PackageHeader.name [] d.headers).or <|
    (firstRepeated Entity.firstRepeat Entity.name [] d.entities).or <|
      HdlInterface.firstRepeat (d.bodies.map PackageBody.name)

/-! ## Renaming -/

/-- Applies `f` to every identifier. -/
def Design.mapNames (f : String → String) (d : Design) : Design :=
  { d with
    imports := d.imports.map (Json.mapReference f)
    headers := d.headers.map (PackageHeader.mapNames f)
    entities := d.entities.map (Entity.mapNames f)
    bodies := d.bodies.map (PackageBody.mapNames f)
    architectures := d.architectures.map (Architecture.mapNames f) }

/-- The renamed thing, unless a name is repeated in it. -/
def unlessRepeated {α : Type} (firstRepeat : α → Option String) (x : α) : Except DocumentError α :=
  match firstRepeat x with
  | some name => .error (.redefinition name)
  | none => .ok x

def Entity.canonical (l : Language) (e : Entity) : Except DocumentError Entity :=
  unlessRepeated Entity.firstRepeat (e.mapNames l.canonical)

def PackageHeader.canonical (l : Language) (h : PackageHeader) :
    Except DocumentError PackageHeader :=
  unlessRepeated PackageHeader.firstRepeat (h.mapNames l.canonical)

def Design.canonical (l : Language) (d : Design) : Except DocumentError Design :=
  unlessRepeated Design.firstRepeat (d.mapNames l.canonical)

end HdlInterface
