import HdlInterface.Json.Basic
import HdlInterface.Text.LowerCase

/-!
# Languages

The two description languages and their rules for identifiers.
-/

namespace HdlInterface

inductive Language
  | vhdl
  | verilog
deriving DecidableEq, Repr

namespace Language

def all : List Language := [vhdl, verilog]

def name : Language → String
  | vhdl => "vhdl"
  | verilog => "verilog"

/-- The language with exactly this name. -/
def ofName? (s : String) : Option Language :=
  all.find? fun l => l.name == s

/-- Identifiers that differ in case are different identifiers. -/
def caseSensitive : Language → Bool
  | vhdl => false
  | verilog => true

/-- The canonical form of an identifier. -/
def canonical (l : Language) (id : String) : String :=
  if l.caseSensitive then id else lowerCase id

theorem ofName?_name (l : Language) : ofName? l.name = some l := by
  cases l <;> decide

theorem canonical_verilog (id : String) : verilog.canonical id = id := rfl

theorem canonical_vhdl (id : String) : vhdl.canonical id = lowerCase id := rfl

end Language

/-! ## References -/

/-- Applies `f` to the names of a reference: a name, or a list of name parts. Everything else stays
as it is. -/
def Json.mapReference (f : String → String) : Json → Json
  | string s => string (f s)
  | array parts => array (parts.map fun
      | string s => string (f s)
      | part => part)
  | v => v

end HdlInterface
