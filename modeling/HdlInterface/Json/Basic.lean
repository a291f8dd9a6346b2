import HdlInterface.Number.Binary64
import HdlInterface.Number.Integer

/-!
# JSON values

Values with ordered objects, access to the fields of an object, nesting depth, and the equality
that disregards the order of fields.
-/

namespace HdlInterface

/-! ## Numbers -/

/-- A number is an integer of 64 bits or a double; `1` and `1.0` differ. -/
inductive Number
  | integer (n : Integer)
  | double (x : Binary64)
deriving DecidableEq

namespace Number

/-- Equality of values within each of the two kinds. -/
def same : Number → Number → Bool
  | integer n, integer m => n == m
  | double x, double y => x.same y
  | _, _ => false

/-- The number as a signed integer of 64 bits. -/
def toInt64? : Number → Option Int64
  | integer n => int64? n.value
  | double _ => none

/-- The number as an unsigned integer of 32 bits. -/
def toUInt32? : Number → Option UInt32
  | integer n => uint32? n.value
  | double _ => none

end Number

/-! ## Values -/

inductive Json
  | null
  | bool (b : Bool)
  | number (n : Number)
  | string (s : String)
  | array (items : List Json)
  | object (fields : List (String × Json))
deriving Inhabited

/-- The fields of an object, in order. -/
abbrev Fields := List (String × Json)

namespace Fields

def keys (m : Fields) : List String := m.map Prod.fst

/-- The value stored under a key. -/
def value? (m : Fields) (key : String) : Option Json :=
  (List.find? (fun f => f.1 == key) m).map Prod.snd

/-- Stores a value: a known key keeps its place, a new one goes to the end. -/
def assign (m : Fields) (key : String) (value : Json) : Fields :=
  match m with
  | [] => [(key, value)]
  | f :: rest => if f.1 = key then (key, value) :: rest else f :: assign rest key value

/-- Stores several values, one after the other. -/
def assignAll (m extra : Fields) : Fields :=
  extra.foldl (fun acc f => assign acc f.1 f.2) m

/-- The fields under other keys than the given ones. -/
def without (m : Fields) (known : List String) : Fields :=
  m.filter fun f => !known.contains f.1

end Fields

namespace Json

/-! ## Nesting -/

mutual

/-- The number of arrays and objects around the most deeply nested place. -/
def depth : Json → Nat
  | array items => 1 + itemsDepth items
  | object fields => 1 + fieldsDepth fields
  | _ => 0

def itemsDepth : List Json → Nat
  | [] => 0
  | v :: rest => max v.depth (itemsDepth rest)

def fieldsDepth : List (String × Json) → Nat
  | [] => 0
  | (_, v) :: rest => max v.depth (fieldsDepth rest)

end

/-! ## Properties at every depth -/

mutual

/-- The value and all values inside it satisfy `p`. -/
def all (p : Json → Bool) : Json → Bool
  | array items => p (array items) && itemsAll p items
  | object fields => p (object fields) && fieldsAll p fields
  | v => p v

def itemsAll (p : Json → Bool) : List Json → Bool
  | [] => true
  | v :: rest => v.all p && itemsAll p rest

def fieldsAll (p : Json → Bool) : List (String × Json) → Bool
  | [] => true
  | (_, v) :: rest => v.all p && fieldsAll p rest

end

/-- The value is no object that repeats a key. -/
def distinctKeys : Json → Bool
  | object fields => decide (Fields.keys fields).Nodup
  | _ => true

/-- The value is no double. -/
def notDouble : Json → Bool
  | number (.double _) => false
  | _ => true

/-- No object at any depth repeats a key. -/
def WellFormed (v : Json) : Prop := v.all distinctKeys

/-- Every number at any depth is an integer. -/
def Integral (v : Json) : Prop := v.all notDouble

instance (v : Json) : Decidable v.WellFormed := inferInstanceAs (Decidable (_ = true))

instance (v : Json) : Decidable v.Integral := inferInstanceAs (Decidable (_ = true))

/-! ## Equality up to the order of fields -/

mutual

/-- Objects are equal if they hold equal values under the same keys, arrays if they agree item by
item. -/
def same : Json → Json → Bool
  | null, null => true
  | bool a, bool b => a == b
  | number n, number m => n.same m
  | string s, string t => s == t
  | array xs, array ys => sameItems xs ys
  | object m, object n => m.length == n.length && sameFields m n
  | _, _ => false

def sameItems : List Json → List Json → Bool
  | [], [] => true
  | v :: vs, w :: ws => v.same w && sameItems vs ws
  | _, _ => false

/-- Every field of the first object has its equal in the second. -/
def sameFields : List (String × Json) → List (String × Json) → Bool
  | [], _ => true
  | (k, v) :: rest, n =>
      (match Fields.value? n k with
        | some w => v.same w
        | none => false) && sameFields rest n

end

end Json

/-- Equality of the objects with these fields. -/
def Fields.same (m n : Fields) : Bool :=
  (Json.object m).same (Json.object n)

end HdlInterface
