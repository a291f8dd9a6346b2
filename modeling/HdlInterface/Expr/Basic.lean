import HdlInterface.Text.LowerCase

/-!
# Expressions

Expressions as they stand in type marks and default values: names, integers, strings, operators and
calls.
-/

namespace HdlInterface

/-- A leaf. -/
inductive Literal
  /-- a name, selected through its parts -/
  | name (parts : List String)
  /-- an integer, with a width if it is a bit vector -/
  | integer (value : Int64) (bits : Option UInt32)
  | string (text : String)
deriving DecidableEq

inductive Expr
  | literal (l : Literal)
  /-- an operator between two operands -/
  | binary (operator : String) (left right : Expr)
  /-- an operator applied to a head and any number of operands, such as a call of the head -/
  | nary (operator : String) (head : Expr) (operands : List Expr)

namespace Expr

/-! ## Construction -/

instance : Inhabited Expr := ⟨literal (.name [])⟩

/-- The operator of a call. -/
def callOperator : String := "CALL"

def id (name : String) : Expr := literal (.name [name])

def selected (parts : List String) : Expr := literal (.name parts)

def int (value : Int64) : Expr := literal (.integer value none)

def vector (value : Int64) (bits : UInt32) : Expr := literal (.integer value (some bits))

def string (text : String) : Expr := literal (.string text)

def call (callee : Expr) (arguments : List Expr) : Expr := nary callOperator callee arguments

/-! ## Equality -/

mutual

def decEq : (a b : Expr) → Decidable (a = b)
  | literal l, literal m =>
      if h : l = m then isTrue (h ▸ rfl) else isFalse fun e => h (literal.inj e)
  | binary o x y, binary p v w =>
      match decEq x v, decEq y w with
      | isTrue hx, isTrue hy =>
          if ho : o = p then isTrue (by rw [ho, hx, hy])
          else isFalse fun e => ho (binary.inj e).1
      | isFalse hx, _ => isFalse fun e => hx (binary.inj e).2.1
      | _, isFalse hy => isFalse fun e => hy (binary.inj e).2.2
  | nary o x xs, nary p y ys =>
      match decEq x y, decEqList xs ys with
      | isTrue hx, isTrue hxs =>
          if ho : o = p then isTrue (by rw [ho, hx, hxs])
          else isFalse fun e => ho (nary.inj e).1
      | isFalse hx, _ => isFalse fun e => hx (nary.inj e).2.1
      | _, isFalse hxs => isFalse fun e => hxs (nary.inj e).2.2
  | literal _, binary .. => isFalse nofun
  | literal _, nary .. => isFalse nofun
  | binary .., literal _ => isFalse nofun
  | binary .., nary .. => isFalse nofun
  | nary .., literal _ => isFalse nofun
  | nary .., binary .. => isFalse nofun

def decEqList : (xs ys : List Expr) → Decidable (xs = ys)
  | [], [] => isTrue rfl
  | [], _ :: _ => isFalse nofun
  | _ :: _, [] => isFalse nofun
  | x :: xs, y :: ys =>
      match decEq x y, decEqList xs ys with
      | isTrue hx, isTrue hxs => isTrue (by rw [hx, hxs])
      | isFalse hx, _ => isFalse fun e => hx (List.cons.inj e).1
      | _, isFalse hxs => isFalse fun e => hxs (List.cons.inj e).2

end

instance : DecidableEq Expr := decEq

/-! ## Names -/

/-- The last part of a name. -/
def name? : Expr → Option String
  | literal (.name parts) => parts.getLast?
  | _ => none

mutual

/-- Applies `f` to every part of every name in the tree; operators are no names. -/
def mapNames (f : String → String) : Expr → Expr
  | literal (.name parts) => literal (.name (parts.map f))
  | literal l => literal l
  | binary o x y => binary o (mapNames f x) (mapNames f y)
  | nary o x xs => nary o (mapNames f x) (mapNamesList f xs)

def mapNamesList (f : String → String) : List Expr → List Expr
  | [] => []
  | x :: xs => mapNames f x :: mapNamesList f xs

end

mutual

theorem mapNames_id : (e : Expr) → e.mapNames (fun name => name) = e
  | literal (.name _) => by simp [mapNames]
  | literal (.integer ..) => rfl
  | literal (.string _) => rfl
  | binary _ x y => by rw [mapNames, mapNames_id x, mapNames_id y]
  | nary _ x xs => by rw [mapNames, mapNames_id x, mapNamesList_id xs]

theorem mapNamesList_id : (xs : List Expr) → mapNamesList (fun name => name) xs = xs
  | [] => rfl
  | x :: xs => by rw [mapNamesList, mapNames_id x, mapNamesList_id xs]

end

/-! ## Display -/

mutual

/-- The expression as a reader would write it, with operators in lower case. -/
def display : Expr → String
  | literal (.name parts) => ".".intercalate parts
  | literal (.integer value _) => toString value.toInt
  | literal (.string text) => "\"" ++ text ++ "\""
  | binary o x y => x.display ++ " " ++ lowerCase o ++ " " ++ y.display
  | nary o x xs =>
      (if o = callOperator then x.display ++ "(" else lowerCase o ++ "(" ++ x.display ++ ", ") ++
        ", ".intercalate (displayList xs) ++ ")"

def displayList : List Expr → List String
  | [] => []
  | x :: xs => x.display :: displayList xs

end

end Expr

end HdlInterface
