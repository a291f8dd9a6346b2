import HdlInterface.Expr.Basic
import HdlInterface.Document.Field

/-!
# Expressions as documents

An expression is an object with a literal or an operator:

* `literal` holds a type `ID`, `INT` or `STRING`, a value, and for a bit vector its width in `bits`;
* `binOperator` holds the operator, its first operand `op0`, and then either `op1` or a list
  `operands`.

A literal that is null counts as absent, and a literal hides an operator.
-/

namespace HdlInterface

/-! ## Writing -/

/-- A name of one part is written as that part, any other as the list of its parts. -/
def Literal.toFields : Literal → Fields
  | name [part] => [("type", .string "ID"), ("value", .string part)]
  | name parts => [("type", .string "ID"), ("value", .array (parts.map .string))]
  | integer value none =>
      [("type", .string "INT"), ("value", .number (.integer (.ofInt64 value)))]
  | integer value (some bits) =>
      [("type", .string "INT"), ("value", .number (.integer (.ofInt64 value))),
        ("bits", .number (.integer (.ofNat32 bits)))]
  | string text => [("type", .string "STRING"), ("value", .string text)]

namespace Expr

mutual

def toFields : Expr → Fields
  | literal l => [("literal", .object l.toFields)]
  | binary o x y =>
      [("binOperator", .object
        [("operator", .string o), ("op0", .object x.toFields), ("op1", .object y.toFields)])]
  | nary o x xs =>
      [("binOperator", .object
        [("operator", .string o), ("op0", .object x.toFields), ("operands", .array (toItems xs))])]

def toItems : List Expr → List Json
  | [] => []
  | x :: xs => .object x.toFields :: toItems xs

end

end Expr

/-! ## Reading -/

/-- The type and the value are required before the type is looked at. -/
def Literal.ofFields (m : Fields) : Except DocumentError Literal := do
  let kind ← m.text "type"
  let value ← m.require "value"
  match kind with
  | "ID" =>
      match value with
      | .string s => return name [s]
      | .array parts => return name (← parts.mapM (·.textAt "value" .namePart))
      | _ => throw (.unexpectedType "value" .name)
  | "INT" =>
      let n ←
        match value with
        | .number n => n.toInt64?.elim (throw (.unexpectedType "value" .integer)) pure
        | _ => throw (.unexpectedType "value" .integer)
      match m.present? "bits" with
      | none => return integer n none
      | some (.number b) =>
          match b.toUInt32? with
          | some bits => return integer n (some bits)
          | none => throw (.unexpectedType "bits" .bitWidth)
      | some _ => throw (.unexpectedType "bits" .bitWidth)
  | "STRING" => return string (← value.textAt "value" .string)
  | _ => throw (.unknownLiteral kind)

namespace Expr

mutual

def ofFields (m : Fields) : Except DocumentError Expr :=
  match _hl : m.present? "literal" with
  | some (.object l) => literal <$> Literal.ofFields l
  | some _ => .error (.unexpectedType "literal" .object)
  | none =>
      match _ho : m.present? "binOperator" with
      | some (.object op) => do
          let operator ← Fields.text op "operator"
          let first ← ofOperand op "op0"
          match _hs : Fields.value? op "operands" with
          | some (.array items) => return nary operator first (← ofItems items)
          | some _ => throw (.unexpectedType "operands" .array)
          | none => return binary operator first (← ofOperand op "op1")
      | some _ => .error (.unexpectedType "binOperator" .object)
      | none => .error (.unparsable m)
termination_by sizeOf m
decreasing_by
  all_goals
    have := Fields.sizeOf_present? _ho
    simp only [Json.object.sizeOf_spec] at this
  · omega
  · have := Fields.sizeOf_value? _hs
    simp only [Json.array.sizeOf_spec] at this
    omega
  · omega

/-- The operand under a key. -/
def ofOperand (op : Fields) (key : String) : Except DocumentError Expr :=
  match _h : Fields.value? op key with
  | some (.object m) => ofFields m
  | some _ => .error (.unexpectedType key .object)
  | none => .error (.missingField key)
termination_by sizeOf op
decreasing_by
  have := Fields.sizeOf_value? _h
  simp only [Json.object.sizeOf_spec] at this
  omega

/-- The operands of a list. -/
def ofItems (items : List Json) : Except DocumentError (List Expr) :=
  match items with
  | [] => .ok []
  | .object m :: rest => do
      let x ← ofFields m
      let xs ← ofItems rest
      return x :: xs
  | _ :: _ => .error (.unexpectedType "operands" .object)
termination_by sizeOf items
decreasing_by all_goals simp only [List.cons.sizeOf_spec, Json.object.sizeOf_spec]; omega

end

end Expr

end HdlInterface
