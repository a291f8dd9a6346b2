import HdlInterface.Proofs.Document.Alike
import HdlInterface.Proofs.Expr.Document

/-!
# Expressions of equal fields

The same expression is read from equal objects, or none for the same reason.
-/

namespace HdlInterface

/-! ## Literals -/

namespace Literal

/-- The number that a value has to be. -/
def integerOf : Json → Except DocumentError Int64
  | .number n => n.toInt64?.elim (throw (.unexpectedType "value" .integer)) pure
  | _ => throw (.unexpectedType "value" .integer)

/-- The literal of a number, a bit vector if there is a width. -/
def ofWidth (n : Int64) : Option Json → Except DocumentError Literal
  | none => return integer n none
  | some (.number b) =>
      match b.toUInt32? with
      | some bits => return integer n (some bits)
      | none => throw (.unexpectedType "bits" .bitWidth)
  | some _ => throw (.unexpectedType "bits" .bitWidth)

def nameOf : Json → Except DocumentError Literal
  | .string s => return name [s]
  | .array parts => return name (← parts.mapM (·.textAt "value" .namePart))
  | _ => throw (.unexpectedType "value" .name)

/-- A literal of a type and a value, with the width that was found. -/
def ofParts (kind : String) (value : Json) (bits : Option Json) : Except DocumentError Literal :=
  match kind with
  | "ID" => nameOf value
  | "INT" => do ofWidth (← integerOf value) bits
  | "STRING" => return string (← value.textAt "value" .string)
  | _ => throw (.unknownLiteral kind)

theorem ofFields_eq (m : Fields) : ofFields m = (do
    let kind ← m.text "type"
    let value ← m.require "value"
    ofParts kind value (m.present? "bits")) := by
  rw [ofFields]
  refine bind_congr fun kind => bind_congr fun value => ?_
  generalize m.present? "bits" = bits
  split
  · cases value <;> rfl
  · cases value with
    | number n =>
      cases bits with
      | none => rfl
      | some b => cases b <;> rfl
    | _ => rfl
  · rfl
  · simp only [ofParts]

variable {v w : Json}

theorem integerOf_alike (h : v.Same w) : ReadAlike Eq (integerOf v) (integerOf w) := by
  cases h.parts with
  | number hn =>
    rw [integerOf, integerOf, Number.toInt64?_eq_of_same hn]
    exact .of_eq _
  | _ => exact .same_error _

theorem nameOf_alike (h : v.Same w) : ReadAlike Eq (nameOf v) (nameOf w) := by
  cases h.parts with
  | string s => exact .ok rfl
  | array hvs =>
    refine (Alike.mapM hvs fun _ _ hvw => Json.textAt_alike hvw .namePart).bind
      fun parts _ hparts => .ok ?_
    rw [List.forall₂_eq_eq_eq] at hparts
    rw [hparts]
  | _ => exact .same_error _

theorem ofWidth_alike (n : Int64) {x y : Option Json} (h : Option.Rel Json.Same x y) :
    ReadAlike Eq (ofWidth n x) (ofWidth n y) := by
  cases h with
  | none => exact .of_eq _
  | some h =>
    cases h.parts with
    | number hk =>
      rw [ofWidth, ofWidth, Number.toUInt32?_eq_of_same hk]
      exact .of_eq _
    | _ => exact .same_error _

theorem ofParts_alike (kind : String) (h : v.Same w) {x y : Option Json}
    (hbits : Option.Rel Json.Same x y) :
    ReadAlike Eq (ofParts kind v x) (ofParts kind w y) := by
  unfold ofParts
  split
  · exact nameOf_alike h
  · refine (integerOf_alike h).bind fun n _ hn => ?_
    exact hn ▸ ofWidth_alike n hbits
  · exact (Json.textAt_alike h .string).bind fun _ _ hab => .ok (hab ▸ rfl)
  · exact .same_error _

theorem ofFields_alike {m n : Fields} (h : m.Same n) :
    ReadAlike Eq (ofFields m) (ofFields n) := by
  rw [ofFields_eq, ofFields_eq]
  refine (Fields.text_alike (h.value? "type")).bind fun kind _ hkind => ?_
  refine (Fields.require_alike (h.value? "value")).bind fun v w hvw => ?_
  exact hkind ▸ ofParts_alike kind hvw (Fields.present?_rel (h.value? "bits"))

end Literal

/-! ## Expressions -/

namespace Expr

theorem ofOperand_eq (op : Fields) (key : String) :
    ofOperand op key = op.object key >>= ofFields := by
  rw [ofOperand, Fields.object, Fields.require]
  split
  next h => rw [h]; rfl
  next v hv h =>
    rw [h]
    cases v with
    | object m => exact absurd rfl (hv m)
    | _ => rfl
  next h => rw [h]; rfl

theorem ofItems_eq (items : List Json) :
    ofItems items = items.mapM fun v => v.fieldsAt "operands" >>= ofFields := by
  induction items with
  | nil => rw [ofItems, List.mapM_nil]; rfl
  | cons v items ih =>
    rw [List.mapM_cons]
    cases v with
    | object m => rw [ofItems, ih]; rfl
    | _ => simp only [ofItems]; rfl

/-- The expression of an operator and its operands. -/
def ofOperator (op : Fields) : Except DocumentError Expr := do
  let o ← op.text "operator"
  let x ← op.object "op0" >>= ofFields
  match op.value? "operands" with
  | some _ => return nary o x (← op.list ofFields "operands")
  | none => return binary o x (← op.object "op1" >>= ofFields)

/-- A literal is looked at first, and then an operator. -/
theorem ofFields_eq (m : Fields) : ofFields m =
    match m.present? "literal" with
    | some v => v.fieldsAt "literal" >>= fun n => literal <$> Literal.ofFields n
    | none =>
        match m.present? "binOperator" with
        | some v => v.fieldsAt "binOperator" >>= ofOperator
        | none => .error (.unparsable m) := by
  rw [ofFields]
  split
  next n hn => rw [hn]; rfl
  next u hu hn =>
    rw [hn]
    cases u with
    | object n => exact absurd rfl (hu n)
    | _ => rfl
  next hn =>
    rw [hn]
    split
    next op hop =>
      rw [hop]
      refine bind_congr fun o => ?_
      rw [ofOperand_eq]
      refine bind_congr fun x => ?_
      split
      next items hitems =>
        simp only [hitems, Fields.list, Fields.array_eq_ok_iff.2 hitems, ok_bind, ofItems_eq]
      next v hv hitems =>
        simp only [hitems, Fields.list, Fields.array, Fields.require, ok_bind]
        cases v with
        | array items => exact absurd rfl (hv items)
        | _ => rfl
      next hitems => rw [hitems, ofOperand_eq]
    next u hu hop =>
      rw [hop]
      cases u with
      | object n => exact absurd rfl (hu n)
      | _ => rfl
    next hop => rw [hop]

/-- The operands are smaller than the operator that holds them. -/
theorem ofOperator_alike {m n : Fields} (h : m.Same n)
    (hread : ∀ k l, sizeOf k < sizeOf m → k.Same l → ReadAlike Eq (ofFields k) (ofFields l)) :
    ReadAlike Eq (ofOperator m) (ofOperator n) := by
  have hoperand : ∀ key, ReadAlike Eq (m.object key >>= ofFields) (n.object key >>= ofFields) := by
    intro key
    refine (h.object_alike key).with_left.bind fun k l ⟨hk, hkl⟩ => ?_
    exact hread k l (Fields.sizeOf_of_object hk) hkl
  refine (Fields.text_alike (h.value? "operator")).bind fun o _ ho => ?_
  subst ho
  refine (hoperand "op0").bind fun x _ hx => ?_
  subst hx
  have hoperands := h.value? "operands"
  generalize m.value? "operands" = v at hoperands
  generalize n.value? "operands" = w at hoperands
  cases hoperands with
  | none => exact (hoperand "op1").bind fun y _ hy => .ok (hy ▸ rfl)
  | some =>
    refine (Fields.list_alike (h.value? "operands") hread).bind fun xs _ hxs => .ok ?_
    rw [List.forall₂_eq_eq_eq] at hxs
    rw [hxs]

/-- The induction is on the size of the first object. -/
theorem ofFields_alike {m n : Fields} (h : m.Same n) :
    ReadAlike Eq (ofFields m) (ofFields n) := by
  rw [ofFields_eq, ofFields_eq]
  have hliteral := Fields.present?_rel (h.value? "literal")
  generalize hl : m.present? "literal" = v at hliteral
  generalize n.present? "literal" = w at hliteral
  cases hliteral with
  | some hvw =>
    refine (Json.fieldsAt_alike hvw.lift).bind fun k l hkl => ?_
    exact (Literal.ofFields_alike hkl).bind fun _ _ he => .ok (he ▸ rfl)
  | none =>
    have hoperator := Fields.present?_rel (h.value? "binOperator")
    generalize ho : m.present? "binOperator" = v at hoperator
    generalize n.present? "binOperator" = w at hoperator
    cases hoperator with
    | none => exact .error (.unparsable h)
    | some hvw =>
      refine (Json.fieldsAt_alike hvw.lift).with_left.bind fun op op' ⟨hop, hsame⟩ => ?_
      have hsize : sizeOf op < sizeOf m :=
        Fields.sizeOf_of_present (Fields.fieldsAt_eq_ok_iff.1 hop ▸ ho)
      exact ofOperator_alike hsame fun k l hk hkl => ofFields_alike hkl
termination_by sizeOf m
decreasing_by omega

end Expr

end HdlInterface
